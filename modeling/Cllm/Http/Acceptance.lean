import Cllm.Http.RequestBounds

namespace Cllm.Http

open Libc

/-- The line is a method, a path and a version with one blank between them. -/
structure Pieces (line m p v : List UInt8) : Prop where
  spells : line=m++blank::(p++blank::v)
  method_word : blank∉m
  path_word : blank∉p
  method_short : m.length≤15
  version_short : v.length≤15

/-- The first CRLF in the `length` bytes starts at `k`. -/
structure FirstCrlf (raw : List UInt8) (length k : Nat) : Prop where
  inside : k+1<length
  here : raw[k]?=some cr ∧ raw[k+1]?=some lf
  first : ∀ j<k,¬(raw[j]?=some cr ∧ raw[j+1]?=some lf)

/-- The request line: the bytes in front of the CRLF up to a NUL. -/
def requestLine (raw : List UInt8) (k : Nat) : List UInt8 := cut (raw.take k)

theorem word_unique {m m' t t' : List UInt8} (hm : blank∉m) (hm' : blank∉m')
    (h : m++blank::t=m'++blank::t') : m=m' ∧ t=t' := by
  induction m generalizing m' with
  | nil =>
    cases m' with
    | nil => exact ⟨rfl,(List.cons.inj h).2⟩
    | cons c m' =>
      have hc : blank=c := (List.cons.inj h).1
      exact absurd (hc ▸ List.mem_cons_self) hm'
  | cons c m ih =>
    cases m' with
    | nil =>
      have hc : c=blank := (List.cons.inj h).1
      exact absurd (hc ▸ List.mem_cons_self) hm
    | cons c' m' =>
      obtain ⟨rfl,htail⟩ := List.cons.inj h
      rw [List.mem_cons,not_or] at hm hm'
      obtain ⟨rfl,rfl⟩ := ih hm.2 hm'.2 htail
      exact ⟨rfl,rfl⟩

theorem scanToken_word {t : List UInt8} (hb : blank∉t) (h0 : 0∉t) {c : UInt8}
    (hc : c=blank ∨ c=0) (rest : List UInt8) : scanToken (t++c::rest)=some (t,c::rest) := by
  induction t with
  | nil =>
    rw [List.nil_append,scanToken,if_pos hc]
  | cons d t ih =>
    rw [List.mem_cons,not_or] at hb h0
    have hd : ¬(d=blank ∨ d=0) := by
      rintro (hd | hd)
      · exact hb.1 hd.symm
      · exact h0.1 hd.symm
    rw [List.cons_append,scanToken,if_neg hd,ih hb.2 h0.2]
    rfl

theorem copy_word {size : Nat} {s : List UInt8} (h0 : 0∉s) (rest : List UInt8)
    (h : s.length<size) : ∃ f : CField size,CField.copy (s++rest) s.length h=some f ∧ f.bytes=s := by
  have hfit : s.length ≤ (s++rest).length := by
    rw [List.length_append]
    exact Nat.le_add_right _ _
  obtain ⟨f,hf⟩ := Option.isSome_iff_exists.mp (CField.copy_isSome h hfit)
  refine ⟨f,hf,?_⟩
  have hcopy := strncpy_of_not_mem hfit (List.take_left.symm ▸ h0)
  rw [CField.copy_eq_some hf,List.take_left] at hcopy
  exact Option.some.inj hcopy

/-- What parse_request_line does behind the second blank. -/
def parseVersion (memory : List UInt8) (request : HttpRequest) : Option (Option HttpRequest) := do
  let versionLen ← strlen memory
  if hv : versionLen<16 then
    let v ← CField.copy memory versionLen hv
    return some {request with version := v}
  else return none

/-- What it does behind the first. -/
def parsePath (memory : List UInt8) (request : HttpRequest) : Option (Option HttpRequest) := do
  let (path,rest) ← scanToken memory
  if rest.head?=some 0 then return none
  if hp : path.length<256 then
    let p ← CField.copy memory path.length hp
    parseVersion rest.tail {request with path := p}
  else return none

theorem parseRequestLine_eq (line : List UInt8) (request : HttpRequest) :
    parseRequestLine line request=(do
      let (method,rest) ← scanToken line
      if rest.head?=some 0 then return none
      if hm : method.length<16 then
        let m ← CField.copy line method.length hm
        parsePath rest.tail {request with method := m}
      else return none) := rfl

theorem head_blank (u : List UInt8) : (blank::u).head?≠some 0 := by
  intro h
  exact absurd (Option.some.inj h) (by decide)

theorem parseVersion_word {v : List UInt8} (h0 : 0∉v) (h : v.length<16) (rest : List UInt8)
    (r : HttpRequest) :
    ∃ f : CField 16,f.bytes=v ∧ parseVersion (v++0::rest) r=some (some {r with version := f}) := by
  obtain ⟨f,hf,hb⟩ := copy_word h0 (0::rest) h
  refine ⟨f,hb,?_⟩
  rw [parseVersion,strlen_append h0]
  simp only [Option.bind_eq_bind,Option.bind_some,h,dif_pos,hf]
  rfl

theorem parseVersion_long {v : List UInt8} (h0 : 0∉v) (h : ¬v.length<16) (rest : List UInt8)
    (r : HttpRequest) : parseVersion (v++0::rest) r=some none := by
  rw [parseVersion,strlen_append h0]
  simp only [Option.bind_eq_bind,Option.bind_some,h,dif_neg,not_false_iff]
  rfl

theorem parsePath_word {p : List UInt8} (hb : blank∉p) (h0 : 0∉p) (h : p.length<256)
    (u : List UInt8) (r : HttpRequest) :
    ∃ f : CField 256,f.bytes=p ∧ parsePath (p++blank::u) r=parseVersion u {r with path := f} := by
  obtain ⟨f,hf,hfb⟩ := copy_word h0 (blank::u) h
  refine ⟨f,hfb,?_⟩
  rw [parsePath,scanToken_word hb h0 (.inl rfl)]
  simp only [Option.bind_eq_bind,Option.bind_some,head_blank,if_false,h,dif_pos,hf,List.tail_cons]

theorem parsePath_end {t : List UInt8} (hb : blank∉t) (h0 : 0∉t) (rest : List UInt8)
    (r : HttpRequest) : parsePath (t++0::rest) r=some none := by
  rw [parsePath,scanToken_word hb h0 (.inr rfl)]
  rfl

theorem parseRequestLine_word {m : List UInt8} (hb : blank∉m) (h0 : 0∉m) (h : m.length<16)
    (u : List UInt8) (r : HttpRequest) : ∃ f : CField 16,f.bytes=m ∧
      parseRequestLine (m++blank::u) r=parsePath u {r with method := f} := by
  obtain ⟨f,hf,hfb⟩ := copy_word h0 (blank::u) h
  refine ⟨f,hfb,?_⟩
  rw [parseRequestLine_eq,scanToken_word hb h0 (.inl rfl)]
  simp only [Option.bind_eq_bind,Option.bind_some,head_blank,if_false,h,dif_pos,hf,List.tail_cons]

theorem parseRequestLine_long {m : List UInt8} (hb : blank∉m) (h0 : 0∉m) (h : ¬m.length<16)
    (u : List UInt8) (r : HttpRequest) : parseRequestLine (m++blank::u) r=some none := by
  rw [parseRequestLine_eq,scanToken_word hb h0 (.inl rfl)]
  simp only [Option.bind_eq_bind,Option.bind_some,head_blank,if_false,h,dif_neg,not_false_iff]
  rfl

theorem parseRequestLine_end {t : List UInt8} (hb : blank∉t) (h0 : 0∉t) (rest : List UInt8)
    (r : HttpRequest) : parseRequestLine (t++0::rest) r=some none := by
  rw [parseRequestLine_eq,scanToken_word hb h0 (.inr rfl)]
  rfl

/-- What a line of a request is to be, and what it is otherwise. -/
theorem line_cases (line : List UInt8) :
    blank∉line ∨ (∃ m t,line=m++blank::t ∧ blank∉m ∧ blank∉t) ∨
      ∃ m p v,line=m++blank::(p++blank::v) ∧ blank∉m ∧ blank∉p := by
  by_cases hb : blank∈line
  · obtain ⟨m,t,hline,hm⟩ := List.eq_append_cons_of_mem hb
    by_cases hb' : blank∈t
    · obtain ⟨p,v,ht,hp⟩ := List.eq_append_cons_of_mem hb'
      exact .inr (.inr ⟨m,p,v,ht ▸ hline,hm,hp⟩)
    · exact .inr (.inl ⟨m,t,hline,hm,hb'⟩)
  · exact .inl hb

/-- A line is taken when it has three pieces of the right lengths, and only then. -/
theorem parseRequestLine_pieces {line : List UInt8} (h0 : 0∉line) (hlen : line.length<256)
    (rest : List UInt8) (r : HttpRequest) :
    (parseRequestLine (line++0::rest) r=some none ∧ ¬∃ m p v,Pieces line m p v) ∨
      ∃ r',parseRequestLine (line++0::rest) r=some (some r') ∧
        Pieces line r'.method.bytes r'.path.bytes r'.version.bytes := by
  obtain hb | ⟨m,t,rfl,hm,ht⟩ | ⟨m,p,v,rfl,hm,hp⟩ := line_cases line
  · refine .inl ⟨parseRequestLine_end hb h0 rest r,?_⟩
    rintro ⟨m,p,v,hpieces⟩
    apply hb
    rw [hpieces.spells]
    simp
  · simp only [List.mem_append,List.mem_cons,not_or] at h0
    refine .inl ⟨?_,?_⟩
    · rw [List.append_assoc,List.cons_append]
      by_cases hshort : m.length<16
      · obtain ⟨f,-,hf⟩ := parseRequestLine_word hm h0.1 hshort (t++0::rest) r
        rw [hf,parsePath_end ht h0.2.2]
      · exact parseRequestLine_long hm h0.1 hshort _ r
    · rintro ⟨m',p',v',hpieces⟩
      obtain ⟨-,hrest⟩ := word_unique hm hpieces.method_word hpieces.spells
      apply ht
      rw [hrest]
      simp
  · simp only [List.mem_append,List.mem_cons,not_or] at h0
    simp only [List.length_append,List.length_cons] at hlen
    have hmemory : (m++blank::(p++blank::v))++0::rest=m++blank::(p++blank::(v++0::rest)) := by
      simp
    have hunique : ∀ m' p' v',Pieces (m++blank::(p++blank::v)) m' p' v' → m=m' ∧ v=v' := by
      intro m' p' v' hpieces
      obtain ⟨hmm,hrest⟩ := word_unique hm hpieces.method_word hpieces.spells
      obtain ⟨-,hvv⟩ := word_unique hp hpieces.path_word hrest
      exact ⟨hmm,hvv⟩
    rw [hmemory]
    by_cases hshort : m.length<16
    · obtain ⟨mf,hmf,hm'⟩ := parseRequestLine_word hm h0.1 hshort (p++blank::(v++0::rest)) r
      obtain ⟨pf,hpf,hp'⟩ := parsePath_word hp h0.2.2.1 (by omega) (v++0::rest)
        {r with method := mf}
      rw [hm',hp']
      by_cases hv : v.length<16
      · obtain ⟨vf,hvf,hv'⟩ := parseVersion_word h0.2.2.2.2 hv rest
          {r with method := mf,path := pf}
        refine .inr ⟨_,hv',?_⟩
        simp only [hmf,hpf,hvf]
        exact ⟨rfl,hm,hp,Nat.le_of_lt_succ hshort,Nat.le_of_lt_succ hv⟩
      · refine .inl ⟨parseVersion_long h0.2.2.2.2 hv rest _,?_⟩
        rintro ⟨m',p',v',hpieces⟩
        have hlong := hpieces.version_short
        rw [← (hunique m' p' v' hpieces).2] at hlong
        omega
    · refine .inl ⟨parseRequestLine_long hm h0.1 hshort _ r,?_⟩
      rintro ⟨m',p',v',hpieces⟩
      have hlong := hpieces.method_short
      rw [← (hunique m' p' v' hpieces).1] at hlong
      omega

theorem findCrlf_before {raw : List UInt8} {n pos d : Nat} (h : findCrlf raw n pos=some d) :
    ∀ j<d,crlfAt raw (pos+j)≠some true := by
  induction n generalizing pos d with
  | zero =>
    obtain rfl : 0=d := by simpa [findCrlf] using h
    intro j hj
    omega
  | succ n ih =>
    rw [findCrlf] at h
    obtain ⟨b,hb,h⟩ := Option.bind_eq_some_iff.mp h
    cases b with
    | true =>
      obtain rfl : 0=d := by simpa using h
      intro j hj
      omega
    | false =>
      obtain ⟨e,he,hd⟩ := Option.bind_eq_some_iff.mp h
      obtain rfl : e+1=d := by simpa using hd
      intro j hj
      cases j with
      | zero => simp [hb]
      | succ j =>
        have hstep : pos+(j+1)=pos+1+j := by omega
        rw [hstep]
        exact ih he j (by omega)

/-- The search for the CRLF finds the first one. -/
theorem firstCrlf_iff {raw : List UInt8} {length d : Nat}
    (hd : findCrlf raw (length-1) 0=some d) (k : Nat) :
    FirstCrlf raw length k ↔ k=d ∧ d+1<length := by
  obtain ⟨hle,hfound⟩ := findCrlf_spec hd
  have hbefore := findCrlf_before hd
  simp only [Nat.zero_add] at hfound hbefore
  constructor
  · intro hk
    have hinside := hk.inside
    have hkd : ¬k<d := fun hlt => hbefore k hlt ((crlfAt_eq_true_iff raw k).mpr hk.here)
    have hdk : ¬d<k := by
      intro hlt
      exact hk.first d hlt ((crlfAt_eq_true_iff raw d).mp (hfound (by omega)))
    omega
  · rintro ⟨rfl,hlt⟩
    refine ⟨hlt,(crlfAt_eq_true_iff raw k).mp (hfound (by omega)),?_⟩
    intro j hj hcrlf
    exact hbefore j hj ((crlfAt_eq_true_iff raw j).mpr hcrlf)

theorem copyBody_frame {raw : List UInt8} {length bodyStart : Nat} {r r' : HttpRequest}
    (h : copyBody raw length bodyStart r=some r') (hr : r.bodyLength=0) :
    r'.method=r.method ∧ r'.path=r.path ∧ r'.version=r.version ∧
      r'.bodyLength≤httpRequestBodySize-1 := by
  rw [copyBody] at h
  split at h
  · obtain ⟨f,-,h⟩ := Option.bind_eq_some_iff.mp h
    obtain rfl := Option.some.inj h
    exact ⟨rfl,rfl,rfl,Nat.min_le_right _ _⟩
  · obtain rfl := Option.some.inj h
    rw [hr]
    exact ⟨rfl,rfl,rfl,Nat.zero_le _⟩

/-- Whatever stands behind the request line, it is not turned down. -/
theorem passes_accept {raw : List UInt8} {length lineEnd : Nat} (hlen : length≤raw.length)
    {r : HttpRequest} (hr : r.bodyLength=0) :
    ∃ b s r₁ r₂ r₃,
      headerLoop raw length (length-1-(lineEnd+2)) (lineEnd+2) (lineEnd+2) r=some (b,s,r₁) ∧
      copyHeaders raw lineEnd (if b=0 then length else b) s r₁=some r₂ ∧
      copyBody raw length (if b=0 then length else b) r₂=some r₃ ∧
      r₃.method=r.method ∧ r₃.path=r.path ∧ r₃.version=r.version ∧
      ¬r₃.bodyLength>httpRequestBodySize-1 := by
  have hloop : (headerLoop raw length (length-1-(lineEnd+2)) (lineEnd+2) (lineEnd+2) r).isSome :=
    headerLoop_isSome hlen (by omega) r
  obtain ⟨⟨b,s,r₁⟩,hl⟩ := Option.isSome_iff_exists.mp hloop
  have hspec := headerLoop_spec hl (by omega)
  have hb : (if b=0 then length else b)≤raw.length := by
    split
    · exact hlen
    · next hne =>
      obtain hzero | ⟨p,hp,hlt,-⟩ := hspec.2
      · exact absurd hzero hne
      · omega
  obtain ⟨r₂,h₂⟩ := Option.isSome_iff_exists.mp (copyHeaders_isSome hb hspec.1 r₁)
  have hbody : (copyBody raw length (if b=0 then length else b) r₂).isSome :=
    copyBody_isSome hlen r₂
  obtain ⟨r₃,h₃⟩ := Option.isSome_iff_exists.mp hbody
  obtain ⟨hm,hp,hv,hlength⟩ := passes_frame hl h₂
  obtain ⟨hm',hp',hv',hfits⟩ := copyBody_frame h₃ (hlength.trans hr)
  exact ⟨b,s,r₁,r₂,r₃,hl,h₂,h₃,hm'.trans hm,hp'.trans hp,hv'.trans hv,Nat.not_lt_of_le hfits⟩

/-- Length and request line are as they should be. -/
def Acceptable (raw : List UInt8) (length : Nat) : Prop :=
  1≤length ∧ length≤httpRequestBodySize+4096 ∧
    ∃ k m p v,FirstCrlf raw length k ∧ k≤255 ∧ Pieces (requestLine raw k) m p v

/-- What request_line holds. -/
theorem requestLine_memory {raw : List UInt8} {k : Nat} (hk : k≤raw.length) :
    ∃ line rest,strncpy raw k=some line ∧ line++[0]=requestLine raw k++0::rest := by
  refine ⟨_,List.replicate (k-(requestLine raw k).length) 0,strncpy_cut hk,?_⟩
  rw [List.append_assoc,← List.replicate_succ',List.replicate_succ]
  rfl

/-- The parser's answer: -1 for what is not acceptable, otherwise a request with the three pieces
of its request line. -/
theorem httpParseRequest_cases {raw : List UInt8} {length : Nat} (hlen : length≤raw.length) :
    (httpParseRequest raw length=some none ∧ ¬Acceptable raw length) ∨
      ∃ r k,httpParseRequest raw length=some (some r) ∧ 1≤length ∧
        length≤httpRequestBodySize+4096 ∧ FirstCrlf raw length k ∧ k≤255 ∧
        Pieces (requestLine raw k) r.method.bytes r.path.bytes r.version.bytes := by
  by_cases h0 : length=0 ∨ length>httpRequestBodySize+4096
  · refine .inl ⟨?_,?_⟩
    · rw [httpParseRequest]
      simp [h0]
    · rintro ⟨hpos,hle,-⟩
      omega
  obtain ⟨d,hd⟩ := Option.isSome_iff_exists.mp
    (findCrlf_isSome (show 0+(length-1)<raw.length by omega))
  have hfirst := firstCrlf_iff hd
  by_cases h1 : d+1≥length
  · refine .inl ⟨?_,?_⟩
    · rw [httpParseRequest]
      simp [h0,hd,h1]
    · rintro ⟨-,-,k,m,p,v,hk,-⟩
      have hlt := ((hfirst k).mp hk).2
      omega
  by_cases h2 : d≥256
  · refine .inl ⟨?_,?_⟩
    · rw [httpParseRequest]
      simp [h0,hd,h1,h2]
    · rintro ⟨-,-,k,m,p,v,hk,hshort,-⟩
      have hkd := ((hfirst k).mp hk).1
      omega
  have hdraw : d≤raw.length := by omega
  obtain ⟨line,rest,hline,hmemory⟩ := requestLine_memory hdraw
  have hshort : (requestLine raw d).length<256 := by
    have hcut : (requestLine raw d).length≤(raw.take d).length :=
      (List.takeWhile_prefix _).length_le
    rw [List.length_take] at hcut
    omega
  have hnul : 0∉requestLine raw d := zero_not_mem_cut _
  have hat : FirstCrlf raw length d := (hfirst d).mpr ⟨rfl,by omega⟩
  obtain ⟨hnone,hpieces⟩ | ⟨r,hsome,hpieces⟩ :=
    parseRequestLine_pieces hnul hshort rest HttpRequest.init
  · refine .inl ⟨?_,?_⟩
    · rw [httpParseRequest]
      rw [← hmemory] at hnone
      simp [h0,hd,h1,h2,hline,hnone]
    · rintro ⟨-,-,k,m,p,v,hk,-,hp⟩
      rw [((hfirst k).mp hk).1] at hp
      exact hpieces ⟨m,p,v,hp⟩
  · rw [← hmemory] at hsome
    have hempty : r.bodyLength=0 := by
      obtain ⟨m,p,v,rfl⟩ := parseRequestLine_frame hsome
      rfl
    obtain ⟨b,s,r₁,r₂,r₃,hl,h₂,h₃,hm,hp,hv,hfits⟩ :=
      @passes_accept raw length d hlen r hempty
    refine .inr ⟨r₃,d,?_,by omega,by omega,hat,by omega,?_⟩
    · rw [httpParseRequest]
      simp only [h0,h1,h2,if_false,hd,hline,hsome,hl,h₂,h₃,hfits,Option.bind_eq_bind,
        Option.bind_some]
      rfl
    · rw [hm,hp,hv]
      exact hpieces

/-- http_parse_request returns 0 exactly on an acceptable length and request line, and method, path
and version are then the pieces of that line. -/
theorem accepts_iff {raw : List UInt8} {length : Nat} (hlen : length≤raw.length) :
    ((∃ r,httpParseRequest raw length=some (some r)) ↔ Acceptable raw length) ∧
      ∀ r,httpParseRequest raw length=some (some r) →
        ∃ k,FirstCrlf raw length k ∧ k≤255 ∧
          Pieces (requestLine raw k) r.method.bytes r.path.bytes r.version.bytes := by
  obtain ⟨hnone,hnot⟩ | ⟨r,k,hsome,hpos,hle,hk,hshort,hpieces⟩ := httpParseRequest_cases hlen
  · rw [hnone]
    refine ⟨iff_of_false ?_ hnot,?_⟩
    · rintro ⟨r,hr⟩
      cases hr
    · intro r hr
      cases hr
  · rw [hsome]
    refine ⟨iff_of_true ⟨r,rfl⟩ ⟨hpos,hle,k,_,_,_,hk,hshort,hpieces⟩,?_⟩
    intro r' hr
    obtain rfl := Option.some.inj (Option.some.inj hr)
    exact ⟨k,hk,hshort,hpieces⟩

/-- A request line with half a header behind it. -/
theorem accepts_get :
    ∃ r,httpParseRequest (cstr "GET / HTTP/1.1\r\nA: b") 20=some (some r) := by
  have hline : FirstCrlf (cstr "GET / HTTP/1.1\r\nA: b") 20 14 :=
    ⟨by decide,by decide,by decide +kernel⟩
  have hpieces : Pieces (requestLine (cstr "GET / HTTP/1.1\r\nA: b") 14) (cstr "GET") (cstr "/")
      (cstr "HTTP/1.1") :=
    ⟨by decide,by decide +kernel,by decide +kernel,by decide +kernel,by decide +kernel⟩
  exact (accepts_iff (by decide)).1.mpr
    ⟨by decide,by decide,14,_,_,_,hline,by decide,hpieces⟩

end Cllm.Http
