import Cllm.Http.Framing

namespace Cllm.Http

open Libc

variable {raw acc t : List UInt8} {pos start : Nat} {r : HttpRequest}

structure Scan where
  lines : List (List UInt8)
  last : List UInt8
  blank : Bool

/-- The lines of the text with a CRLF behind them, up to a blank line, and what stands in front of
that; or what is left when there is none. -/
def scan (acc : List UInt8) : List UInt8 → Scan
  | [] => ⟨[],acc,false⟩
  | [c] => ⟨[],acc++[c],false⟩
  | c::d::t =>
    if c=cr ∧ d=lf then
      if t.take 2=[cr,lf] then ⟨[],acc,true⟩
      else {scan [] t with lines := acc::(scan [] t).lines}
    else scan (acc++[c]) (d::t)

theorem NoCrlf.concat {s : List UInt8} {c d : UInt8} (hs : NoCrlf (s++[c]))
    (hcd : ¬(c=cr ∧ d=lf)) : NoCrlf (s++[c]++[d]) := by
  intro hi
  obtain ⟨u,hu⟩ | hi := List.infix_concat_iff.mp hi
  · have hsplit : u++[cr]++[lf]=s++[c]++[d] := by simpa using hu
    obtain ⟨hl,hd⟩ := List.append_inj' hsplit rfl
    obtain ⟨-,hc⟩ := List.append_inj' hl rfl
    simp only [List.cons.injEq,and_true] at hc hd
    exact hcd ⟨hc.symm,hd.symm⟩
  · exact hs hi

theorem noCrlf_nil : NoCrlf [] := by
  intro hi
  simpa using hi.length_le

theorem noCrlf_single (c : UInt8) : NoCrlf [c] := by
  intro hi
  simpa using hi.length_le

theorem parseHeaderLines_acc (hs : NoCrlf acc) (hd : raw.drop start=acc++cr::lf::t)
    (r : HttpRequest) : parseHeaderLines raw (start+acc.length) start r=some (r.read acc) := by
  by_cases hne : acc=[]
  · subst hne
    rw [parseHeaderLines,if_neg (by simp),read_nil]
  · exact parseHeaderLines_line hs hne hd r

theorem blankLineAt_take (hd : raw.drop pos=cr::lf::t) :
    blankLineAt raw raw.length pos=some (decide (t.take 2=[cr,lf])) := by
  have hl := length_drop_eq hd (by simp)
  have hd2 : raw.drop (pos+2)=t := drop_succ_cons (drop_succ_cons hd)
  simp only [List.length_cons] at hl
  rw [blankLineAt]
  cases t with
  | nil =>
    rw [List.length_nil] at hl
    rw [if_neg (by omega)]
    rfl
  | cons a t =>
    cases t with
    | nil =>
      rw [List.length_singleton] at hl
      rw [if_neg (by omega)]
      simp
    | cons b t =>
      rw [List.length_cons,List.length_cons] at hl
      rw [if_pos (by omega),crlfAt_drop hd2]
      simp

/-- Where the loop stops. -/
def Scan.Stops (s : Scan) (length bodyStart start : Nat) : Prop :=
  if s.blank then bodyStart=start+s.last.length+4
  else bodyStart=0 ∧ start+s.last.length=length

/-- How much is copied then. -/
def Scan.copied (s : Scan) : Nat := if s.blank then s.last.length else s.last.length-4

theorem Scan.Stops.copied {s : Scan} {length bodyStart start e : Nat}
    (h : s.Stops length bodyStart start) (he : (if bodyStart=0 then length else bodyStart)=e) :
    (if e>start+4 then e-start-4 else 0)=s.copied ∧ start+s.copied ≤ e ∧
      (e=length ∨ start+4 ≤ e) := by
  rw [Scan.Stops] at h
  rw [Scan.copied]
  cases hb : s.blank with
  | true =>
    rw [hb,if_pos rfl] at h
    rw [if_neg (by omega)] at he
    rw [if_pos rfl]
    subst he
    refine ⟨?_,by omega,Or.inr (by omega)⟩
    split <;> omega
  | false =>
    rw [hb,if_neg Bool.false_ne_true] at h
    rw [if_pos h.1] at he
    rw [if_neg Bool.false_ne_true]
    subst he
    refine ⟨?_,by omega,Or.inl rfl⟩
    split <;> omega

/-- A turn that finds no line break. -/
theorem headerLoop_move {pos start : Nat} {c : UInt8} {t : List UInt8} (hd : raw.drop pos=c::t)
    (hc : ¬(c=cr ∧ t.head?=some lf)) (r : HttpRequest) :
    headerLoop raw raw.length (raw.length-1-pos) pos start r=
      headerLoop raw raw.length (raw.length-1-(pos+1)) (pos+1) start r := by
  have hl := length_drop_eq hd (by simp)
  cases t with
  | nil =>
    rw [List.length_singleton] at hl
    have hlast : raw.length-1-pos=0 := by omega
    have hnone : raw.length-1-(pos+1)=0 := by omega
    rw [hlast,hnone]
    rfl
  | cons d t =>
    simp only [List.length_cons] at hl
    have hcd : ¬(c=cr ∧ d=lf) := by simpa using hc
    have hn : raw.length-1-pos=raw.length-1-(pos+1)+1 := by omega
    rw [hn,headerLoop,crlfAt_drop hd,decide_eq_false hcd]
    rfl

/-- No turn is left for the last byte. -/
theorem headerLoop_end {n : Nat} (hd : raw.drop start=t) (hle : start ≤ raw.length)
    (hn : t.length ≤ n+1) (r : HttpRequest) :
    headerLoop raw raw.length (raw.length-1-(start+n)) (start+n) start r=some (0,start,r) ∧
      start+t.length=raw.length := by
  have hl := congrArg List.length hd
  rw [List.length_drop] at hl
  have hnone : raw.length-1-(start+n)=0 := by omega
  rw [hnone]
  exact ⟨rfl,by omega⟩

/-- A turn that finds the end of a line, and the one on the LF. -/
theorem headerLoop_line (hd : raw.drop start=acc++cr::lf::t) (hs : NoCrlf acc)
    (hblank : ¬t.take 2=[cr,lf]) (r : HttpRequest) :
    headerLoop raw raw.length (raw.length-1-(start+acc.length)) (start+acc.length) start r=
      headerLoop raw raw.length (raw.length-1-(start+acc.length+2)) (start+acc.length+2)
        (start+acc.length+2) (r.read acc) := by
  have hd0 : raw.drop (start+acc.length)=cr::lf::t := by
    rw [← List.drop_drop,hd,List.drop_left]
  have hl := length_drop_eq hd0 (by simp)
  simp only [List.length_cons] at hl
  have hb : blankLineAt raw raw.length (start+acc.length)=some false := by
    rw [blankLineAt_take hd0,decide_eq_false hblank]
  have hfirst : raw.length-1-(start+acc.length)=raw.length-1-(start+acc.length+1)+1 := by omega
  have hlf : ¬(lf=cr ∧ t.head?=some lf) := fun h => absurd h.1 (by decide)
  rw [hfirst,headerLoop,crlfAt_drop hd0]
  simp only [and_self,decide_true,Option.bind_eq_bind,Option.bind_some,if_true,hb,
    Bool.false_eq_true,if_false,parseHeaderLines_acc hs hd]
  exact headerLoop_move (drop_succ_cons hd0) hlf _

/-- The loop over any text, from the line that it is in. -/
theorem headerLoop_scan (acc t : List UInt8) : ∀ {start : Nat} (r : HttpRequest),
    raw.drop start=acc++t → start ≤ raw.length → NoCrlf (acc++t.take 1) →
    ∃ bodyStart start',headerLoop raw raw.length (raw.length-1-(start+acc.length))
        (start+acc.length) start r=some (bodyStart,start',r.readAll (scan acc t).lines) ∧
      (scan acc t).Stops raw.length bodyStart start' := by
  induction acc,t using scan.induct with
  | case1 acc =>
    intro start r hd hle _
    rw [List.append_nil] at hd
    obtain ⟨hloop,hlen⟩ := headerLoop_end hd hle (Nat.le_succ _) r
    exact ⟨0,start,hloop,rfl,hlen⟩
  | case2 acc c =>
    intro start r hd hle _
    obtain ⟨hloop,hlen⟩ := headerLoop_end hd hle (List.length_append ..).le r
    exact ⟨0,start,hloop,rfl,hlen⟩
  | case3 acc c d t hcd hblank =>
    intro start r hd _ _
    obtain ⟨rfl,rfl⟩ := hcd
    have hd0 : raw.drop (start+acc.length)=cr::lf::cr::lf::t.drop 2 := by
      rw [← List.drop_drop,hd,List.drop_left]
      have ht := List.take_append_drop 2 t
      rw [hblank] at ht
      rw [← ht]
      rfl
    have hscan : scan acc (cr::lf::t)=⟨[],acc,true⟩ := by
      rw [scan,if_pos ⟨rfl,rfl⟩,if_pos hblank]
    rw [hscan]
    exact ⟨start+acc.length+4,start,headerLoop_blank hd0 start r,rfl⟩
  | case4 acc c d t hcd hblank ih =>
    intro start r hd hle hs
    obtain ⟨rfl,rfl⟩ := hcd
    have hd2 : raw.drop (start+acc.length+2)=t := by
      rw [Nat.add_assoc,← List.drop_drop,hd,← List.drop_drop,List.drop_left]
      rfl
    have hacc : NoCrlf acc := fun hi => hs (hi.trans (List.infix_append' [] acc _))
    have hfit : start+acc.length+2 ≤ raw.length := by
      have hl := congrArg List.length hd
      simp only [List.length_drop,List.length_append,List.length_cons] at hl
      omega
    have hhead : NoCrlf ([]++t.take 1) := by
      cases t with
      | nil => exact noCrlf_nil
      | cons a t => exact noCrlf_single a
    have hscan : scan acc (cr::lf::t)={scan [] t with lines := acc::(scan [] t).lines} := by
      rw [scan,if_pos ⟨rfl,rfl⟩,if_neg hblank]
    obtain ⟨bodyStart,start',hloop,hstops⟩ := ih (r.read acc) hd2 hfit hhead
    rw [hscan]
    exact ⟨bodyStart,start',(headerLoop_line hd hacc hblank r).trans hloop,hstops⟩
  | case5 acc c d t hcd ih =>
    intro start r hd hle hs
    have hd0 : raw.drop (start+acc.length)=c::d::t := by
      rw [← List.drop_drop,hd,List.drop_left]
    have hscan : scan acc (c::d::t)=scan (acc++[c]) (d::t) := by rw [scan,if_neg hcd]
    have hs' : NoCrlf (acc++[c]) := hs
    obtain ⟨bodyStart,start',hloop,hstops⟩ := ih r (by simpa using hd) hle (hs'.concat hcd)
    rw [List.length_append,List.length_singleton,← Nat.add_assoc] at hloop
    rw [hscan]
    have hmove : ¬(c=cr ∧ (d::t).head?=some lf) := by simpa using hcd
    exact ⟨bodyStart,start',(headerLoop_move hd0 hmove r).trans hloop,hstops⟩

def eol (c : UInt8) : Bool := c=cr ∨ c=lf

theorem remainingHeaders_eols {u : List UInt8} (h0 : 0∈u) (r : HttpRequest) :
    ∃ n,eolSpan u=some n ∧ remainingHeaders u r=remainingHeaders (u.drop n) r := by
  obtain ⟨n,hn,-⟩ := eolSpan_isSome h0
  refine ⟨n,hn,?_⟩
  cases u with
  | nil => simp at h0
  | cons c u =>
    by_cases hc : c=cr ∨ c=lf
    · have hc0 : c≠0 := by
        rintro rfl
        exact absurd hc (by decide)
      have hline : lineSpan (c::u)=some 0 := by rw [lineSpan,if_pos (Or.inr hc)]
      exact remainingHeaders_cons hc0 hline rfl hn
    · rw [eolSpan,if_neg hc] at hn
      rw [← Option.some.inj hn,List.drop_zero]

/-- The second pass goes over a line and the line end behind it. -/
theorem remainingHeaders_step {c : UInt8} {u : List UInt8} (hc : eol c=true)
    (hs : ∀ c∈acc,c≠0 ∧ eol c=false) (h0 : 0∈u) (r : HttpRequest) :
    remainingHeaders (acc++c::u) r=remainingHeaders u (r.read acc) := by
  have he : c=cr ∨ c=lf := of_decide_eq_true hc
  obtain ⟨n,hn,hskip⟩ := remainingHeaders_eols h0 (r.read acc)
  have hspan : eolSpan (c::u)=some (n+1) := by
    rw [eolSpan,if_pos he,hn]
    rfl
  rw [hskip]
  cases acc with
  | nil =>
    obtain ⟨k,hk,hc⟩ := remainingHeaders_eols (List.mem_cons_of_mem c h0) r
    rw [hspan,Option.some.injEq] at hk
    rw [← hk] at hc
    rw [read_nil]
    exact hc
  | cons a acc =>
    have hplain : ∀ d∈a::acc,d≠0 ∧ d≠cr ∧ d≠lf := by
      intro d hd
      have hno : ¬(d=cr ∨ d=lf) := of_decide_eq_false (hs d hd).2
      exact ⟨(hs d hd).1,not_or.mp hno⟩
    have hline := lineSpan_append (Or.inr he) hplain u
    have hread := parseHeader_read (Or.inr he) (a::acc) u r
    have hstep := @remainingHeaders_cons a (acc++c::u) (a::acc).length (n+1) r (r.read (a::acc))
      (hplain a (by simp)).1 hline (by rw [if_pos (by simp)]; exact hread) (by
        rw [← List.cons_append,List.drop_left]
        exact hspan)
    rw [← List.cons_append,List.drop_left] at hstep
    exact hstep

/-- The second pass over any text. -/
theorem remainingHeaders_split (s acc x : List UInt8) (hacc : ∀ c∈acc,c≠0 ∧ eol c=false)
    (h0 : 0∉s) (r : HttpRequest) :
    remainingHeaders (acc.reverse++(s++0::x)) r=
      some (r.readAll (s.splitOnPPrepend eol acc)) := by
  induction s generalizing acc r with
  | nil =>
    have hnul : remainingHeaders (acc.reverse++0::x) r=
        remainingHeaders (0::x) (r.read acc.reverse) := by
      by_cases hne : acc.reverse=[]
      · rw [hne,read_nil]
        rfl
      · have hplain : ∀ d∈acc.reverse,d≠0 ∧ d≠cr ∧ d≠lf := by
          intro d hd
          have hd' := hacc d (List.mem_reverse.mp hd)
          have hno : ¬(d=cr ∨ d=lf) := of_decide_eq_false hd'.2
          exact ⟨hd'.1,not_or.mp hno⟩
        exact remainingHeaders_line (s := []) hne hplain (by simp) (by decide) (fun _ => rfl) x r
    rw [List.nil_append,hnul,remainingHeaders_nul]
    rfl
  | cons c s ih =>
    rw [List.mem_cons,not_or] at h0
    cases hc : eol c with
    | true =>
      rw [List.splitOnPPrepend_cons_pos hc,List.cons_append,
        remainingHeaders_step hc (by simpa using hacc) (by simp)]
      exact ih [] (by simp) h0.2 _
    | false =>
      rw [List.splitOnPPrepend_cons_neg hc]
      have hih := ih (c::acc) (by simpa using ⟨⟨Ne.symm h0.1,hc⟩,hacc⟩) h0.2 r
      rw [List.reverse_cons,List.append_assoc] at hih
      exact hih

theorem remainingHeaders_text (s x : List UInt8) (h0 : 0∉s) (r : HttpRequest) :
    remainingHeaders (s++0::x) r=some (r.readAll (s.splitOnP eol)) :=
  remainingHeaders_split s [] x (by simp) h0 r

/-- The lines that are read with no header lines in front of the body. -/
def bareLines (b : List UInt8) : List (List UInt8) :=
  (scan [] (cr::lf::b)).lines++
    (cut ((cr::lf::b).take (min (scan [] (cr::lf::b)).copied 1023))).splitOnP eol

theorem copyBody_rest {length bodyStart : Nat} {r' : HttpRequest} (hr : r.bodyLength=0)
    (h : copyBody raw length bodyStart r=some r') : r'.contentLength=r.contentLength ∧
      r'.bodyLength ≤ min (length-bodyStart) (httpRequestBodySize-1) := by
  rw [copyBody] at h
  split_ifs at h with hlt
  · obtain ⟨f,-,h⟩ := Option.bind_eq_some_iff.mp h
    obtain rfl := Option.some.inj h
    refine ⟨rfl,Nat.le_min.mpr ⟨Nat.le_trans (Nat.min_le_left _ _) ?_,Nat.min_le_right _ _⟩⟩
    split <;> omega
  · obtain rfl := Option.some.inj h
    exact ⟨rfl,by omega⟩

/-- The blank line is missed: at least two bytes of the body go with it, and what is in front of
a blank line there is read as header lines. -/
theorem parse_bare (m : Message) (hnil : m.headers=[])
    (hlen : m.text.length ≤ httpRequestBodySize+4096) :
    ∃ r,httpParseRequest m.text m.text.length=some (some r) ∧
      r.contentLength=lengthAfter 0 (bareLines m.body) ∧ r.bodyLength ≤ m.body.length-2 := by
  obtain ⟨mt,p,v,hparse⟩ := httpParseRequest_passes m hlen
  let r₀ : HttpRequest := {HttpRequest.init with method := mt,path := p,version := v}
  have hl := m.text_length
  have hd : m.text.drop (m.line.length+2)=cr::lf::m.body := by
    rw [m.drop_line,hnil]
    rfl
  have hnone : (headerText m.headers).length=0 := by
    rw [hnil]
    rfl
  rw [hnone] at hl
  obtain ⟨bodyStart,start,hloop,hstops⟩ := headerLoop_scan [] (cr::lf::m.body) r₀ hd (by omega)
    (noCrlf_single cr)
  rw [List.length_nil,Nat.add_zero] at hloop
  have hspec := headerLoop_spec hloop (by omega)
  obtain ⟨e,he⟩ : ∃ e,(if bodyStart=0 then m.text.length else bodyStart)=e := ⟨_,rfl⟩
  have hread : bareLines m.body=(scan [] (cr::lf::m.body)).lines++
      (cut ((cr::lf::m.body).take (min (scan [] (cr::lf::m.body)).copied 1023))).splitOnP eol := rfl
  rw [hread]
  generalize scan [] (cr::lf::m.body)=q at hloop hstops ⊢
  obtain ⟨hk,hfit,hpast⟩ := hstops.copied he
  have hend : e ≤ m.text.length := by
    rw [← he]
    split
    · exact le_rfl
    · obtain h | ⟨i,hi,hlt,-⟩ := hspec.2 <;> omega
  have htext : min q.copied 1023 ≤ (cr::lf::m.body).length := by
    simp only [List.length_cons]
    omega
  obtain ⟨f,x,hcopy⟩ := copyHeaders_text hd hk htext (r₀.readAll q.lines)
  rw [remainingHeaders_text _ x (zero_not_mem_cut _)] at hcopy
  generalize (cut ((cr::lf::m.body).take (min q.copied 1023))).splitOnP eol=ls at hcopy ⊢
  have hzero : (HttpRequest.readAll {r₀.readAll q.lines with headers := f} ls).bodyLength=0 := by
    rw [(readAll_body _ ls).2]
    exact (readAll_body r₀ q.lines).2
  obtain ⟨r₃,hbody⟩ := Option.isSome_iff_exists.mp (@copyBody_isSome m.text m.text.length e le_rfl
    (HttpRequest.readAll {r₀.readAll q.lines with headers := f} ls))
  obtain ⟨hlength,hsize⟩ := copyBody_rest hzero hbody
  rw [← he] at hcopy hbody
  refine ⟨r₃,hparse hloop hcopy hbody (by omega),?_,by omega⟩
  rw [hlength,lengthAfter,List.foldl_append,readAll_eq,readAll_eq]
  rfl

end Cllm.Http
