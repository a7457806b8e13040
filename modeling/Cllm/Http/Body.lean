import Cllm.Http.Bare

namespace Cllm.Http

open Libc

/-- A blank or a tab. -/
def whitespace (c : UInt8) : Prop := c=blank ∨ c=9

/-- The number written in the line, behind "Content-Length:". -/
def Written (line : List UInt8) (n : Nat) : Prop :=
  ∃ s ds z,line.drop contentLengthName.length=s++(ds++z) ∧ (∀ c∈s,whitespace c) ∧
    (∀ c∈z,whitespace c) ∧ ds≠[] ∧ (∀ c∈ds,decimal c=true) ∧ decimalValue 0 ds=n

theorem whitespace_decimal {c : UInt8} (hc : whitespace c) : decimal c=false := by
  obtain rfl | rfl := hc <;> decide

theorem decimal_blank {c : UInt8} (hc : decimal c=true) : c≠blank := by
  rintro rfl
  exact absurd hc (by decide)

theorem takeWhile_digits {ds z : List UInt8} (hd : ∀ c∈ds,decimal c=true)
    (hz : ∀ c∈z,whitespace c) : (ds++z).takeWhile decimal=ds := by
  rw [List.takeWhile_append_of_pos hd]
  cases z with
  | nil => rw [List.takeWhile_nil,List.append_nil]
  | cons c z =>
    have hc := whitespace_decimal (hz c (List.mem_cons_self ..))
    rw [List.takeWhile_cons_of_neg (by simp [hc]),List.append_nil]

/-- A tab hides the number from the parser. -/
theorem lengthOf_written {line : List UInt8} {n : Nat} (h : Written line n) :
    lengthOf line=n ∨ lengthOf line=0 := by
  obtain ⟨s,ds,z,hline,hs,hz,hne,hd,hn⟩ := h
  rw [lengthOf,valueOf,hline]
  clear hline
  induction s with
  | nil =>
    obtain ⟨d,t,ht⟩ := List.exists_cons_of_ne_nil hne
    have hb : d≠blank := decimal_blank (hd d (by simp [ht]))
    have hdrop : (ds++z).dropWhile (fun c => c=blank)=ds++z := by
      rw [ht,List.cons_append,List.dropWhile_cons_of_neg (by simpa using hb)]
    rw [List.nil_append,hdrop,takeWhile_digits hd hz]
    exact Or.inl hn
  | cons c s ih =>
    rw [List.forall_mem_cons] at hs
    rw [List.cons_append]
    by_cases hc : c=blank
    · rw [List.dropWhile_cons_of_pos (by simpa using hc)]
      exact ih hs.2
    · rw [List.dropWhile_cons_of_neg (by simpa using hc),
        List.takeWhile_cons_of_neg (by simp [whitespace_decimal hs.1])]
      exact Or.inr rfl

/-- The copied header area ends in this line, or in this part of a line. -/
def cutLine (hs : List HeaderLine) : List UInt8 := (seen hs (copiedLength hs)).getLastD []

/-- The copy ends in one of the lines, and has all of those before it. -/
theorem seen_split (hs : List HeaderLine) (k : Nat) : hs≠[] →
    ∃ xs h ys line,hs=xs++h::ys ∧ seen hs k=xs.map Subtype.val++[line] ∧ line <+: h.1 := by
  induction hs generalizing k with
  | nil => exact fun h => absurd rfl h
  | cons h hs ih =>
    intro _
    rw [seen]
    split
    · exact ⟨[],h,hs,h.1.take k,rfl,rfl,List.take_prefix _ _⟩
    · by_cases hnil : hs=[]
      · subst hnil
        exact ⟨[],h,[],h.1,rfl,rfl,List.prefix_rfl⟩
      · obtain ⟨xs,g,ys,line,hsplit,hseen,hline⟩ := ih (k-h.1.length-2) hnil
        refine ⟨h::xs,g,ys,line,?_,?_,hline⟩
        · rw [hsplit]
          rfl
        · rw [hseen]
          rfl

theorem linesRead_split {hs : List HeaderLine} (hne : hs≠[]) :
    ∃ ls : List HeaderLine,linesRead hs=ls.map Subtype.val++[cutLine hs] ∧
      (∀ h,h∈ls ↔ h∈hs.dropLast) ∧ ∃ h∈hs,cutLine hs <+: h.1 := by
  obtain ⟨xs,h,ys,line,hsplit,hseen,hline⟩ := seen_split hs (copiedLength hs) hne
  have hcut : cutLine hs=line := by simp [cutLine,hseen]
  have hdrop : hs.dropLast=xs++(h::ys).dropLast := by
    rw [hsplit,List.dropLast_append_of_ne_nil (by simp)]
  refine ⟨hs.dropLast++xs,?_,?_,h,by simp [hsplit],by rwa [hcut]⟩
  · rw [linesRead,hseen,hcut,List.map_append,List.append_assoc]
  · intro g
    rw [hdrop,List.mem_append,List.mem_append]
    tauto

theorem lengthAfter_concat (n : Nat) (ls : List (List UInt8)) (line : List UInt8) :
    lengthAfter n (ls++[line])=(readLength line).getD (lengthAfter n ls) := List.foldl_append

theorem dropWhile_mono {p : UInt8 → Bool} {s t : List UInt8} (h : s <+: t) :
    s.dropWhile p <+: t.dropWhile p := by
  obtain ⟨u,rfl⟩ := h
  induction s with
  | nil => exact List.nil_prefix
  | cons c s ih =>
    rw [List.cons_append]
    by_cases hc : p c=true
    · rw [List.dropWhile_cons_of_pos hc,List.dropWhile_cons_of_pos hc]
      exact ih
    · rw [List.dropWhile_cons_of_neg hc,List.dropWhile_cons_of_neg hc]
      exact ⟨u,rfl⟩

theorem takeWhile_mono {p : UInt8 → Bool} {s t : List UInt8} (h : s <+: t) :
    s.takeWhile p <+: t.takeWhile p := by
  obtain ⟨u,rfl⟩ := h
  induction s with
  | nil => exact List.nil_prefix
  | cons c s ih =>
    rw [List.cons_append]
    by_cases hc : p c=true
    · rw [List.takeWhile_cons_of_pos hc,List.takeWhile_cons_of_pos hc]
      exact List.prefix_cons_inj c |>.mpr ih
    · rw [List.takeWhile_cons_of_neg hc]
      exact List.nil_prefix

theorem decimalValue_mono {s t : List UInt8} (h : s <+: t) :
    decimalValue 0 s ≤ decimalValue 0 t := by
  obtain ⟨u,rfl⟩ := h
  rw [decimalValue,decimalValue,List.foldl_append]
  exact le_decimalValue _ u

/-- A part of a line does not read more than the line. -/
theorem lengthOf_mono {line h : List UInt8} (hp : line <+: h) : lengthOf line ≤ lengthOf h :=
  decimalValue_mono (takeWhile_mono (dropWhile_mono (hp.drop _)))

theorem named_mono {name line h : List UInt8} (hp : line <+: h)
    (hn : named name line=true) : named name h=true := by
  have hlen := named_length hn
  obtain ⟨u,rfl⟩ := hp
  rw [named,List.take_append_of_le_length hlen]
  exact hn

/-- The length is read again from a line that is cut off in the digits. -/
def CutShort (m : Message) : Prop :=
  named contentLengthName (cutLine m.headers)=true ∧ 0 < lengthOf (cutLine m.headers) ∧
    lengthOf (cutLine m.headers) < m.body.length

section Length

variable {m : Message}

theorem lengthAfter_lines {ls : List (List UInt8)} {n : Nat} (hn : n < 2^32)
    (h : ∀ l∈ls,named contentLengthName l=true → Written l n) :
    lengthAfter 0 ls=n ∨ lengthAfter 0 ls=0 := by
  induction ls using List.reverseRecOn with
  | nil => exact Or.inr rfl
  | append_singleton ls l ih =>
    have hls := ih fun l' hl' => h l' (List.mem_append_left _ hl')
    rw [lengthAfter_concat,readLength]
    by_cases hl : named contentLengthName l=true
    · rw [if_pos hl,Option.getD_some]
      obtain hw | hw := lengthOf_written (h l (by simp) hl)
      · exact Or.inl (by rw [hw,Nat.mod_eq_of_lt hn])
      · exact Or.inr (by rw [hw,Nat.zero_mod])
    · rw [if_neg hl]
      exact hls

theorem lengthAfter_short (hne : m.headers≠[]) (hb : m.body.length < 2^32)
    (hcl : ∀ h∈m.headers,named contentLengthName h.1=true → Written h.1 m.body.length) :
    (0 < lengthAfter 0 (linesRead m.headers) ∧
      lengthAfter 0 (linesRead m.headers) < m.body.length) ↔ CutShort m := by
  obtain ⟨ls,hread,hls,h,hh,hp⟩ := linesRead_split hne
  rw [hread,lengthAfter_concat,readLength]
  by_cases hcut : named contentLengthName (cutLine m.headers)=true
  · have hwritten := lengthOf_written (hcl h hh (named_mono hp hcut))
    have hle := lengthOf_mono hp
    have hlt : lengthOf (cutLine m.headers) < 2^32 := by omega
    rw [if_pos hcut,Option.getD_some,Nat.mod_eq_of_lt hlt]
    exact ⟨fun h => ⟨hcut,h⟩,fun h => h.2⟩
  · have hall : ∀ l∈ls.map Subtype.val,named contentLengthName l=true →
        Written l m.body.length := by
      intro l hl hn
      obtain ⟨g,hg,rfl⟩ := List.mem_map.mp hl
      exact hcl g (List.mem_of_mem_dropLast ((hls g).mp hg)) hn
    have hlines := lengthAfter_lines hb hall
    rw [if_neg hcut,Option.getD_none]
    constructor
    · intro h
      omega
    · exact fun h => absurd h.1 hcut

end Length

theorem bodySize_whole {n : Nat} {b : List UInt8} (hb : b.length ≤ httpRequestBodySize-1) :
    bodySize n b=b.length ↔ ¬(0 < n ∧ n < b.length) := by
  rw [bodySize]
  split <;> omega

/-- No byte behind a NUL, other than NULs. -/
def Textual (b : List UInt8) : Prop := ∃ s n,b=s++List.replicate n 0 ∧ 0∉s

theorem strncpy_textual (b : List UInt8) : strncpy b b.length=some b ↔ Textual b := by
  rw [strncpy_cut le_rfl,List.take_length,Option.some.injEq]
  constructor
  · intro h
    exact ⟨cut b,b.length-(cut b).length,h.symm,zero_not_mem_cut b⟩
  · rintro ⟨s,n,rfl,hs⟩
    have hcut : cut (s++List.replicate n 0)=s := by
      cases n with
      | zero => rw [List.replicate_zero,List.append_nil,cut_of_not_mem hs]
      | succ n => rw [List.replicate_succ,cut_terminated hs]
    rw [hcut]
    simp

/-- The request is accepted, and its body comes out as it was sent. -/
def BodyWhole (m : Message) : Prop :=
  ∃ r,httpParseRequest m.text m.text.length=some (some r) ∧ r.bodyLength=m.body.length ∧
    r.body.bytes.take r.bodyLength=m.body

/-- When the body comes out as it was sent: there is none, or there are header lines, nothing but
NULs stands behind a NUL, and no Content-Length is read from a line that is cut off. -/
theorem body_whole (m : Message) (hlen : m.text.length ≤ httpRequestBodySize+4096)
    (hb : m.body.length ≤ httpRequestBodySize-1)
    (hcl : ∀ h∈m.headers,named contentLengthName h.1=true → Written h.1 m.body.length) :
    BodyWhole m ↔ m.body=[] ∨ m.headers≠[] ∧ Textual m.body ∧ ¬CutShort m := by
  by_cases hne : m.headers=[]
  · obtain ⟨r,hr,-,hsize⟩ := parse_bare m hne hlen
    constructor
    · rintro ⟨r',hr',hlength,-⟩
      obtain rfl : r=r' := Option.some.inj (Option.some.inj (hr.symm.trans hr'))
      left
      apply List.eq_nil_of_length_eq_zero
      omega
    · rintro (hnil | ⟨h,-⟩)
      · have hzero : r.bodyLength=0 := by simpa [hnil] using hsize
        refine ⟨r,hr,?_,?_⟩ <;> simp [hzero,hnil]
      · exact absurd hne h
  · obtain ⟨r,hr,hn,-,hsize,hbytes⟩ := parse_message m hne hlen
    have hshort := lengthAfter_short hne (Nat.lt_of_le_of_lt hb (by decide)) hcl
    have hwhole := bodySize_whole (n := r.contentLength) hb
    rw [← hn] at hshort
    rw [hshort,← hsize] at hwhole
    have htake : r.body.bytes.take r.bodyLength=r.body.bytes := by
      rw [← strncpy_length hbytes,List.take_length]
    have hmeets : BodyWhole m ↔ ¬CutShort m ∧ Textual m.body := by
      constructor
      · rintro ⟨r',hr',hlength,hbody⟩
        obtain rfl : r=r' := Option.some.inj (Option.some.inj (hr.symm.trans hr'))
        rw [htake] at hbody
        rw [hlength,hbody] at hbytes
        exact ⟨hwhole.mp hlength,(strncpy_textual _).mp hbytes⟩
      · rintro ⟨hcut,htext⟩
        have hlength := hwhole.mpr hcut
        have hcopy := (strncpy_textual _).mpr htext
        rw [hlength,hcopy] at hbytes
        exact ⟨r,hr,hlength,by rw [htake,← Option.some.inj hbytes]⟩
    rw [hmeets]
    constructor
    · rintro ⟨hcut,htext⟩
      exact Or.inr ⟨hne,htext,hcut⟩
    · rintro (hnil | ⟨-,htext,hcut⟩)
      · refine ⟨?_,⟨[],0,by simpa using hnil,by simp⟩⟩
        intro hcut
        have := hcut.2.2
        rw [hnil] at this
        exact absurd this (Nat.not_lt_zero _)
      · exact ⟨hcut,htext⟩

/-- POST / HTTP/1.1 -/
def post (headers : List HeaderLine) (body : List UInt8) : Message where
  line := cstr "POST / HTTP/1.1"
  headers := headers
  body := body
  short := by decide
  noCrlf := by
    rw [NoCrlf]
    decide
  accepted := by
    refine ⟨cstr "POST / HTTP/1.1",{HttpRequest.init with
      method := ⟨cstr "POST",by decide⟩,path := ⟨cstr "/",by decide +kernel⟩,
      version := ⟨cstr "HTTP/1.1",by decide⟩},?_,?_⟩ <;> decide +kernel

theorem lengthThree_plain : cstr "Content-Length: 3"≠[] ∧
    ∀ c∈cstr "Content-Length: 3",c≠cr ∧ c≠lf := by decide +kernel

/-- Three bytes, and the header line that says so. -/
def postThree : Message := post [⟨cstr "Content-Length: 3",lengthThree_plain⟩] [97,98,99]

theorem body_whole_three : postThree.text.length ≤ httpRequestBodySize+4096 ∧
    BodyWhole postThree := by
  have hshort : ¬CutShort postThree := by
    rintro ⟨-,-,h⟩
    exact absurd h (by decide)
  have hlen : postThree.text.length ≤ httpRequestBodySize+4096 := by decide
  refine ⟨hlen,(body_whole _ hlen (by decide) ?_).mpr
    (Or.inr ⟨by simp [postThree,post],?_,hshort⟩)⟩
  · intro h hh _
    obtain rfl := List.mem_singleton.mp hh
    exact ⟨[blank],[51],[],by decide,by simp [whitespace],by simp,by simp,
      by decide +kernel,by decide +kernel⟩
  · exact ⟨[97,98,99],0,rfl,by decide⟩

/-- Twelve bytes are sent; the header line behind the Content-Length has seventeen bytes, and the
first seventeen bytes of the header area end between the digits. -/
theorem body_cut_short : ¬∀ m : Message,m.text.length ≤ httpRequestBodySize+4096 →
    m.body.length ≤ httpRequestBodySize-1 →
    (∀ h∈m.headers,named contentLengthName h.1=true → Written h.1 m.body.length) →
    BodyWhole m := by
  intro hall
  let hs : List HeaderLine :=
    [⟨cstr "Content-Length: 12",by decide +kernel⟩,⟨cstr "X-Request-Id: abc",by decide +kernel⟩]
  let m := post hs (cstr "\x7b\"text\":\"a\"\x7d")
  have hlen : m.text.length ≤ httpRequestBodySize+4096 := by decide
  obtain ⟨r,hr,hn,-,hsize,-⟩ := parse_message m (by simp [m,hs,post]) hlen
  have hone : lengthAfter 0 (linesRead m.headers)=1 := by decide
  obtain ⟨r',hr',hlength,-⟩ := hall m hlen (by decide) (by
    intro h hh hname
    obtain rfl | hh := List.mem_cons.mp hh
    · exact ⟨[blank],cstr "12",[],by decide,by simp [whitespace],by simp,
        by decide,by decide +kernel,by decide +kernel⟩
    · obtain rfl := List.mem_singleton.mp hh
      exact absurd hname (by decide))
  obtain rfl : r=r' := Option.some.inj (Option.some.inj (hr.symm.trans hr'))
  rw [hsize,hn,hone] at hlength
  exact absurd hlength (by decide)

end Cllm.Http
