import Cllm.Http.HeaderLine

namespace Cllm.Http

open Libc

/-- No CRLF inside. -/
def NoCrlf (s : List UInt8) : Prop := ¬[cr,lf] <:+: s

abbrev HeaderLine := {h : List UInt8 // h≠[] ∧ ∀ c∈h,c≠cr ∧ c≠lf}

/-- The header lines, each with its CRLF. -/
def headerText (hs : List HeaderLine) : List UInt8 := hs.flatMap fun h => h.1++[cr,lf]

/-- A request line within the parser's limits, header lines and a body. -/
structure Message where
  line : List UInt8
  headers : List HeaderLine
  body : List UInt8
  short : line.length < 256
  noCrlf : NoCrlf line
  accepted : ∃ s r,strncpy line line.length=some s ∧
    parseRequestLine (s++[0]) .init=some (some r)

def Message.text (m : Message) : List UInt8 :=
  m.line++cr::lf::(headerText m.headers++cr::lf::m.body)

variable {raw h x y : List UInt8} {pos start : Nat} {r : HttpRequest}

theorem NoCrlf.tail {c : UInt8} (hs : NoCrlf (c::h)) : NoCrlf h := by
  intro hi
  exact hs (hi.trans (List.infix_cons_iff.mpr (Or.inr List.infix_rfl)))

theorem HeaderLine.noCrlf (h : HeaderLine) : NoCrlf h.1 := by
  intro hi
  exact (h.2.2 cr (hi.subset (by simp))).1 rfl

theorem crlfAt_drop {c d : UInt8} (hd : raw.drop pos=c::d::x) :
    crlfAt raw pos=some (decide (c=cr ∧ d=lf)) := by
  have h0 : raw[pos]?=some c := by
    rw [← List.head?_drop,hd]
    rfl
  have h1 : raw[pos+1]?=some d := by
    rw [← List.head?_drop,← List.drop_drop,hd]
    rfl
  rw [crlfAt,h0]
  simp only [Option.bind_eq_bind,Option.bind_some,h1]
  split
  · next hc => simp [hc]
  · next hc => simp [hc]

theorem drop_succ_cons {c : UInt8} (hd : raw.drop pos=c::x) : raw.drop (pos+1)=x := by
  rw [← List.drop_drop,hd]
  rfl

/-- No CRLF at the first byte of a line. -/
theorem crlfAt_line {c : UInt8} (hs : NoCrlf (c::h)) (hd : raw.drop pos=c::(h++cr::lf::x)) :
    crlfAt raw pos=some false := by
  cases h with
  | nil =>
    have hcl : cr≠lf := by decide
    rw [crlfAt_drop hd]
    simp [hcl]
  | cons d h =>
    rw [crlfAt_drop hd]
    have hn : ¬(c=cr ∧ d=lf) := by
      rintro ⟨rfl,rfl⟩
      exact hs ⟨[],h,rfl⟩
    rw [decide_eq_false hn]

theorem findCrlf_line (hs : NoCrlf h) (hd : raw.drop pos=h++cr::lf::x) {n : Nat}
    (hn : h.length ≤ n) : findCrlf raw n pos=some h.length := by
  induction h generalizing pos n with
  | nil =>
    cases n with
    | zero => rfl
    | succ n =>
      have hc := crlfAt_drop hd
      rw [findCrlf,hc]
      simp
  | cons c h ih =>
    cases n with
    | zero => simp at hn
    | succ n =>
      rw [findCrlf,crlfAt_line hs hd]
      have hnext := ih hs.tail (drop_succ_cons hd) (Nat.le_of_succ_le_succ hn)
      simp [hnext]

theorem length_drop_eq (hd : raw.drop pos=x) (hx : x≠[]) : pos+x.length=raw.length := by
  have hl := congrArg List.length hd
  have hpos : 0 < x.length := List.length_pos_of_ne_nil hx
  rw [List.length_drop] at hl
  omega

/-- The scan goes over a line and changes nothing. -/
theorem headerLoop_skip (hs : NoCrlf h) (hd : raw.drop pos=h++cr::lf::x) (start : Nat)
    (r : HttpRequest) :
    headerLoop raw raw.length (raw.length-1-pos) pos start r=
      headerLoop raw raw.length (raw.length-1-(pos+h.length)) (pos+h.length) start r := by
  induction h generalizing pos with
  | nil => rfl
  | cons c h ih =>
    have hl := length_drop_eq hd (by simp)
    simp only [List.length_append,List.length_cons] at hl
    have hn : raw.length-1-pos=raw.length-1-(pos+1)+1 := by omega
    rw [hn,headerLoop,crlfAt_line hs hd]
    simp only [Option.bind_eq_bind,Option.bind_some,Bool.false_eq_true,if_false]
    rw [ih hs.tail (drop_succ_cons hd),List.length_cons]
    congr 1 <;> omega

theorem parseHeaderLines_line (hs : NoCrlf h) (hne : h≠[]) (hd : raw.drop start=h++cr::lf::x)
    (r : HttpRequest) : parseHeaderLines raw (start+h.length) start r=some (r.read h) := by
  have hpos : 0 < h.length := List.length_pos_of_ne_nil hne
  have hfind := findCrlf_line hs hd (n := start+h.length-start) (by omega)
  have hread : parseHeader (raw.drop start) r=some (r.read h) := by
    rw [hd]
    exact parseHeader_read (Or.inr (Or.inl rfl)) h _ r
  rw [parseHeaderLines_lt (by omega) hfind (by rw [if_pos hpos]; exact hread),parseHeaderLines,
    if_neg (by omega)]

/-- A CRLF in front of the blank line. -/
theorem headerLoop_blank (hd : raw.drop pos=cr::lf::cr::lf::x) (start : Nat) (r : HttpRequest) :
    headerLoop raw raw.length (raw.length-1-pos) pos start r=some (pos+4,start,r) := by
  have hl := length_drop_eq hd (by simp)
  simp only [List.length_cons] at hl
  have hn : raw.length-1-pos=raw.length-1-(pos+1)+1 := by omega
  have hd2 : raw.drop (pos+2)=cr::lf::x := drop_succ_cons (drop_succ_cons hd)
  have hblank : blankLineAt raw raw.length pos=some true := by
    rw [blankLineAt,if_pos (by omega),crlfAt_drop hd2]
    rfl
  rw [hn,headerLoop,crlfAt_drop hd]
  simp [hblank]

/-- A CRLF with another line behind it: the line in front of it is read. -/
theorem headerLoop_next (hs : NoCrlf h) (hne : h≠[]) (hd : raw.drop pos=h++cr::lf::y)
    {c : UInt8} (hy : y=c::x) (hc : c≠cr) (r : HttpRequest) :
    headerLoop raw raw.length (raw.length-1-(pos+h.length)) (pos+h.length) pos r=
      headerLoop raw raw.length (raw.length-1-(pos+h.length+2)) (pos+h.length+2)
        (pos+h.length+2) (r.read h) := by
  subst hy
  have hl := length_drop_eq hd (by simp)
  simp only [List.length_append,List.length_cons] at hl
  have hd0 : raw.drop (pos+h.length)=cr::lf::c::x := by
    rw [← List.drop_drop,hd,List.drop_left]
  have hd1 : raw.drop (pos+h.length+1)=lf::c::x := drop_succ_cons hd0
  have hd2 : raw.drop (pos+h.length+2)=c::x := drop_succ_cons hd1
  have hblank : blankLineAt raw raw.length (pos+h.length)=some false := by
    rw [blankLineAt]
    split
    · next h4 =>
      cases x with
      | nil =>
        simp only [List.length_nil] at hl
        omega
      | cons d x =>
        rw [crlfAt_drop hd2]
        simp [hc]
    · rfl
  have hn : raw.length-1-(pos+h.length)=raw.length-1-(pos+h.length+2)+1+1 := by omega
  rw [hn,headerLoop,crlfAt_drop hd0]
  simp only [and_self,decide_true,Option.bind_eq_bind,Option.bind_some,if_true,hblank,
    Bool.false_eq_true,if_false,parseHeaderLines_line hs hne hd]
  have hlc : ¬(lf=cr ∧ c=lf) := by
    intro h
    exact absurd h.1 (by decide)
  rw [headerLoop,crlfAt_drop hd1,decide_eq_false hlc]
  rfl

def HttpRequest.readLines (r : HttpRequest) (hs : List HeaderLine) : HttpRequest :=
  r.readAll (hs.map Subtype.val)

/-- The first pass reads every header line but the last. -/
theorem headerLoop_headers (hs : List HeaderLine) (h : HeaderLine) {b : List UInt8}
    (hd : raw.drop pos=headerText (h::hs)++cr::lf::b) (r : HttpRequest) :
    ∃ start,headerLoop raw raw.length (raw.length-1-pos) pos pos r=
        some (raw.length-b.length,start,r.readLines (h::hs).dropLast) ∧
      start+((h::hs).getLast (by simp)).1.length+4=raw.length-b.length := by
  induction hs generalizing h pos r with
  | nil =>
    have hd' : raw.drop pos=h.1++cr::lf::cr::lf::b := by simpa [headerText] using hd
    have hd0 : raw.drop (pos+h.1.length)=cr::lf::cr::lf::b := by
      rw [← List.drop_drop,hd',List.drop_left]
    have hl := length_drop_eq hd0 (by simp)
    simp only [List.length_cons] at hl
    have hb : raw.length-b.length=pos+h.1.length+4 := by omega
    refine ⟨pos,?_,?_⟩
    · rw [headerLoop_skip h.noCrlf hd',headerLoop_blank hd0,hb]
      rfl
    · rw [List.getLast_singleton,hb]
  | cons h' hs ih =>
    obtain ⟨c,t,hc⟩ := List.exists_cons_of_ne_nil h'.2.1
    have hcr : c≠cr := (h'.2.2 c (by rw [hc]; simp)).1
    have hd' : raw.drop pos=h.1++cr::lf::(headerText (h'::hs)++cr::lf::b) := by
      simpa [headerText] using hd
    have hy : headerText (h'::hs)++cr::lf::b=
        c::(t++[cr,lf]++headerText hs++cr::lf::b) := by
      simp [headerText,hc]
    have hd2 : raw.drop (pos+h.1.length+2)=headerText (h'::hs)++cr::lf::b := by
      rw [← List.drop_drop,← List.drop_drop,hd',List.drop_left]
      rfl
    obtain ⟨start,hloop,hstart⟩ := ih h' hd2 (r.read h.1)
    refine ⟨start,?_,hstart⟩
    rw [headerLoop_skip h.noCrlf hd',headerLoop_next h.noCrlf h.2.1 hd' hy hcr,hloop]
    rfl

/-- What of the lines stands in the first `k` bytes of their text. -/
def seen : List HeaderLine → Nat → List (List UInt8)
  | [],_ => []
  | h::hs,k => if k ≤ h.1.length then [h.1.take k] else h.1::seen hs (k-h.1.length-2)

theorem lineSpan_append {e : UInt8} (he : LineEnd e) (hs : ∀ c∈h,c≠0 ∧ c≠cr ∧ c≠lf)
    (x : List UInt8) : lineSpan (h++e::x)=some h.length := by
  induction h with
  | nil => rw [List.nil_append,lineSpan,if_pos he]; rfl
  | cons c h ih =>
    rw [List.forall_mem_cons] at hs
    have hc : ¬LineEnd c := by
      intro hc
      obtain hc | hc | hc := hc
      · exact hs.1.1 hc
      · exact hs.1.2.1 hc
      · exact hs.1.2.2 hc
    rw [List.cons_append,lineSpan,if_neg hc,ih hs.2]
    rfl

theorem eolSpan_append {s : List UInt8} {c : UInt8} (hs : ∀ e∈s,e=cr ∨ e=lf)
    (hc : ¬(c=cr ∨ c=lf)) (x : List UInt8) : eolSpan (s++c::x)=some s.length := by
  induction s with
  | nil =>
    rw [List.nil_append,eolSpan,if_neg hc]
    rfl
  | cons e s ih =>
    rw [List.forall_mem_cons] at hs
    rw [List.cons_append,eolSpan,if_pos hs.1,ih hs.2]
    rfl

/-- The second pass over one line and the line ends behind it. -/
theorem remainingHeaders_line {s : List UInt8} {c : UInt8} (hne : h≠[])
    (hh : ∀ c∈h,c≠0 ∧ c≠cr ∧ c≠lf) (hs : ∀ e∈s,e=cr ∨ e=lf) (hc : ¬(c=cr ∨ c=lf))
    (hend : s=[] → c=0) (x : List UInt8) (r : HttpRequest) :
    remainingHeaders (h++(s++c::x)) r=remainingHeaders (c::x) (r.read h) := by
  obtain ⟨e,y,hy,he⟩ : ∃ e y,s++c::x=e::y ∧ LineEnd e := by
    cases s with
    | nil => exact ⟨c,x,rfl,Or.inl (hend rfl)⟩
    | cons e s => exact ⟨e,s++c::x,rfl,Or.inr (hs e (List.mem_cons_self ..))⟩
  have hspan : lineSpan (h++(s++c::x))=some h.length := by
    rw [hy]
    exact lineSpan_append he hh y
  have hread : parseHeader (h++(s++c::x)) r=some (r.read h) := by
    rw [hy]
    exact parseHeader_read he h y r
  have heol : eolSpan ((h++(s++c::x)).drop h.length)=some s.length := by
    rw [List.drop_left]
    exact eolSpan_append hs hc x
  obtain ⟨d,t,ht⟩ := List.exists_cons_of_ne_nil hne
  have hd0 : d≠0 := (hh d (by rw [ht]; simp)).1
  have hpos : 0 < h.length := List.length_pos_of_ne_nil hne
  have hstep := @remainingHeaders_cons d (t++(s++c::x)) h.length s.length r (r.read h) hd0
  rw [← List.cons_append,← ht] at hstep
  rw [hstep hspan (by rw [if_pos hpos]; exact hread) heol,List.drop_left,List.drop_left]

theorem remainingHeaders_nul (x : List UInt8) (r : HttpRequest) :
    remainingHeaders (0::x) r=some r := by
  rw [remainingHeaders]
  simp

theorem headerText_cons (h : HeaderLine) (hs : List HeaderLine) :
    headerText (h::hs)=h.1++(cr::lf::headerText hs) := by simp [headerText]

/-- No line starts with a CR or an LF. -/
theorem headerText_head (hs : List HeaderLine) (k : Nat) (x : List UInt8) :
    ∃ c y,(headerText hs).take k++0::x=c::y ∧ ¬(c=cr ∨ c=lf) := by
  have hz : ¬((0 : UInt8)=cr ∨ (0 : UInt8)=lf) := by decide
  cases hs with
  | nil => exact ⟨0,x,by simp [headerText],hz⟩
  | cons h hs =>
    cases k with
    | zero => exact ⟨0,x,rfl,hz⟩
    | succ k =>
      obtain ⟨c,t,hc⟩ := List.exists_cons_of_ne_nil h.2.1
      have hplain := h.2.2 c (by rw [hc]; simp)
      rw [headerText_cons,hc,List.cons_append,List.take_succ_cons,List.cons_append]
      exact ⟨c,_,rfl,fun he => he.elim hplain.1 hplain.2⟩

/-- Where the first `k` bytes of the header lines go on behind the first one. -/
theorem take_headerText {h : HeaderLine} {hs : List HeaderLine} {k : Nat}
    (hk : h.1.length < k) : (headerText (h::hs)).take k=
      h.1++([cr,lf].take (k-h.1.length)++(headerText hs).take (k-h.1.length-2)) := by
  have hsplit : headerText (h::hs)=h.1++([cr,lf]++headerText hs) := headerText_cons h hs
  rw [hsplit,List.take_append,List.take_of_length_le hk.le,List.take_append]
  rfl

/-- The second pass over a prefix of the header lines. -/
theorem remainingHeaders_seen (hs : List HeaderLine) {k : Nat}
    (h0 : 0∉(headerText hs).take k) (x : List UInt8) (r : HttpRequest) :
    remainingHeaders ((headerText hs).take k++0::x) r=some (r.readAll (seen hs k)) := by
  induction hs generalizing k r with
  | nil => simpa [headerText,seen,HttpRequest.readAll] using remainingHeaders_nul x r
  | cons h hs ih =>
    by_cases hk : k ≤ h.1.length
    · have htake : (headerText (h::hs)).take k=h.1.take k := by
        rw [headerText_cons,List.take_append_of_le_length hk]
      have hseen : seen (h::hs) k=[h.1.take k] := if_pos hk
      rw [htake] at h0 ⊢
      rw [hseen]
      by_cases hnil : h.1.take k=[]
      · rw [hnil]
        change remainingHeaders (0::x) r=some (r.read [])
        rw [remainingHeaders_nul,read_nil]
      · have hplain : ∀ c∈h.1.take k,c≠0 ∧ c≠cr ∧ c≠lf := by
          intro c hc
          refine ⟨?_,h.2.2 c (List.mem_of_mem_take hc)⟩
          rintro rfl
          exact h0 hc
        have hline := remainingHeaders_line (s := []) hnil hplain (by simp) (by decide)
          (fun _ => rfl) x r
        rw [List.nil_append] at hline
        rw [hline,remainingHeaders_nul]
        rfl
    · have hlt : h.1.length < k := Nat.lt_of_not_le hk
      have hseen : seen (h::hs) k=h.1::seen hs (k-h.1.length-2) := if_neg hk
      rw [take_headerText hlt] at h0 ⊢
      simp only [List.mem_append,not_or] at h0
      have hplain : ∀ c∈h.1,c≠0 ∧ c≠cr ∧ c≠lf := by
        intro c hc
        refine ⟨?_,h.2.2 c hc⟩
        rintro rfl
        exact h0.1 hc
      obtain ⟨c,y,hy,hc⟩ := headerText_head hs (k-h.1.length-2) x
      have heol : ∀ e∈[cr,lf].take (k-h.1.length),e=cr ∨ e=lf := by
        intro e he
        simpa using List.mem_of_mem_take he
      have hne : [cr,lf].take (k-h.1.length)≠[] := by
        rw [Ne,List.take_eq_nil_iff]
        simp
        omega
      rw [List.append_assoc,List.append_assoc,hy,remainingHeaders_line h.2.1 hplain heol hc
        (fun hn => absurd hn hne),← hy,ih h0.2.2,hseen]
      rfl

/-- The lines that http_parse_request reads, in this order: all but the last, and then what it
has copied of the header area, up to a NUL: as many bytes as the last line has, if there is room. -/
def copiedLength (hs : List HeaderLine) : Nat :=
  (cut ((headerText hs).take (min ((hs.map fun h => h.1.length).getLastD 0) 1023))).length

def linesRead (hs : List HeaderLine) : List (List UInt8) :=
  hs.dropLast.map Subtype.val++seen hs (copiedLength hs)

end Cllm.Http
