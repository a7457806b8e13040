import Cllm.Framework.Rfc8259

namespace Cllm.Rfc8259

/-- The place of a byte: outside the strings, in one, behind a backslash in one; or none, when a
byte in front of it has no place. -/
inductive Place where
  | outside | inside | escaped | broken
  deriving DecidableEq

/-- The bytes of blanks, numbers, the three words and the punctuation. -/
def Bare (c : UInt8) : Prop :=
  Blank c ∨ Digit c ∨ c∈[43,45,46,69,91,93,123,125,44,58] ∨ c∈nullText ∨ c∈boolText true ∨
    c∈boolText false

instance (c : UInt8) : Decidable (Bare c) := inferInstanceAs (Decidable (_ ∨ _))

def Place.next : Place → UInt8 → Place
  | .outside,c => if c=34 then .inside else if Bare c then .outside else .broken
  | .inside,c =>
    if c=34 then .outside else if c=92 then .escaped else if c < 32 then .broken else .inside
  | .escaped,c => if c < 32 then .broken else .inside
  | .broken,_ => .broken

def Place.after (p : Place) (s : List UInt8) : Place := s.foldl Place.next p

/-- A text that leaves the outside as it is. -/
def Closed (s : List UInt8) : Prop := Place.outside.after s=.outside

instance (s : List UInt8) : Decidable (Closed s) := inferInstanceAs (Decidable (_=_))

variable {s t : List UInt8} {c : UInt8}

@[simp] theorem Place.after_nil (p : Place) : p.after []=p := rfl

@[simp] theorem Place.after_cons (p : Place) (c : UInt8) (s : List UInt8) :
    p.after (c::s)=(p.next c).after s := rfl

theorem Place.after_append (p : Place) (s t : List UInt8) :
    p.after (s++t)=(p.after s).after t := List.foldl_append

theorem Place.after_broken (s : List UInt8) : Place.broken.after s=.broken := by
  induction s with
  | nil => rfl
  | cons c s ih => exact ih

theorem Closed.append (hs : Closed s) (ht : Closed t) : Closed (s++t) := by
  rw [Closed,Place.after_append,hs,ht]

/-- No place has a NUL. -/
theorem Place.zero_not_mem {p : Place} (h : p.after s≠.broken) : 0∉s := by
  induction s generalizing p with
  | nil => simp
  | cons c s ih =>
    rw [List.mem_cons,not_or]
    refine ⟨?_,ih h⟩
    rintro rfl
    have hnext : p.next 0=.broken := by cases p <;> decide
    rw [Place.after_cons,hnext,Place.after_broken] at h
    exact h rfl

theorem Closed.zero_not_mem (h : Closed s) : 0∉s := by
  apply Place.zero_not_mem (p := .outside)
  rw [h]
  decide

theorem bare_ne_quote (h : Bare c) : c≠34 := by
  rintro rfl
  exact absurd h (by decide)

theorem closed_of_bare (h : ∀ c∈s,Bare c) : Closed s := by
  induction s with
  | nil => rfl
  | cons c s ih =>
    rw [List.forall_mem_cons] at h
    have hc : Place.outside.next c=.outside := by
      rw [Place.next,if_neg (bare_ne_quote h.1),if_pos h.1]
    rw [Closed,Place.after_cons,hc]
    exact ih h.2

theorem closed_blanks (h : ∀ c∈s,Blank c) : Closed s := closed_of_bare fun c hc => Or.inl (h c hc)

theorem StringChar.after_text (k : StringChar) : Place.inside.after k.text=.inside := by
  cases k with
  | plain c h =>
    have hc : Place.inside.next c=.inside := by
      rw [Place.next,if_neg h.2.1,if_neg h.2.2,if_neg (UInt8.not_lt.mpr h.1)]
    exact hc
  | escape e => cases e <;> rfl
  | unicode d =>
    have hd : ∀ i,Place.inside.next (d i)=.inside := by
      intro i
      have h := (d i).2
      have h34 : (d i).1≠34 := by
        intro he
        rw [he] at h
        exact absurd h (by decide)
      have h92 : (d i).1≠92 := by
        intro he
        rw [he] at h
        exact absurd h (by decide)
      have h32 : ¬(d i).1 < 32 := by
        obtain h | h | h := h
        · exact UInt8.not_lt.mpr (UInt8.le_trans (by decide) h.1)
        · exact UInt8.not_lt.mpr (UInt8.le_trans (by decide) h.1)
        · exact UInt8.not_lt.mpr (UInt8.le_trans (by decide) h.1)
      rw [Place.next,if_neg h34,if_neg h92,if_neg h32]
    simp only [StringChar.text,Place.after_cons,Place.after_nil]
    have h0 : (Place.inside.next 92).next 117=.inside := rfl
    rw [h0,hd,hd,hd,hd]

theorem Literal.closed (l : Literal) : Closed l.text := by
  have hinner : Place.inside.after l.inner=.inside := by
    induction l with
    | nil => rfl
    | cons k l ih => rw [Literal.inner_cons,Place.after_append,k.after_text,ih]
  have hopen : Place.outside.next 34=.inside := rfl
  rw [Closed,Literal.text,Place.after_cons,hopen,Place.after_append,hinner]
  rfl

theorem bare_digits (ds : Digits) : ∀ c∈ds.1,Bare c :=
  fun c hc => Or.inr (Or.inl (ds.2.2 c hc))

theorem Numeral.closed (n : Numeral) : Closed n.text := by
  have hsign : Closed n.signText := by
    rw [Numeral.signText]
    split <;> decide
  have hfraction : Closed n.fractionText := by
    rw [Numeral.fractionText]
    split
    · rfl
    · next ds _ =>
      apply closed_of_bare
      rw [List.forall_mem_cons]
      exact ⟨by decide,bare_digits ds⟩
  have hexponent : Closed n.exponentText := by
    rw [Numeral.exponentText]
    split
    · rfl
    · next e _ =>
      apply closed_of_bare
      rw [Exponent.text,List.forall_mem_cons]
      refine ⟨?_,?_⟩
      · obtain h | h := e.isMarker <;> (rw [h]; decide)
      · intro c hc
        obtain hc | hc := List.mem_append.mp hc
        · obtain h | h := e.isSign c (Option.mem_toList.mp hc) <;> (rw [h]; decide)
        · exact bare_digits e.digits c hc
  exact hsign.append ((closed_of_bare (bare_digits n.whole)).append (hfraction.append hexponent))

theorem closed_bool (b : Bool) : Closed (boolText b) := by
  cases b <;> decide

mutual

theorem Value.closed : (v : Value) → ∀ t∈v.texts,Closed t
  | .null => by simpa [Value.texts] using (by decide : Closed nullText)
  | .bool b => by simpa [Value.texts] using closed_bool b
  | .number n => by simpa [Value.texts] using n.closed
  | .string l => by simpa [Value.texts] using l.closed
  | .array es => by
    rw [Value.texts,List.forall_mem_cons]
    exact ⟨by decide,Elements.closed es⟩
  | .object ms => by
    rw [Value.texts,List.forall_mem_cons]
    exact ⟨by decide,Members.closed ms⟩

theorem Elements.closed : (es : Elements) → ∀ t∈es.texts,Closed t
  | .nil => by simpa [Elements.texts] using (by decide : Closed [93])
  | .cons v es => by
    rw [Elements.texts,List.forall_mem_append]
    exact ⟨Value.closed v,Elements.moreClosed es⟩

theorem Elements.moreClosed : (es : Elements) → ∀ t∈es.more,Closed t
  | .nil => by simpa [Elements.more] using (by decide : Closed [93])
  | .cons v es => by
    rw [Elements.more,List.forall_mem_cons,List.forall_mem_append]
    exact ⟨by decide,Value.closed v,Elements.moreClosed es⟩

theorem Members.closed : (ms : Members) → ∀ t∈ms.texts,Closed t
  | .cons name v ms => by
    rw [Members.texts,List.forall_mem_cons,List.forall_mem_cons,List.forall_mem_append]
    exact ⟨name.closed,by decide,Value.closed v,Members.moreClosed ms⟩
  | .nil => by simpa [Members.texts] using (by decide : Closed [125])

theorem Members.moreClosed : (ms : Members) → ∀ t∈ms.more,Closed t
  | .cons name v ms => by
    rw [Members.more,List.forall_mem_cons,List.forall_mem_cons,List.forall_mem_cons,
      List.forall_mem_append]
    exact ⟨by decide,name.closed,by decide,Value.closed v,Members.moreClosed ms⟩
  | .nil => by simpa [Members.more] using (by decide : Closed [125])

end

theorem Spaced.closed {ts : List (List UInt8)} {rest : List UInt8} (h : Spaced ts s rest)
    (hts : ∀ t∈ts,Closed t) (hrest : Closed rest) : Closed s := by
  induction ts generalizing s with
  | nil =>
    rw [Spaced] at h
    rwa [h]
  | cons t ts ih =>
    rw [List.forall_mem_cons] at hts
    obtain ⟨w,s',hw,rfl,hs⟩ := h
    exact (closed_blanks hw).append (hts.1.append (ih hs hts.2))

/-- In a JSON text every byte has its place. -/
theorem Spells.closed {v : Value} (h : Spells v s) : Closed s := by
  obtain ⟨rest,hs,hrest⟩ := h
  exact Spaced.closed hs v.closed (closed_blanks hrest)

/-- A text is not JSON when a byte in it has no place. -/
theorem not_spells_of_broken (h : Place.outside.after s=.broken) (t : List UInt8) :
    ¬∃ v,Spells v (s++t) := by
  rintro ⟨v,hv⟩
  have hclosed := hv.closed
  rw [Closed,Place.after_append,h,Place.after_broken] at hclosed
  cases hclosed

end Cllm.Rfc8259
