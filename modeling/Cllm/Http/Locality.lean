import Cllm.Http.RequestBounds

namespace Cllm.Http

open Libc

/-- The second gives what the first gives, where that gives something. -/
def Below {α : Type} (x y : Option α) : Prop := ∀ a,x=some a → y=some a

namespace Below

variable {α β : Type}

theorem refl (x : Option α) : Below x x := fun _ h => h

theorem bind {x y : Option α} {f g : α → Option β} (h : Below x y) (hf : ∀ a,Below (f a) (g a)) :
    Below (x >>= f) (y >>= g) := by
  intro b hb
  obtain ⟨a,ha,hfa⟩ := Option.bind_eq_some_iff.mp hb
  exact Option.bind_eq_some_iff.mpr ⟨a,h a ha,hf a b hfa⟩

theorem ite {c : Prop} [Decidable c] {x y x' y' : Option α} (h : Below x y) (h' : Below x' y') :
    Below (if c then x else x') (if c then y else y') := by
  split_ifs
  · exact h
  · exact h'

end Below

section Lines

variable (xs rest : List UInt8)

theorem strStartsWithCi_more (text : List UInt8) :
    Below (strStartsWithCi xs text) (strStartsWithCi (xs++rest) text) := by
  intro b h
  induction xs generalizing text with
  | nil =>
    cases text with
    | nil => simpa [strStartsWithCi] using h
    | cons d text => simp [strStartsWithCi] at h
  | cons c xs ih =>
    cases text with
    | nil => simpa [strStartsWithCi] using h
    | cons d text =>
      rw [strStartsWithCi] at h
      rw [List.cons_append,strStartsWithCi]
      split_ifs at h ⊢ with hc
      · exact h
      · exact ih text h

theorem skipBlanks_more {v : List UInt8} (h : skipBlanks xs=some v) :
    skipBlanks (xs++rest)=some (v++rest) := by
  induction xs with
  | nil => cases h
  | cons c xs ih =>
    rw [skipBlanks] at h
    rw [List.cons_append,skipBlanks]
    split_ifs at h ⊢ with hc
    · exact ih h
    · obtain rfl := Option.some.inj h
      rfl

theorem parseDigits_more (n : Nat) : Below (parseDigits xs n) (parseDigits (xs++rest) n) := by
  intro k h
  induction xs generalizing n with
  | nil => cases h
  | cons c xs ih =>
    rw [parseDigits] at h
    rw [List.cons_append,parseDigits]
    split_ifs at h ⊢ with hc
    · exact ih _ h
    · exact h

theorem takeValue_more (n : Nat) : Below (takeValue n xs) (takeValue n (xs++rest)) := by
  intro t h
  induction xs generalizing n with
  | nil => simp [takeValue] at h
  | cons c xs ih =>
    cases n with
    | zero => simpa [takeValue] using h
    | succ n =>
      rw [takeValue] at h
      rw [List.cons_append,takeValue]
      split_ifs at h ⊢ with hc
      · exact h
      · obtain ⟨t',ht',rfl⟩ := Option.map_eq_some_iff.mp h
        rw [ih n t' ht']
        rfl

/-- Behind the blanks of a value nothing is read that was not there. -/
theorem value_more {α : Type} (k : Nat) {f g : List UInt8 → Option α}
    (hf : ∀ v more,Below (f v) (g (v++more))) :
    Below (skipBlanks (xs.drop k) >>= f) (skipBlanks ((xs++rest).drop k) >>= g) := by
  intro a h
  obtain ⟨v,hv,hfv⟩ := Option.bind_eq_some_iff.mp h
  rw [List.drop_append]
  exact Option.bind_eq_some_iff.mpr
    ⟨_,skipBlanks_more _ (rest.drop (k-xs.length)) hv,hf v _ a hfv⟩

theorem parseHeader_more (request : HttpRequest) :
    Below (parseHeader xs request) (parseHeader (xs++rest) request) := by
  unfold parseHeader
  apply Below.bind (strStartsWithCi_more xs rest _)
  intro isLength
  apply Below.ite
  · apply value_more
    intro v more
    exact (parseDigits_more v more 0).bind fun n => .refl _
  · apply Below.bind (strStartsWithCi_more xs rest _)
    intro isType
    apply Below.ite
    · apply value_more
      intro v more
      exact (takeValue_more v more 63).bind fun t => .refl _
    · exact .refl _

theorem strncpy_more (n : Nat) : Below (strncpy xs n) (strncpy (xs++rest) n) := by
  intro d h
  induction xs generalizing n d with
  | nil =>
    cases n with
    | zero =>
      obtain rfl := Option.some.inj h
      cases rest <;> rfl
    | succ n => cases h
  | cons c xs ih =>
    cases n with
    | zero => exact h
    | succ n =>
      rw [strncpy] at h
      rw [List.cons_append,strncpy]
      split_ifs at h ⊢ with hc
      · exact h
      · obtain ⟨d',hd',rfl⟩ := Option.map_eq_some_iff.mp h
        rw [ih n d' hd']
        rfl

theorem copy_more {size : Nat} (n : Nat) (h : n < size) :
    Below (CField.copy xs n h) (CField.copy (xs++rest) n h) := by
  intro field hfield
  have hcopied := strncpy_more xs rest n _ (CField.copy_eq_some hfield)
  unfold CField.copy
  split
  · next hnone => cases hnone.symm.trans hcopied
  · next d hd =>
    obtain rfl := Option.some.inj (hd.symm.trans hcopied)
    rfl

theorem copy_drop_more {size : Nat} (k n : Nat) (h : n < size) :
    Below (CField.copy (xs.drop k) n h) (CField.copy ((xs++rest).drop k) n h) := by
  rw [List.drop_append]
  apply copy_more

end Lines

section Parser

variable (raw rest : List UInt8)

theorem get_more (pos : Nat) : Below raw[pos]? (raw++rest)[pos]? := by
  intro c h
  obtain ⟨hlt,-⟩ := List.getElem?_eq_some_iff.mp h
  rwa [List.getElem?_append_left hlt]

theorem crlfAt_more (pos : Nat) : Below (crlfAt raw pos) (crlfAt (raw++rest) pos) := by
  unfold crlfAt
  apply Below.bind (get_more raw rest pos)
  intro a
  apply Below.ite
  · exact (get_more raw rest (pos+1)).bind fun b => .refl _
  · exact .refl _

theorem findCrlf_more (n pos : Nat) :
    Below (findCrlf raw n pos) (findCrlf (raw++rest) n pos) := by
  induction n generalizing pos with
  | zero => exact .refl _
  | succ n ih =>
    rw [findCrlf,findCrlf]
    apply Below.bind (crlfAt_more raw rest pos)
    intro found
    apply Below.ite
    · exact .refl _
    · exact (ih (pos+1)).bind fun d => .refl _

theorem parseHeaderLines_more (pos headerStart : Nat) (request : HttpRequest) :
    Below (parseHeaderLines raw pos headerStart request)
      (parseHeaderLines (raw++rest) pos headerStart request) := by
  intro r h
  fun_induction parseHeaderLines raw pos headerStart request with
  | case1 headerStart request hlt hnone => cases h
  | case2 headerStart request hlt d hd headerEnd hnone => cases h
  | case3 headerStart request hlt d hd headerEnd r' hr ih =>
    have hline : (if headerEnd>headerStart then parseHeader ((raw++rest).drop headerStart) request
        else some request)=some r' := by
      rw [List.drop_append]
      exact (parseHeader_more _ _ request).ite (.refl _) r' hr
    rw [parseHeaderLines,if_pos hlt,findCrlf_more raw rest _ _ d hd]
    simp only
    rw [hline]
    exact ih h
  | case4 headerStart request hge =>
    rw [parseHeaderLines,if_neg hge]
    exact h

theorem blankLineAt_more (length pos : Nat) :
    Below (blankLineAt raw length pos) (blankLineAt (raw++rest) length pos) := by
  rw [blankLineAt,blankLineAt]
  exact (crlfAt_more raw rest _).ite (.refl _)

theorem headerLoop_more (length n pos headersStart : Nat) (request : HttpRequest) :
    Below (headerLoop raw length n pos headersStart request)
      (headerLoop (raw++rest) length n pos headersStart request) := by
  induction n generalizing pos headersStart request with
  | zero => exact .refl _
  | succ n ih =>
    rw [headerLoop,headerLoop]
    apply Below.bind (crlfAt_more raw rest pos)
    intro isLine
    apply Below.ite
    · apply Below.bind (blankLineAt_more raw rest length pos)
      intro isBlank
      apply Below.ite
      · exact .refl _
      · exact (parseHeaderLines_more raw rest pos headersStart request).bind fun r => ih _ _ r
    · apply ih

theorem httpParseRequest_more (length : Nat) :
    Below (httpParseRequest raw length) (httpParseRequest (raw++rest) length) := by
  unfold httpParseRequest
  apply Below.ite (.refl _)
  apply Below.bind (findCrlf_more raw rest _ _)
  intro lineEnd
  apply Below.ite (.refl _)
  apply Below.ite (.refl _)
  apply Below.bind (strncpy_more raw rest _)
  intro requestLine
  apply Below.bind (.refl _)
  rintro (_|request)
  · exact .refl _
  apply Below.bind (headerLoop_more raw rest _ _ _ _ _)
  intro ⟨bodyStart,headersStart,request⟩
  apply Below.bind
  · unfold copyHeaders
    exact (copy_drop_more raw rest _ _ _).bind fun headers => .refl _
  intro request
  apply Below.bind
  · unfold copyBody
    apply Below.ite
    · exact (copy_drop_more raw rest _ _ _).bind fun body => .refl _
    · exact .refl _
  intro request
  exact .refl _

/-- What is parsed depends on the `length` bytes only. -/
theorem httpParseRequest_take {raw : List UInt8} {length : Nat} (h : length ≤ raw.length) :
    httpParseRequest (raw.take length) length=httpParseRequest raw length := by
  have hfits : length ≤ (raw.take length).length := by
    rw [List.length_take]
    omega
  obtain ⟨r,hr⟩ := Option.isSome_iff_exists.mp (httpParseRequest_isSome hfits)
  have hwhole := httpParseRequest_more (raw.take length) (raw.drop length) length r hr
  rw [List.take_append_drop] at hwhole
  rw [hr,hwhole]

end Parser

end Cllm.Http
