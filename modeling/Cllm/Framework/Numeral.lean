import Cllm.Framework.Rfc8259
import Mathlib.Algebra.Order.Field.Rat
import Mathlib.Tactic.Positivity

namespace Cllm.Rfc8259

def digitsValue (ds : List UInt8) : Nat := ds.foldl (fun a d => 10*a+(d.toNat-48)) 0

def Exponent.value (e : Exponent) : Int :=
  if e.sign=some 45 then -(digitsValue e.digits.1 : Int) else digitsValue e.digits.1

namespace Numeral

def fractionValue (n : Numeral) : ℚ :=
  match n.fraction with
  | none => 0
  | some ds => digitsValue ds.1/10^ds.1.length

def exponentValue (n : Numeral) : Int :=
  match n.exponent with
  | none => 0
  | some e => e.value

def magnitude (n : Numeral) : ℚ := (digitsValue n.whole.1+n.fractionValue)*10^n.exponentValue

/-- The exact decimal value. -/
def value (n : Numeral) : ℚ := if n.negative then -n.magnitude else n.magnitude

theorem magnitude_nonneg (n : Numeral) : 0 ≤ n.magnitude := by
  have hfraction : 0 ≤ n.fractionValue := by
    rw [fractionValue]
    split
    · exact le_rfl
    · positivity
  have hten : (0 : ℚ) ≤ 10 := by norm_num
  exact mul_nonneg (add_nonneg (Nat.cast_nonneg _) hfraction) (zpow_nonneg hten _)

end Numeral

theorem digits_append_inj {ds es x y : List UInt8} (hds : ∀ d∈ds,Digit d) (hes : ∀ d∈es,Digit d)
    (hx : ∀ c∈x.head?,¬Digit c) (hy : ∀ c∈y.head?,¬Digit c) (h : ds++x=es++y) :
    ds=es ∧ x=y := by
  induction ds generalizing es with
  | nil =>
    cases es with
    | nil => exact ⟨rfl,h⟩
    | cons e es =>
      subst h
      exact absurd (hes e List.mem_cons_self) (hx e rfl)
  | cons d ds ih =>
    cases es with
    | nil =>
      subst h
      exact absurd (hds d List.mem_cons_self) (hy d rfl)
    | cons e es =>
      rw [List.forall_mem_cons] at hds hes
      obtain ⟨rfl,htail⟩ := List.cons_eq_cons.mp h
      obtain ⟨rfl,hxy⟩ := ih hds.2 hes.2 htail
      exact ⟨rfl,hxy⟩

theorem Digits.head (ds : Digits) (x : List UInt8) : ∃ d∈(ds.1++x).head?,Digit d := by
  obtain ⟨ds,hne,hd⟩ := ds
  cases ds with
  | nil => exact absurd rfl hne
  | cons d ds => exact ⟨d,rfl,hd d List.mem_cons_self⟩

/-- What begins with a digit begins with nothing else. -/
theorem Digits.head_ne (ds : Digits) (x : List UInt8) {c : UInt8} (hc : ¬Digit c)
    (y : List UInt8) : ds.1++x≠c::y := by
  intro h
  obtain ⟨d,hd,hdigit⟩ := ds.head x
  rw [h] at hd
  obtain rfl := Option.some.inj hd
  exact hc hdigit

theorem not_digit_minus : ¬Digit 45 := by decide

theorem not_digit_plus : ¬Digit 43 := by decide

theorem not_digit_point : ¬Digit 46 := by decide

theorem Exponent.marker_not_digit (e : Exponent) : ¬Digit e.marker ∧ e.marker≠46 := by
  rcases e.isMarker with h | h <;> (rw [h]; decide)

theorem Exponent.sign_not_digit (e : Exponent) {c : UInt8} (hc : e.sign=some c) : ¬Digit c := by
  rcases e.isSign c hc with rfl | rfl
  · exact not_digit_plus
  · exact not_digit_minus

theorem Exponent.text_injective {e e' : Exponent} (h : e.text=e'.text) : e=e' := by
  obtain ⟨hmarker,htail⟩ := List.cons_eq_cons.mp h
  have hsign : e.sign=e'.sign ∧ e.digits.1=e'.digits.1 := by
    cases hs : e.sign with
    | none =>
      cases hs' : e'.sign with
      | none =>
        rw [hs,hs'] at htail
        exact ⟨rfl,htail⟩
      | some c =>
        rw [hs,hs',Option.toList_none,List.nil_append,← List.append_nil e.digits.1] at htail
        exact absurd htail (e.digits.head_ne _ (e'.sign_not_digit hs') _)
    | some c =>
      cases hs' : e'.sign with
      | none =>
        rw [hs,hs',Option.toList_none,List.nil_append,← List.append_nil e'.digits.1] at htail
        exact absurd htail.symm (e'.digits.head_ne _ (e.sign_not_digit hs) _)
      | some c' =>
        rw [hs,hs'] at htail
        obtain ⟨rfl,hdigits⟩ := List.cons_eq_cons.mp htail
        exact ⟨rfl,hdigits⟩
  obtain ⟨marker,isMarker,sign,isSign,digits⟩ := e
  obtain ⟨marker',isMarker',sign',isSign',digits'⟩ := e'
  obtain ⟨rfl,hdigits⟩ := hsign
  obtain rfl : marker=marker' := hmarker
  obtain rfl : digits=digits' := Subtype.ext hdigits
  rfl

namespace Numeral

variable {n m : Numeral}

theorem exponentText_head (n : Numeral) : ∀ c∈n.exponentText.head?,¬Digit c ∧ c≠46 := by
  rw [exponentText]
  cases n.exponent with
  | none => simp
  | some e =>
    intro c hc
    obtain rfl : e.marker=c := Option.some.inj hc
    exact e.marker_not_digit

theorem fractionText_head (n : Numeral) :
    ∀ c∈(n.fractionText++n.exponentText).head?,¬Digit c := by
  rw [fractionText]
  cases n.fraction with
  | none => exact fun c hc => (n.exponentText_head c hc).1
  | some ds =>
    intro c hc
    obtain rfl : 46=c := Option.some.inj hc
    exact not_digit_point

theorem exponentText_injective (h : n.exponentText=m.exponentText) : n.exponent=m.exponent := by
  rw [exponentText,exponentText] at h
  cases hn : n.exponent with
  | none =>
    cases hm : m.exponent with
    | none => rfl
    | some e =>
      rw [hn,hm] at h
      cases h
  | some e =>
    cases hm : m.exponent with
    | none =>
      rw [hn,hm] at h
      cases h
    | some e' =>
      rw [hn,hm] at h
      rw [Exponent.text_injective h]

theorem fractionText_injective
    (h : n.fractionText++n.exponentText=m.fractionText++m.exponentText) :
    n.fraction=m.fraction ∧ n.exponentText=m.exponentText := by
  have hdigit : ∀ n : Numeral,∀ c∈n.exponentText.head?,¬Digit c :=
    fun n c hc => (n.exponentText_head c hc).1
  rw [fractionText,fractionText] at h
  cases hn : n.fraction with
  | none =>
    cases hm : m.fraction with
    | none =>
      rw [hn,hm] at h
      exact ⟨rfl,h⟩
    | some ds =>
      rw [hn,hm] at h
      exact absurd rfl (n.exponentText_head 46 (by simpa using congrArg List.head? h)).2
  | some ds =>
    cases hm : m.fraction with
    | none =>
      rw [hn,hm] at h
      exact absurd rfl (m.exponentText_head 46 (by simpa using congrArg List.head? h.symm)).2
    | some es =>
      rw [hn,hm] at h
      obtain ⟨-,htail⟩ := List.cons_eq_cons.mp h
      obtain ⟨hdigits,hexponent⟩ := digits_append_inj ds.2.2 es.2.2 (hdigit n) (hdigit m) htail
      rw [Subtype.ext hdigits]
      exact ⟨rfl,hexponent⟩

theorem signText_injective {x y : List UInt8}
    (h : n.signText++(n.whole.1++x)=m.signText++(m.whole.1++y)) :
    n.negative=m.negative ∧ n.whole.1++x=m.whole.1++y := by
  rw [signText,signText] at h
  cases hn : n.negative with
  | false =>
    cases hm : m.negative with
    | false =>
      rw [hn,hm] at h
      exact ⟨rfl,h⟩
    | true =>
      rw [hn,hm] at h
      exact absurd h (n.whole.head_ne x not_digit_minus _)
  | true =>
    cases hm : m.negative with
    | false =>
      rw [hn,hm] at h
      exact absurd h.symm (m.whole.head_ne y not_digit_minus _)
    | true =>
      rw [hn,hm] at h
      exact ⟨rfl,(List.cons_eq_cons.mp h).2⟩

theorem text_injective (h : n.text=m.text) : n=m := by
  obtain ⟨hnegative,hrest⟩ := signText_injective h
  obtain ⟨hwhole,htail⟩ := digits_append_inj n.whole.2.2 m.whole.2.2 n.fractionText_head
    m.fractionText_head hrest
  obtain ⟨hfraction,hexponentText⟩ := fractionText_injective htail
  have hexponent := exponentText_injective hexponentText
  obtain ⟨negative,whole,noLeadingZero,fraction,exponent⟩ := n
  obtain ⟨negative',whole',noLeadingZero',fraction',exponent'⟩ := m
  obtain rfl : negative=negative' := hnegative
  obtain rfl : whole=whole' := Subtype.ext hwhole
  obtain rfl : fraction=fraction' := hfraction
  obtain rfl : exponent=exponent' := hexponent
  rfl

end Numeral

end Cllm.Rfc8259
