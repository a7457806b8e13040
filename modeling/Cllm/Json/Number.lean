import Cllm.Framework.Ieee754
import Cllm.Json.Spelling
import Cllm.Libc.Decimal

namespace Cllm.Json

open Libc Ieee754 Rfc8259

abbrev Binary32 := Number binary32

abbrev Binary64 := Number binary64

/-- The cast to `int`; what no `int` can hold is cast to INT_MIN. -/
def castInt {f : Format} (x : Number f) : Int32 :=
  match x.truncate with
  | some i => if -2147483648 ≤ i ∧ i ≤ 2147483647 then Int32.ofInt i else Int32.minValue
  | none => Int32.minValue

instance : Double Binary64 Binary32 where
  ofNat n := .ofInt binary64 n
  toInt := castInt
  toFloat := .convert binary32
  decimal m k := .decimal binary32 m k

variable {a : Nat}

theorem value_ofNat (h : a < 2^53) : (Double.ofNat a : Binary64).value=some (a : ℚ) := by
  have hv : (Number.ofInt binary64 (a : Int)).value=some (((a : Int) : ℚ)) :=
    Number.value_ofInt h
  rw [Int.cast_natCast] at hv
  exact hv

theorem has_nat (h : a < 2^53) : binary64.Has (a : ℚ) := by
  have hi : binary64.Has ((a : Int) : ℚ) := has_int h
  rw [Int.cast_natCast] at hi
  exact hi

/-- The digit behind those of `a`. -/
theorem value_digit {x : Binary64} {d : Nat} (hx : x.value=some (a : ℚ))
    (h : 10*a+d < 2^53) :
    (x*Double.ofNat 10+Double.ofNat d).value=some ((10*a+d : Nat) : ℚ) := by
  have hten : (Double.ofNat 10 : Binary64).value=some ((10 : Nat) : ℚ) := value_ofNat (by decide)
  have hmul : (a : ℚ)*(10 : Nat)=(10*a : Nat) := by
    push_cast
    ring
  have hadd : ((10*a : Nat) : ℚ)+(d : ℚ)=(10*a+d : Nat) := (Nat.cast_add _ _).symm
  have hlt : 10*a < 2^53 := Nat.lt_of_le_of_lt (Nat.le_add_right _ _) h
  have hlt' : d < 2^53 := Nat.lt_of_le_of_lt (Nat.le_add_left _ _) h
  have hm : (x*Double.ofNat 10).value=some ((10*a : Nat) : ℚ) := by
    rw [← hmul]
    apply Number.value_mul hx hten
    rw [hmul]
    exact has_nat hlt
  rw [← hadd]
  apply Number.value_add hm (value_ofNat hlt')
  rw [hadd]
  exact has_nat h

theorem isDigit_ne {c d : UInt8} (hc : isDigit c=true) (hd : isDigit d=false) : c≠d := by
  intro h
  rw [h,hd] at hc
  cases hc

theorem numberStep_digit {n : NumberState Binary64} {c : UInt8} (first : Bool) (hc : Digit c)
    (he : n.inExponent=false) (hd : n.inDecimal=false) :
    numberStep first n c=
      {n with value := n.value*Double.ofNat 10+Double.ofNat (c.toNat-48)} := by
  have hdig : isDigit c=true := isDigit_iff.mpr hc
  have h45 : c≠45 := isDigit_ne hdig (by decide)
  have h46 : c≠46 := isDigit_ne hdig (by decide)
  have h101 : c≠101 := isDigit_ne hdig (by decide)
  have h69 : c≠69 := isDigit_ne hdig (by decide)
  have h43 : c≠43 := isDigit_ne hdig (by decide)
  simp [numberStep,h45,h46,h101,h69,h43,hdig,he,hd]

/-- The loop over the digits of a whole number is exact as long as 53 places are enough. -/
theorem numberLoop_digits {ds : List UInt8} (hds : ∀ c∈ds,Digit c) {n : NumberState Binary64}
    (he : n.inExponent=false) (hd : n.inDecimal=false) (hv : n.value.value=some (a : ℚ))
    (h : decimalValue a ds < 2^53) :
    ∃ x : Binary64,ds.foldl (numberStep false) n={n with value := x} ∧
      x.value=some (decimalValue a ds : ℚ) := by
  induction ds generalizing n a with
  | nil => exact ⟨n.value,rfl,hv⟩
  | cons c ds ih =>
    rw [List.forall_mem_cons] at hds
    rw [decimalValue_cons] at h ⊢
    have hle := le_decimalValue (10*a+(c.toNat-48)) ds
    have hv' := value_digit (d := c.toNat-48) hv (by omega)
    rw [List.foldl_cons,numberStep_digit false hds.1 he hd]
    exact ih hds.2 he hd hv' h

theorem int_leading (i : Int32) (h : (uintText i.toInt.natAbs 10 false).head?=some 48) :
    uintText i.toInt.natAbs 10 false=[48] :=
  uintText_leading (Nat.lt_of_le_of_lt (int_natAbs_le i) (by decide)) h

theorem int_digits (i : Int32) : uintText i.toInt.natAbs 10 false≠[] ∧
    ∀ d∈uintText i.toInt.natAbs 10 false,Digit d :=
  ⟨uintText_ne_nil _,fun _ h => uintText_digit h⟩

/-- The numeral of an `int`, as RFC 8259 has it. -/
def intNumeral (i : Int32) : Numeral where
  negative := decide (i < 0)
  whole := ⟨uintText i.toInt.natAbs 10 false,int_digits i⟩
  noLeadingZero := int_leading i
  fraction := none
  exponent := none

theorem intNumeral_text (i : Int32) : (intNumeral i).text=intText i := by
  simp [intNumeral,Numeral.text,Numeral.signText,Numeral.fractionText,Numeral.exponentText,
    intText]

/-- A number without a fraction and an exponent, when its loop has come to `x`. -/
theorem numberValue_whole {c : UInt8} {cs : List UInt8} {x : Binary64}
    (h : cs.foldl (numberStep false) (numberStep true NumberState.init c)=
      {(NumberState.init : NumberState Binary64) with value := x}) :
    numberValue (c::cs)=if c=45 then -(x+Double.ofNat 0) else x+Double.ofNat 0 := by
  simp only [numberValue,h,List.head?_cons,Option.some.injEq]
  rfl

/-- The parser reads the numeral of an `int` as that number. -/
theorem numberValue_intText (i : Int32) :
    (numberValue (intText i) : Binary64).value=some (i.toInt : ℚ) := by
  have hle := int_natAbs_le i
  have hds := (int_digits i).2
  have hval : decimalValue 0 (uintText i.toInt.natAbs 10 false)=i.toInt.natAbs :=
    uintText_value (by omega)
  have hzero : (Double.ofNat 0 : Binary64).value=some ((0 : Nat) : ℚ) := value_ofNat (by decide)
  obtain ⟨x,hx,hxv⟩ := numberLoop_digits (n := NumberState.init) hds rfl rfl hzero
    (by rw [hval]; omega)
  rw [hval] at hxv
  have hsum : (x+Double.ofNat 0).value=some (i.toInt.natAbs : ℚ) := by
    have hadd : (i.toInt.natAbs : ℚ)+((0 : Nat) : ℚ)=(i.toInt.natAbs : ℚ) := by simp
    rw [← hadd]
    apply Number.value_add hxv hzero
    rw [hadd]
    exact has_nat (by omega)
  by_cases hi : i < 0
  · have hneg : i.toInt < 0 := Int32.lt_iff_toInt_lt.mp hi
    have htext : intText i=45::uintText i.toInt.natAbs 10 false := by simp [intText,hi]
    have habs : -((i.toInt.natAbs : Nat) : ℚ)=(i.toInt : ℚ) := by
      have hz : -((i.toInt.natAbs : Nat) : Int)=i.toInt := by omega
      have hq := congrArg (Int.cast : Int → ℚ) hz
      rwa [Int.cast_neg,Int.cast_natCast] at hq
    have hn := numberValue_whole (c := 45) hx
    rw [if_pos rfl] at hn
    rw [htext,hn,← habs]
    exact Number.value_neg hsum
  · have hnonneg : ¬i.toInt < 0 := fun h => hi (Int32.lt_iff_toInt_lt.mpr h)
    have htext : intText i=uintText i.toInt.natAbs 10 false := by simp [intText,hi]
    have habs : ((i.toInt.natAbs : Nat) : ℚ)=(i.toInt : ℚ) := by
      have hz : ((i.toInt.natAbs : Nat) : Int)=i.toInt := by omega
      have hq := congrArg (Int.cast : Int → ℚ) hz
      rwa [Int.cast_natCast] at hq
    obtain ⟨c,cs,hc⟩ := List.exists_cons_of_ne_nil (int_digits i).1
    rw [hc] at hx hds
    rw [List.forall_mem_cons] at hds
    have h45 : c≠45 := by
      rintro rfl
      exact absurd hds.1 (by decide)
    rw [List.foldl_cons,numberStep_digit false hds.1 rfl rfl,
      ← numberStep_digit true hds.1 rfl rfl] at hx
    have hn := numberValue_whole hx
    rw [if_neg h45] at hn
    rw [htext,hc,hn,← habs]
    exact hsum

end Cllm.Json
