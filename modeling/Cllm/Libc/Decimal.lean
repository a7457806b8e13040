import Cllm.Libc.Printf
import Mathlib.Data.List.GetD

namespace Cllm.Libc

/-- The number of `ds` behind the digits of `a`. -/
def decimalValue (a : Nat) (ds : List UInt8) : Nat := ds.foldl (fun a d => 10*a+(d.toNat-48)) a

def lowerDigits : List UInt8 := cstr "0123456789abcdef"

theorem decimal_digit : ∀ r < 10,(lowerDigits.getD r 0).toNat=48+r := by decide

theorem uintText_zero : uintText 0 10 false=[48] := by decide

theorem uintText_of_ne_zero {v : Nat} (hv : v≠0) :
    uintText v 10 false=(uintDigits lowerDigits 10 32 v).reverse := by
  unfold uintText lowerDigits
  rw [if_neg hv,if_neg Bool.false_ne_true]

theorem decimalValue_append (a : Nat) (ds : List UInt8) (d : UInt8) :
    decimalValue a (ds++[d])=10*decimalValue a ds+(d.toNat-48) := by
  simp [decimalValue]

theorem decimalValue_cons (a : Nat) (d : UInt8) (ds : List UInt8) :
    decimalValue a (d::ds)=decimalValue (10*a+(d.toNat-48)) ds := by
  simp [decimalValue]

theorem le_decimalValue (a : Nat) (ds : List UInt8) : a ≤ decimalValue a ds := by
  induction ds generalizing a with
  | nil => exact le_rfl
  | cons d ds ih =>
    rw [decimalValue_cons]
    have h := ih (10*a+(d.toNat-48))
    omega

theorem uintDigits_value (n : Nat) {v : Nat} (h : v < 10^n) :
    decimalValue 0 (uintDigits lowerDigits 10 n v).reverse=v := by
  induction n generalizing v with
  | zero =>
    have hv : v=0 := by simpa using h
    rw [hv]
    rfl
  | succ n ih =>
    rw [uintDigits]
    split_ifs with hv
    · rw [hv]
      rfl
    · have hq : v/10 < 10^n := Nat.div_lt_of_lt_mul (by rwa [Nat.pow_succ',] at h)
      have hd := decimal_digit (v%10) (Nat.mod_lt v (by decide))
      rw [List.reverse_cons,decimalValue_append,ih hq,hd]
      omega

theorem mem_uintDigits_decimal {n v : Nat} {c : UInt8}
    (h : c∈uintDigits lowerDigits 10 n v) : 48 ≤ c ∧ c ≤ 57 := by
  induction n generalizing v with
  | zero => cases h
  | succ n ih =>
    rw [uintDigits] at h
    split_ifs at h with hv
    · cases h
    · rw [List.mem_cons] at h
      obtain rfl | h := h
      · have hr : v%10 < 10 := Nat.mod_lt v (by decide)
        have hd := decimal_digit (v%10) hr
        rw [UInt8.le_iff_toNat_le,UInt8.le_iff_toNat_le,hd]
        change 48 ≤ 48+v%10 ∧ 48+v%10 ≤ 57
        omega
      · exact ih h

/-- The digit that stands first is not a zero. -/
theorem uintDigits_last {n v : Nat} (h : v < 10^n) (hv : v≠0) :
    ∃ c,(uintDigits lowerDigits 10 n v).getLast?=some c ∧ c≠48 := by
  induction n generalizing v with
  | zero => exact absurd (by simpa using h) hv
  | succ n ih =>
    rw [uintDigits,if_neg hv]
    have hq : v/10 < 10^n := Nat.div_lt_of_lt_mul (by rwa [Nat.pow_succ'] at h)
    by_cases h0 : v/10=0
    · have hnil : uintDigits lowerDigits 10 n 0=[] := by cases n <;> simp [uintDigits]
      rw [h0,hnil]
      refine ⟨_,rfl,?_⟩
      have hd := decimal_digit (v%10) (Nat.mod_lt v (by decide))
      intro hc
      rw [List.getLast_singleton] at hc
      rw [hc] at hd
      change 48=48+v%10 at hd
      omega
    · obtain ⟨c,hc,hne⟩ := ih hq h0
      refine ⟨c,?_,hne⟩
      rw [List.getLast?_cons,hc]
      rfl

theorem uintDigits_length_le (n : Nat) {v k : Nat} (h : v < 10^k) :
    (uintDigits lowerDigits 10 n v).length ≤ k := by
  induction n generalizing v k with
  | zero => exact Nat.zero_le k
  | succ n ih =>
    rw [uintDigits]
    split_ifs with hv
    · exact Nat.zero_le k
    · cases k with
      | zero =>
        have h0 : v=0 := by simpa using h
        exact absurd h0 hv
      | succ k =>
        have hq : v/10 < 10^k := Nat.div_lt_of_lt_mul (by rwa [Nat.pow_succ'] at h)
        rw [List.length_cons]
        exact Nat.succ_le_succ (ih hq)

theorem uintDigits_length (digits : List UInt8) (base n v : Nat) :
    (uintDigits digits base n v).length≤n := by
  induction n generalizing v with
  | zero => simp [uintDigits]
  | succ n ih =>
    rw [uintDigits]
    split_ifs
    · simp
    · simpa using ih (v/base)

theorem uintText_length (v base : Nat) (isUpper : Bool) : (uintText v base isUpper).length≤32 := by
  by_cases hv : v=0
  · rw [uintText,if_pos hv]
    decide
  · rw [uintText,if_neg hv,List.length_reverse]
    exact uintDigits_length _ base 32 v

theorem uintText_length_le {v k : Nat} (h : v < 10^k) (hk : 0 < k) :
    (uintText v 10 false).length ≤ k := by
  by_cases hv : v=0
  · rw [hv,uintText_zero]
    exact hk
  · rw [uintText_of_ne_zero hv,List.length_reverse]
    exact uintDigits_length_le 32 h

theorem uintText_value {v : Nat} (h : v < 10^32) : decimalValue 0 (uintText v 10 false)=v := by
  by_cases hv : v=0
  · rw [hv,uintText_zero]
    rfl
  · rw [uintText_of_ne_zero hv]
    exact uintDigits_value 32 h

theorem uintText_digit {v : Nat} {c : UInt8} (h : c∈uintText v 10 false) : 48 ≤ c ∧ c ≤ 57 := by
  by_cases hv : v=0
  · rw [hv,uintText_zero,List.mem_singleton] at h
    rw [h]
    decide
  · rw [uintText_of_ne_zero hv] at h
    exact mem_uintDigits_decimal (List.mem_reverse.mp h)

theorem uintText_ne_nil (v : Nat) : uintText v 10 false≠[] := by
  by_cases hv : v=0
  · rw [hv,uintText_zero]
    simp
  · rw [uintText_of_ne_zero hv,uintDigits,if_neg hv]
    simp

theorem uintText_leading {v : Nat} (h : v < 10^32)
    (h0 : (uintText v 10 false).head?=some 48) : uintText v 10 false=[48] := by
  by_cases hv : v=0
  · rw [hv,uintText_zero]
  · obtain ⟨c,hc,hne⟩ := uintDigits_last h hv
    rw [uintText_of_ne_zero hv,List.head?_reverse,hc] at h0
    exact absurd (Option.some.inj h0) hne

/-- The numeral of an `int`. -/
def intText (i : Int32) : List UInt8 :=
  (if i < 0 then [45] else [])++uintText i.toInt.natAbs 10 false

theorem int32_negative (i : Int32) : i < 0 ↔ 2^31 ≤ i.toUInt32.toNat := by
  rw [Int32.lt_iff_toInt_lt]
  change i.toBitVec.toInt < 0 ↔ 2^31 ≤ i.toBitVec.toNat
  rw [BitVec.toInt_eq_toNat_cond]
  have hlt := i.toBitVec.isLt
  split <;> omega

theorem int32_natAbs (i : Int32) : i.toInt.natAbs=
    if i < 0 then (-i.toUInt32).toNat else i.toUInt32.toNat := by
  have hn := int32_negative i
  have hlt : i.toUInt32.toNat < 2^32 := i.toBitVec.isLt
  have hi : i.toInt=if 2*i.toUInt32.toNat < 2^32 then (i.toUInt32.toNat : Int)
      else (i.toUInt32.toNat : Int)-(2^32 : Nat) := i.toBitVec.toInt_eq_toNat_cond
  have hneg : (-i.toUInt32).toNat=(2^32-i.toUInt32.toNat)%2^32 := UInt32.toNat_neg _
  rw [hi,hneg]
  generalize i.toUInt32.toNat=n at *
  by_cases h : i < 0
  · have h' := hn.mp h
    rw [if_pos h,if_neg (by omega)]
    omega
  · have h' : ¬2^31 ≤ n := fun hc => h (hn.mpr hc)
    rw [if_neg h,if_pos (by omega)]
    omega

theorem int_natAbs_le (i : Int32) : i.toInt.natAbs ≤ 2^31 := by
  have hlo := i.le_toInt
  have hhi := i.toInt_lt
  omega

/-- A sign and ten digits. -/
theorem intText_length (i : Int32) : (intText i).length ≤ 11 := by
  have hle := int_natAbs_le i
  have hdigits : (uintText i.toInt.natAbs 10 false).length ≤ 10 :=
    uintText_length_le (by omega) (by decide)
  unfold intText
  rw [List.length_append]
  split
  · rw [List.length_singleton]
    omega
  · rw [List.length_nil]
    omega

theorem zero_not_mem_intText (i : Int32) : 0∉intText i := by
  intro h
  unfold intText at h
  rw [List.mem_append] at h
  obtain h | h := h
  · split at h
    · exact absurd (List.mem_singleton.mp h) (by decide)
    · cases h
  · exact absurd (uintText_digit h) (by decide)

theorem formatLoop_d (g : List UInt8) (i : Int32) (ap : List VaArg) (k : Sink) :
    formatLoop (cstr "%d"++g) (.word i.toUInt32::ap) k=
      formatLoop g ap (appendStr k (intText i)) := by
  have h : cstr "%d"=[37,100] := by decide
  have hn := int32_negative i
  have ha := int32_natAbs i
  rw [h,List.cons_append,List.cons_append,List.nil_append,formatLoop.eq_def]
  by_cases hi : i < 0
  · rw [if_pos hi] at ha
    simp [intText,ha,hi,vaWord,appendUint]
    intro hc
    exact absurd (hn.mp hi) (Nat.not_le_of_lt hc)
  · rw [if_neg hi] at ha
    simp [intText,ha,hi,vaWord,appendUint]
    intro hc
    exact absurd (hn.mpr hc) hi

end Cllm.Libc
