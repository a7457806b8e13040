import Cllm.Framework.Numeral
import Cllm.Json.Fraction

namespace Cllm.Json

open Libc Ieee754 Rfc8259

variable {g : Format} {v : Binary32} {s : Bool} {n : Nat}

theorem castInt_sixtyfourths (hn : n < 2^21) (hv : v.value=some ((signed s n : ℚ)/2^6)) :
    castInt v=Int32.ofInt (signed s (n/64)) := by
  have hdiv : (signed s n).tdiv (2^6)=signed s (n/64) := (signed_div s n 64).symm
  have hcast := castInt_quotient hv
  rw [hdiv,natAbs_signed] at hcast
  exact hcast (by omega)

theorem toInt_signed (hn : n < 2^31) : (Int32.ofInt (signed s n)).toInt=signed s n := by
  have habs := natAbs_signed s n
  exact Int32.toInt_ofInt_of_le (by omega) (by omega)

theorem signed_add_mul (s : Bool) (a b c : Nat) :
    signed s (a+b*c)=signed s a+signed s b*c := by
  cases s
  · simp [signed]
  · simp [signed]
    ring

/-- The product that is cast to `int`. -/
theorem product_sixtyfourths (hp : 24 ≤ g.precision) (hs : 6 ≤ g.scale) (hn : n < 2^21)
    (hv : v.value=some ((signed s n : ℚ)/2^6)) :
    ((v.convert g+ -Number.ofInt g (signed s (n/64)))*Number.ofInt g 1000000).value=
      some ((signed s (n%64*15625) : Int) : ℚ) := by
  have hwide : 2^24 ≤ 2^g.precision := Nat.pow_le_pow_right Nat.two_pos hp
  have hsplit : (signed s n : ℚ)=signed s (n%64)+signed s (n/64)*64 := by
    have hint := signed_add_mul s (n%64) (n/64) 64
    rw [Nat.mod_add_div'] at hint
    exact_mod_cast hint
  have hsum : (signed s n : ℚ)/2^6+ -((signed s (n/64) : Int) : ℚ)=(signed s (n%64) : ℚ)/2^6 := by
    rw [hsplit]
    ring
  have hproduct : (signed s (n%64) : ℚ)/2^6*((1000000 : Int) : ℚ)=
      ((signed s (n%64*15625) : Int) : ℚ) := by
    rw [signed_mul_nat]
    push_cast
    ring
  have hconvert := Number.value_convert hv
    (has_quotient (f := g) (by rw [natAbs_signed]; omega) hs)
  have hint : (-Number.ofInt g (signed s (n/64))).value=some (-((signed s (n/64) : Int) : ℚ)) :=
    Number.value_neg (Number.value_ofInt (by rw [natAbs_signed]; omega))
  have hmillion : (Number.ofInt g 1000000).value=some ((1000000 : Int) : ℚ) :=
    Number.value_ofInt (by change 1000000 < 2^g.precision; omega)
  have hadd := Number.value_add hconvert hint (by
    rw [hsum]
    exact has_quotient (by rw [natAbs_signed]; omega) hs)
  rw [hsum] at hadd
  have hmul := Number.value_mul hadd hmillion (by
    rw [hproduct]
    exact has_int (by rw [natAbs_signed]; omega))
  rwa [hproduct] at hmul

theorem fractionPart_sixtyfourths (hp : 24 ≤ g.precision) (hs : 6 ≤ g.scale) (hn : n < 2^21)
    (hv : v.value=some ((signed s n : ℚ)/2^6)) :
    fractionPart g v (castInt v)=Int32.ofInt ((n%64*15625 : Nat) : Int) := by
  have hvalue := product_sixtyfourths hp hs hn hv
  rw [← div_one ((signed s (n%64*15625) : Int) : ℚ),← pow_zero (2 : ℚ)] at hvalue
  have hcast := castInt_quotient hvalue
  rw [pow_zero,Int.tdiv_one,natAbs_signed] at hcast
  have hlt : n%64*15625 < 1000000 := by omega
  rw [castInt_sixtyfourths hn hv,fractionPart,toInt_signed (by omega)]
  simp only [hcast (by omega)]
  generalize n%64*15625=k at hlt
  have htoInt := toInt_signed (s := s) (n := k) (by omega)
  by_cases hneg : Int32.ofInt (signed s k) < 0
  · rw [if_pos hneg,← Int32.ofInt_neg]
    rw [Int32.lt_iff_toInt_lt,htoInt] at hneg
    cases s
    · exact absurd hneg (Int.not_lt.mpr (Int.natCast_nonneg k))
    · rw [signed,if_pos rfl,Int.neg_neg]
  · rw [if_neg hneg]
    rw [Int32.lt_iff_toInt_lt,htoInt] at hneg
    cases s
    · rfl
    · have hzero : k=0 := by
        simp only [signed,if_true] at hneg
        change ¬-(k : Int) < 0 at hneg
        omega
      rw [hzero]
      rfl

/-- A whole part and a fraction, both printed as an `int`. -/
def floatNumeral (i k : Int32) : Numeral :=
  {intNumeral i with fraction := some ⟨uintText k.toInt.natAbs 10 false,fraction_digits k⟩}

theorem floatNumeral_text (i : Int32) {k : Int32} (hk : ¬k < 0) :
    (floatNumeral i k).text=intText i++46::intText k := by
  simp [floatNumeral,intNumeral,Numeral.text,Numeral.signText,Numeral.fractionText,
    Numeral.exponentText,intText,hk]

theorem digitsValue_uintText (k : Int32) :
    digitsValue (uintText k.toInt.natAbs 10 false)=k.toInt.natAbs :=
  uintText_value (Nat.lt_of_le_of_lt (int_natAbs_le k) (by decide))

theorem floatNumeral_magnitude (i k : Int32) : (floatNumeral i k).magnitude=
    i.toInt.natAbs+(k.toInt.natAbs : ℚ)/10^(uintText k.toInt.natAbs 10 false).length := by
  have hexponent : (floatNumeral i k).exponentValue=0 := rfl
  rw [Numeral.magnitude,hexponent,zpow_zero,mul_one]
  change (digitsValue (uintText i.toInt.natAbs 10 false) : ℚ)+
    (digitsValue (uintText k.toInt.natAbs 10 false) : ℚ)/_=_
  rw [digitsValue_uintText,digitsValue_uintText]

/-- The digits that stand behind the point for `k`/64. -/
def fractionDigits (k : Nat) : Int32 := trimZeros 10 (Int32.ofInt ((k*15625 : Nat) : Int))

/-- A fraction below a tenth has lost the zeros in front. -/
theorem fractionDigits_exact : ∀ k < 64,¬fractionDigits k < 0 ∧
    ((fractionDigits k).toInt.natAbs*64=
      k*10^(uintText (fractionDigits k).toInt.natAbs 10 false).length ↔ k=0 ∨ 64 ≤ 10*k) := by
  decide

theorem fractionDigits_value {k : Nat} (hk : k < 64) :
    ((fractionDigits k).toInt.natAbs : ℚ)/
      10^(uintText (fractionDigits k).toInt.natAbs 10 false).length=(k : ℚ)/64 ↔
        k=0 ∨ 64 ≤ 10*k := by
  have hexact := (fractionDigits_exact k hk).2
  generalize (uintText (fractionDigits k).toInt.natAbs 10 false).length=l at hexact ⊢
  generalize (fractionDigits k).toInt.natAbs=t at hexact ⊢
  have hten : (10 : ℚ)^l≠0 := pow_ne_zero l (by norm_num)
  rw [← hexact,div_eq_div_iff hten (by norm_num)]
  constructor
  · intro h
    exact_mod_cast h
  · intro h
    exact_mod_cast h

/-- `m`/64 has no sign to lose in front of a zero, and no zeros in front of its fraction. -/
def KeepsValue (m : Int) : Prop :=
  ¬(-64 < m ∧ m < 0) ∧ (m.natAbs%64=0 ∨ 64 ≤ 10*(m.natAbs%64))

/-- What is put out for `n`/64 with a sign in front. -/
def sixtyfourths (s : Bool) (n : Nat) : Numeral :=
  floatNumeral (Int32.ofInt (signed s (n/64))) (fractionDigits (n%64))

theorem sixtyfourths_magnitude (s : Bool) (hn : n < 2^21) :
    (sixtyfourths s n).magnitude=(n : ℚ)/64 ↔ n%64=0 ∨ 64 ≤ 10*(n%64) := by
  have htoInt := toInt_signed (s := s) (n := n/64) (by omega)
  have hnat := Nat.div_add_mod n 64
  rw [sixtyfourths,floatNumeral_magnitude,htoInt,natAbs_signed,
    ← fractionDigits_value (Nat.mod_lt n (by decide))]
  generalize n/64=q at hnat ⊢
  generalize n%64=r at hnat ⊢
  have hsplit : (n : ℚ)/64=q+(r : ℚ)/64 := by
    rw [← hnat]
    push_cast
    ring
  rw [hsplit,add_right_inj]

theorem sixtyfourths_negative (s : Bool) (hn : n < 2^21) :
    (sixtyfourths s n).negative=(s && decide (64 ≤ n)) := by
  have htoInt := toInt_signed (s := s) (n := n/64) (by omega)
  change decide (Int32.ofInt (signed s (n/64)) < 0)=_
  rw [Bool.eq_iff_iff,decide_eq_true_iff,Int32.lt_iff_toInt_lt,htoInt,Bool.and_eq_true,
    decide_eq_true_iff]
  change signed s (n/64) < 0 ↔ _
  cases s
  · simp only [signed,Bool.false_eq_true,if_false,false_and,iff_false]
    exact Int.not_lt.mpr (Int.natCast_nonneg _)
  · simp only [signed,if_true,true_and]
    omega

theorem sixtyfourths_value {m : Int} (hm : m.natAbs < 2^21) :
    (sixtyfourths (decide (m < 0)) m.natAbs).value=(m : ℚ)/64 ↔ KeepsValue m := by
  have hmagnitude := sixtyfourths_magnitude (decide (m < 0)) hm
  have hnegative := sixtyfourths_negative (decide (m < 0)) hm
  have hnonneg := (sixtyfourths (decide (m < 0)) m.natAbs).magnitude_nonneg
  rw [Numeral.value,hnegative,KeepsValue,← hmagnitude]
  generalize (sixtyfourths (decide (m < 0)) m.natAbs).magnitude=q at hnonneg ⊢
  obtain ⟨n,rfl | rfl⟩ := m.eq_nat_or_neg
  · have hsign : ¬((n : Int) < 0) := by omega
    have hnot : ¬(-64 < (n : Int) ∧ (n : Int) < 0) := fun h => hsign h.2
    rw [and_iff_right hnot]
    simp only [hsign,decide_false,Bool.false_and,Bool.false_eq_true,if_false,Int.natAbs_natCast,
      Int.cast_natCast]
  · rw [Int.natAbs_neg,Int.natAbs_natCast,Int.cast_neg,Int.cast_natCast,neg_div]
    by_cases hlarge : 64 ≤ n
    · have hsign : -(n : Int) < 0 := by omega
      have hnot : ¬(-64 < -(n : Int) ∧ -(n : Int) < 0) := by omega
      rw [and_iff_right hnot]
      simp only [hsign,hlarge,decide_true,Bool.and_self,if_true,neg_inj]
    · by_cases hzero : n=0
      · subst hzero
        simp
      · -- a number above zero stands where one below was asked for
        have hbetween : -64 < -(n : Int) ∧ -(n : Int) < 0 := by omega
        have hpos : (0 : ℚ) < n := by exact_mod_cast Nat.pos_of_ne_zero hzero
        simp only [hlarge,decide_false,Bool.and_false,Bool.false_eq_true,if_false]
        refine iff_of_false ?_ (fun h => h.1 hbetween)
        intro h
        have hdiv : (0 : ℚ) < n/64 := by positivity
        rw [h] at hnonneg
        exact absurd hnonneg (not_le.mpr (neg_neg_of_pos hdiv))

theorem floatText_sixtyfourths (hp : 24 ≤ g.precision) (hs : 6 ≤ g.scale) (hn : n < 2^21)
    (hv : v.value=some ((signed s n : ℚ)/2^6)) : floatText g v=(sixtyfourths s n).text := by
  have hpart := (fractionDigits_exact (n%64) (Nat.mod_lt n (by decide))).1
  rw [floatText,fractionPart_sixtyfourths hp hs hn hv,castInt_sixtyfourths hn hv,sixtyfourths,
    floatNumeral_text _ hpart]
  rfl

theorem FltEval.format_exact (e : FltEval) : 24 ≤ e.format.precision ∧ 6 ≤ e.format.scale := by
  cases e <;> decide

/-- The text behind the comma is a number with the value of the argument. -/
theorem jsonWriteFloat_exact {size : Nat} (e : FltEval) {v : Binary32} {m : Int}
    (hm : m.natAbs < 64*32768) (hv : v.value=some ((m : ℚ)/64)) (w : Writer size)
    (hok : (jsonWriteFloat e.format v w).2=true) :
    (∃ n : Numeral,(jsonWriteFloat e.format v w).1.text=w.text++(comma w.needsComma++n.text) ∧
      n.value=(m : ℚ)/64) ↔ KeepsValue m := by
  obtain ⟨hp,hs⟩ := e.format_exact
  have hsigned : v.value=some ((signed (decide (m < 0)) m.natAbs : ℚ)/2^6) := by
    rw [signed_natAbs,hv]
    norm_num
  have htext := (writes_float e.format v w).text hok
  rw [floatText_sixtyfourths hp hs hm hsigned] at htext
  rw [htext,← sixtyfourths_value hm]
  constructor
  · intro h
    obtain ⟨n,hn,hvalue⟩ := h
    have hsame := List.append_cancel_left (List.append_cancel_left hn)
    rwa [Numeral.text_injective hsame]
  · intro h
    exact ⟨_,rfl,h⟩

theorem floatText_length (g : Format) (v : Binary32) : (floatText g v).length ≤ 23 := by
  have hi := intText_length (castInt v)
  have hk := intText_length (trimZeros 10 (fractionPart g v (castInt v)))
  rw [floatText,List.length_append,List.length_cons]
  omega

theorem jsonWriteFloat_fits {size : Nat} (g : Format) (v : Binary32) {w : Writer size}
    (hw : w.offset+24 < size) : (jsonWriteFloat g v w).2=true := by
  have hlen := floatText_length g v
  have hcomma := comma_length w.needsComma
  apply (writes_float g v w).fits
  rw [List.length_append]
  omega

theorem two_pow_representable {k : Nat} (hk : k ≤ 149) : binary32.Representable (2^k) := by
  refine ⟨⟨1,k,by decide,(Nat.one_mul _).symm⟩,?_⟩
  have hpow : 2^k ≤ 2^149 := Nat.pow_le_pow_right Nat.two_pos hk
  have hlargest : 2^149 ≤ binary32.largest := by decide
  omega

theorem quarter_representable : binary32.Representable (2^147) := two_pow_representable (by decide)

theorem sixtyfourth_representable : binary32.Representable (2^143) :=
  two_pow_representable (by decide)

def quarter : Binary32 := .finite false ⟨2^147,quarter_representable⟩

def sixtyfourth : Binary32 := .finite false ⟨2^143,sixtyfourth_representable⟩

theorem sixtyfourth_value : sixtyfourth.value=some (((1 : Int) : ℚ)/64) := by
  rw [sixtyfourth,Number.value]
  norm_num [signed,binary32]

theorem quarter_exact :
    let w : Writer 32 := jsonWriterInit (.zero 32)
    (∃ n : Numeral,
      (jsonWriteFloat binary64 quarter w).1.text=w.text++(comma w.needsComma++n.text) ∧
        n.value=((16 : Int) : ℚ)/64) ↔ KeepsValue 16 := by
  have hvalue : quarter.value=some (((16 : Int) : ℚ)/64) := by
    rw [quarter,Number.value]
    norm_num [signed,binary32]
  have hok : (jsonWriteFloat binary64 quarter (jsonWriterInit (.zero 32))).2=true :=
    jsonWriteFloat_fits _ _ (by decide)
  exact jsonWriteFloat_exact .double (by decide) hvalue _ hok

theorem sixtyfourth_misprinted :
    let w : Writer 32 := jsonWriterInit (.zero 32)
    sixtyfourth.value=some (((1 : Int) : ℚ)/64) ∧ (jsonWriteFloat binary32 sixtyfourth w).2=true ∧
      (jsonWriteFloat binary32 sixtyfourth w).1.text=cstr "0.15625" ∧
      ∀ n : Numeral,n.text=cstr "0.15625" → n.value≠((1 : Int) : ℚ)/64 := by
  have hok : (jsonWriteFloat binary32 sixtyfourth (jsonWriterInit (.zero 32))).2=true :=
    jsonWriteFloat_fits _ _ (by decide)
  have hsigned : sixtyfourth.value=some ((signed false 1 : ℚ)/2^6) := by
    rw [sixtyfourth_value]
    norm_num [signed]
  have hfloat := floatText_sixtyfourths (g := binary32) (by decide) (by decide) (by decide) hsigned
  have hnumeral : (sixtyfourths false 1).text=cstr "0.15625" := by
    rw [cstr_ofList]
    decide
  have htext := (writes_float binary32 sixtyfourth _).text hok
  rw [hfloat,hnumeral] at htext
  refine ⟨sixtyfourth_value,hok,htext,?_⟩
  intro n hn
  rw [← hnumeral] at hn
  rw [Numeral.text_injective hn]
  intro hvalue
  have hkeeps := (sixtyfourths_value (m := 1) (by decide)).mp hvalue
  rw [KeepsValue] at hkeeps
  omega

end Cllm.Json
