import Cllm.Json.Rendering

namespace Cllm.Json

open Ieee754

variable {g : Format} {v : Binary32} {c : Nat}

theorem castInt_quotient {f : Format} {x : Number f} {i : Int} {k : Nat}
    (h : x.value=some ((i : ℚ)/2^k)) (hi : (i.tdiv (2^k)).natAbs < 2^31) :
    castInt x=Int32.ofInt (i.tdiv (2^k)) := by
  rw [castInt,Number.truncate_quotient h]
  apply if_pos
  constructor
  · omega
  · omega

theorem castInt_fraction {f : Format} {x : Number f} {k : Nat} (h : x.value=some ((c : ℚ)/2^k))
    (hc : c/2^k < 2^31) : castInt x=Int32.ofInt ((c/2^k : Nat) : Int) := by
  have hdiv : ((c : Int).tdiv (2^k))=((c/2^k : Nat) : Int) := by
    push_cast
    rfl
  rw [← Int.cast_natCast] at h
  rw [castInt_quotient h (by rw [hdiv,Int.natAbs_natCast]; exact hc),hdiv]

/-- The product that is cast to `int`, in a format that has it. -/
theorem product_value (hp : 47 ≤ g.precision) (hs : 27 ≤ g.scale) (hc : c < 2^27)
    (hv : v.value=some ((c : ℚ)/2^27)) :
    ((v.convert g+ -Number.ofInt g 0)*Number.ofInt g 1000000).value=
      some (((c*1000000 : Nat) : ℚ)/2^27) := by
  have hwide : 2^47 ≤ 2^g.precision := Nat.pow_le_pow_right Nat.two_pos hp
  have hconvert := Number.value_convert hv (has_fraction (f := g) (by omega) hs)
  have hzero : (-Number.ofInt g 0).value=some (-((0 : Int) : ℚ)) :=
    Number.value_neg (Number.value_ofInt (Nat.two_pow_pos _))
  have hmillion : (Number.ofInt g 1000000).value=some ((1000000 : Int) : ℚ) :=
    Number.value_ofInt (by change 1000000 < 2^g.precision; omega)
  have hsum : (c : ℚ)/2^27+ -((0 : Int) : ℚ)=(c : ℚ)/2^27 := by simp
  have hproduct : (c : ℚ)/2^27*((1000000 : Int) : ℚ)=((c*1000000 : Nat) : ℚ)/2^27 := by
    push_cast
    ring
  have hadd := Number.value_add hconvert hzero (by
    rw [hsum]
    exact has_fraction (by omega) hs)
  rw [hsum] at hadd
  have hmul := Number.value_mul hadd hmillion (by
    rw [hproduct]
    exact has_fraction (by omega) hs)
  rwa [hproduct] at hmul

theorem fractionPart_exact (hp : 47 ≤ g.precision) (hs : 27 ≤ g.scale) (hc : c < 2^27)
    (hv : v.value=some ((c : ℚ)/2^27)) :
    castInt v=0 ∧ fractionPart g v 0=Int32.ofInt ((c*1000000/2^27 : Nat) : Int) := by
  have hint := castInt_fraction hv (by omega)
  rw [Nat.div_eq_of_lt hc] at hint
  refine ⟨hint,?_⟩
  have hsmall : c*1000000/2^27 < 1000000 := by omega
  have hcast := castInt_fraction (product_value hp hs hc hv) (by omega)
  have hpos : ¬Int32.ofInt ((c*1000000/2^27 : Nat) : Int) < 0 := by
    rw [Int32.lt_iff_toInt_lt,Int32.toInt_ofInt_of_le (by omega) (by omega)]
    exact Int.not_lt.mpr (Int.natCast_nonneg _)
  have hzero : (0 : Int32).toInt=0 := rfl
  rw [fractionPart,hzero]
  simp only [hcast,if_neg hpos]

theorem extended_range : 16445 ≤ 32765 := by decide

/-- The registers of the x87. -/
def extended : Format := ⟨64,16445,32765,Nat.succ_pos 63,extended_range⟩

/-- FLT_EVAL_METHOD. -/
inductive FltEval where
  | float | double | longDouble
  deriving DecidableEq

def FltEval.format : FltEval → Format
  | .float => binary32
  | .double => binary64
  | .longDouble => extended

/-- `n`/10 as a `float`, in units of 2^-27. -/
def tenth (n : Nat) : Nat := binary32.nearest (n*2^149) (10^1)/2^122

theorem tenth_exact : ∀ n∈[1,2,3,4,5,6,7,8],binary32.nearest (n*2^149) (10^1)=tenth n*2^122 ∧
    tenth n*2^122 ≤ binary32.largest ∧ tenth n < 2^27 := by decide

theorem tenth_fraction : ∀ n∈[1,2,3,4,5,6,7,8],
    Int32.ofInt ((tenth n*1000000/2^27 : Nat) : Int)≠0 ∧
      ¬trimZeros 10 (Int32.ofInt ((tenth n*1000000/2^27 : Nat) : Int)) < 0 := by decide

theorem tenth_float : ∀ n∈[1,2,3,4,5,6,7,8],Fractional binary32 (.decimal binary32 n 1) := by
  decide

theorem tenth_value {n : Nat} (hn : n∈[1,2,3,4,5,6,7,8]) :
    (Number.decimal binary32 n 1).value=some ((tenth n : ℚ)/2^27) := by
  obtain ⟨hnearest,hle,-⟩ := tenth_exact n hn
  have hround : binary32.nearest (n*2^149) (10^1) ≤ binary32.largest := by rwa [hnearest]
  have hscale : ((2 : ℚ)^149)=2^122*2^27 := by norm_num
  change (Number.round binary32 false (n*2^149) (10^1)).value=_
  rw [Number.round,dif_pos hround,Number.value]
  simp only [signed,Bool.false_eq_true,if_false,hnearest]
  change some ((((tenth n*2^122 : Nat) : Int) : ℚ)/2^149)=_
  have hpos : ((2 : ℚ)^122)≠0 := two_pow_ne_zero 122
  rw [hscale,Int.cast_natCast,Nat.cast_mul,Nat.cast_pow,Nat.cast_ofNat,mul_comm (2^122 : ℚ) (2^27),
    mul_div_mul_right _ _ hpos]

theorem fractional_tenth (e : FltEval) {n : Nat} (hn : n∈[1,2,3,4,5,6,7,8]) :
    Fractional e.format (.decimal binary32 n 1) := by
  have hwide : ∀ g : Format,47 ≤ g.precision → 27 ≤ g.scale →
      Fractional g (.decimal binary32 n 1) := by
    intro g hp hs
    obtain ⟨hint,hpart⟩ := fractionPart_exact hp hs (tenth_exact n hn).2.2 (tenth_value hn)
    obtain ⟨hne,htrim⟩ := tenth_fraction n hn
    rw [Fractional,hint,hpart]
    exact ⟨rfl,hne,htrim⟩
  cases e with
  | float => exact tenth_float n hn
  | double => exact hwide binary64 (by decide) (by decide)
  | longDouble => exact hwide extended (by decide) (by decide)

end Cllm.Json
