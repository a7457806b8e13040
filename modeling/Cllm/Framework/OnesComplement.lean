import Mathlib.Data.List.Basic
import Mathlib.Algebra.BigOperators.Group.List.Basic
import Mathlib.Algebra.GroupWithZero.Nat

namespace Cllm.OnesComplement

/-- The words with the first byte low, an odd last byte padded with zero. -/
def littleWords : List UInt8 → List Nat
  | a::b::rest => (a.toNat+256*b.toNat)::littleWords rest
  | [a] => [a.toNat]
  | [] => []

/-- The words in network order, an odd last byte padded with zero. -/
def bigWords : List UInt8 → List Nat
  | a::b::rest => (256*a.toNat+b.toNat)::bigWords rest
  | [a] => [256*a.toNat]
  | [] => []

def addCarry (x y : Nat) : Nat := if 65536 ≤ x+y then x+y-65535 else x+y

def onesSum (ws : List Nat) : Nat := ws.foldl addCarry 0

theorem bigWords_lt (s : List UInt8) : ∀ w∈bigWords s,w < 65536 := by
  induction s using bigWords.induct with
  | case1 a b rest ih =>
    intro w hw
    have ha := a.toNat_lt
    have hb := b.toNat_lt
    rw [bigWords,List.mem_cons] at hw
    obtain rfl | hw := hw
    · omega
    · exact ih w hw
  | case2 a =>
    intro w hw
    have ha := a.toNat_lt
    rw [bigWords,List.mem_singleton] at hw
    omega
  | case3 => simp [bigWords]

theorem littleWords_append {s : List UInt8} (hs : s.length%2=0) (t : List UInt8) :
    littleWords (s++t)=littleWords s++littleWords t := by
  induction s using littleWords.induct with
  | case1 a b rest ih =>
    have hrest : rest.length%2=0 := by
      simp only [List.length_cons] at hs
      omega
    simp [littleWords,ih hrest]
  | case2 a => simp at hs
  | case3 => rfl

theorem littleWords_sum_le (s : List UInt8) : (littleWords s).sum ≤ 65535*s.length := by
  induction s using littleWords.induct with
  | case1 a b rest ih =>
    have ha := a.toNat_lt
    have hb := b.toNat_lt
    simp only [littleWords,List.sum_cons,List.length_cons]
    omega
  | case2 a =>
    have ha := a.toNat_lt
    simp only [littleWords,List.sum_singleton,List.length_singleton]
    omega
  | case3 => simp [littleWords]

/-- Swapping the bytes of a word multiplies it by 256 modulo 65535. -/
theorem bigWords_sum_mod (s : List UInt8) :
    (bigWords s).sum%65535=256*(littleWords s).sum%65535 := by
  induction s using bigWords.induct with
  | case1 a b rest ih =>
    simp only [bigWords,littleWords,List.sum_cons]
    omega
  | case2 a => simp [bigWords,littleWords]
  | case3 => rfl

theorem littleWords_sum_le_bigWords (s : List UInt8) :
    (littleWords s).sum ≤ 256*(bigWords s).sum := by
  induction s using bigWords.induct with
  | case1 a b rest ih =>
    simp only [bigWords,littleWords,List.sum_cons]
    omega
  | case2 a =>
    simp only [bigWords,littleWords,List.sum_singleton]
    omega
  | case3 => simp [bigWords,littleWords]

/-- End-around carry keeps the sum modulo 65535, and only nothing sums to zero. -/
theorem foldl_addCarry {ws : List Nat} (hw : ∀ w∈ws,w < 65536) {x : Nat} (hx : x < 65536) :
    ws.foldl addCarry x < 65536 ∧ (ws.foldl addCarry x)%65535=(x+ws.sum)%65535 ∧
      (ws.foldl addCarry x=0 → x+ws.sum=0) := by
  induction ws generalizing x with
  | nil => simp [hx]
  | cons w ws ih =>
    rw [List.forall_mem_cons] at hw
    have hstep : addCarry x w < 65536 ∧ (addCarry x w)%65535=(x+w)%65535 ∧
        (addCarry x w=0 → x+w=0) := by
      unfold addCarry
      split_ifs <;> omega
    obtain ⟨hlt,hmod,hzero⟩ := hstep
    obtain ⟨hlt',hmod',hzero'⟩ := ih hw.2 hlt
    rw [List.foldl_cons,List.sum_cons]
    refine ⟨hlt',?_,?_⟩
    · rw [hmod']
      omega
    · intro h
      have h' := hzero' h
      have hx' := hzero (by omega)
      omega

theorem onesSum_eq {ws : List Nat} (hw : ∀ w∈ws,w < 65536) (hmod : ws.sum%65535=0)
    (hpos : ws.sum≠0) : onesSum ws=65535 := by
  obtain ⟨hlt,hm,hz⟩ := foldl_addCarry hw (x := 0) (by omega)
  have hne : ws.foldl addCarry 0≠0 := by
    intro h
    apply hpos
    have h' := hz h
    omega
  unfold onesSum
  omega

/-- The order of the bytes does not matter to a sum that comes out as all ones. -/
theorem onesSum_bigWords {s : List UInt8} (hmod : (littleWords s).sum%65535=0)
    (hpos : (littleWords s).sum≠0) : onesSum (bigWords s)=65535 := by
  have hb := bigWords_sum_mod s
  have hle := littleWords_sum_le_bigWords s
  apply onesSum_eq (bigWords_lt s)
  · omega
  · omega

end Cllm.OnesComplement
