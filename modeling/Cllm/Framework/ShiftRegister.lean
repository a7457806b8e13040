import Mathlib.Data.List.Basic
import Mathlib.Logic.Function.Iterate

namespace Cllm.ShiftRegister

variable {w k : Nat} {p : BitVec w}

/-- One shift: `p` is added when a bit falls out. -/
def step (p x : BitVec w) : BitVec w := if x.getLsbD 0 then (x>>>1)^^^p else x>>>1

/-- A word is added to the low end and shifted in. -/
def feed (p x : BitVec w) (b : BitVec k) : BitVec w := (step p)^[k] (x^^^b.setWidth w)

def run (p x : BitVec w) (bs : List (BitVec k)) : BitVec w := bs.foldl (feed p) x

theorem step_xor (p x y : BitVec w) : step p (x^^^y)=step p x^^^step p y := by
  simp only [step,BitVec.getLsbD_xor,BitVec.ushiftRight_xor_distrib]
  have hswap (a b : BitVec w) : a^^^p^^^(b^^^p)=a^^^b := by
    rw [BitVec.xor_comm b p,BitVec.xor_assoc,← BitVec.xor_assoc p p b,BitVec.xor_self,
      BitVec.zero_xor]
  cases x.getLsbD 0 with
  | false =>
    cases y.getLsbD 0 with
    | false => rfl
    | true => exact BitVec.xor_assoc _ _ _
  | true =>
    cases y.getLsbD 0 with
    | false =>
      change x>>>1^^^y>>>1^^^p=x>>>1^^^p^^^y>>>1
      rw [BitVec.xor_assoc,BitVec.xor_assoc,BitVec.xor_comm (y>>>1) p]
    | true => exact (hswap _ _).symm

theorem step_iterate_xor (p x y : BitVec w) (n : Nat) :
    (step p)^[n] (x^^^y)=(step p)^[n] x^^^(step p)^[n] y := by
  induction n generalizing x y with
  | zero => rfl
  | succ n ih => rw [Function.iterate_succ_apply,step_xor,ih]; rfl

/-- Only the empty register is emptied by a shift, when `p` has the bit that shifts in zeros. -/
theorem step_eq_zero (hp : p.getLsbD (w-1)=true) {x : BitVec w} (h : step p x=0) : x=0 := by
  rw [step] at h
  have hpos : w-1 < w := by
    by_contra hle
    rw [BitVec.getLsbD_of_ge p (w-1) (by omega)] at hp
    cases hp
  by_cases hlow : x.getLsbD 0=true
  · rw [if_pos hlow] at h
    have htop := congrArg (fun y => y.getLsbD (w-1)) h
    simp only [BitVec.getLsbD_xor,BitVec.getLsbD_ushiftRight,hp] at htop
    rw [BitVec.getLsbD_of_ge x (1+(w-1)) (by omega)] at htop
    simp at htop
  · rw [if_neg hlow] at h
    apply BitVec.eq_of_getLsbD_eq
    intro i hi
    cases i with
    | zero => simpa using hlow
    | succ i =>
      have hbit := congrArg (fun y => y.getLsbD i) h
      simp only [BitVec.getLsbD_ushiftRight] at hbit
      rw [Nat.add_comm i 1,hbit]
      simp

theorem step_injective (hp : p.getLsbD (w-1)=true) : Function.Injective (step p) := by
  intro x y h
  have hzero : step p (x^^^y)=0 := by
    rw [step_xor,h]
    exact BitVec.xor_self
  have hxor := step_eq_zero hp hzero
  calc
    x=x^^^y^^^y := by rw [BitVec.xor_assoc,BitVec.xor_self,BitVec.xor_zero]
    _=y := by rw [hxor]; exact BitVec.zero_xor

theorem feed_injective (hp : p.getLsbD (w-1)=true) (b : BitVec k) :
    Function.Injective (feed p · b) := by
  intro x y h
  exact (BitVec.xor_left_inj _).mp ((step_injective hp).iterate k h)

theorem run_injective (hp : p.getLsbD (w-1)=true) (bs : List (BitVec k)) :
    Function.Injective (run p · bs) := by
  induction bs with
  | nil => exact fun _ _ h => h
  | cons b bs ih => exact fun _ _ h => feed_injective hp b (ih h)

/-- The words side by side, the first one low. -/
def word (w : Nat) : List (BitVec k) → BitVec w
  | [] => 0
  | b::bs => b.setWidth w^^^word w bs<<<k

theorem word_high (bs : List (BitVec k)) {i : Nat} (hi : bs.length*k ≤ i) :
    (word w bs).getLsbD i=false := by
  induction bs generalizing i with
  | nil => simp [word]
  | cons b bs ih =>
    rw [List.length_cons,Nat.add_mul] at hi
    rw [word,BitVec.getLsbD_xor,BitVec.getLsbD_setWidth,BitVec.getLsbD_shiftLeft,
      BitVec.getLsbD_of_ge b i (by omega),ih (by omega)]
    simp

theorem word_injective {bs cs : List (BitVec k)} (hlen : bs.length=cs.length)
    (hfits : bs.length*k ≤ w) (h : word w bs=word w cs) : bs=cs := by
  induction bs generalizing cs with
  | nil => exact (List.length_eq_zero_iff.mp hlen.symm).symm
  | cons b bs ih =>
    obtain _ | ⟨c,cs⟩ := cs
    · cases hlen
    · have htail : bs.length=cs.length := Nat.succ.inj hlen
      rw [List.length_cons,Nat.add_mul] at hfits
      have hbit (i : Nat) := congrArg (fun y => y.getLsbD i) h
      simp only [word,BitVec.getLsbD_xor,BitVec.getLsbD_setWidth,BitVec.getLsbD_shiftLeft] at hbit
      have hhead : b=c := by
        apply BitVec.eq_of_getLsbD_eq
        intro i hi
        have hlow := hbit i
        have hw : i < w := by omega
        simpa [hi,hw] using hlow
      have hrest : word w bs=word w cs := by
        apply BitVec.eq_of_getLsbD_eq
        intro i hi
        by_cases hin : i < bs.length*k
        · have hhigh := hbit (k+i)
          have hw : k+i < w := by omega
          have hk : ¬k+i < k := by omega
          rw [BitVec.getLsbD_of_ge b (k+i) (by omega),
            BitVec.getLsbD_of_ge c (k+i) (by omega)] at hhigh
          simpa [hw,hk] using hhigh
        · rw [word_high bs (by omega),word_high cs (by rw [← htail]; omega)]
      rw [hhead,ih htail (by omega) hrest]

/-- What has only zeros shifted out moves down. -/
theorem step_iterate_shiftLeft (p : BitVec w) {y : BitVec w} {n : Nat}
    (h : ∀ i,w-n ≤ i → y.getLsbD i=false) : (step p)^[n] (y<<<n)=y := by
  induction n with
  | zero => simp
  | succ n ih =>
    have hlow : (y<<<(n+1)).getLsbD 0=false := by simp
    have hdown : (y<<<(n+1))>>>1=y<<<n := by
      apply BitVec.eq_of_getLsbD_eq
      intro i hi
      simp only [BitVec.getLsbD_ushiftRight,BitVec.getLsbD_shiftLeft]
      by_cases htop : 1+i < w
      · have hi' : 1+i-(n+1)=i-n := by omega
        have hn : 1+i < n+1 ↔ i < n := by omega
        simp [htop,hi,hi',hn]
      · rw [h (i-n) (by omega)]
        simp [htop]
    have hstep : step p (y<<<(n+1))=y<<<n := by
      rw [step,hlow,hdown]
      rfl
    rw [Function.iterate_succ_apply,hstep]
    apply ih
    intro i hi
    exact h i (by omega)

/-- Words that fit the register are shifted in as one. -/
theorem run_word (p x : BitVec w) (bs : List (BitVec k)) (hfits : bs.length*k ≤ w) :
    run p x bs=(step p)^[bs.length*k] (x^^^word w bs) := by
  induction bs generalizing x with
  | nil => simp [run,word]
  | cons b bs ih =>
    rw [List.length_cons,Nat.add_mul,Nat.one_mul] at hfits
    have hmoved : (step p)^[k] (word w bs<<<k)=word w bs := by
      apply step_iterate_shiftLeft
      intro i hi
      exact word_high bs (by omega)
    change run p (feed p x b) bs=_
    calc
      run p (feed p x b) bs=(step p)^[bs.length*k] (feed p x b^^^word w bs) := ih _ (by omega)
      _=(step p)^[bs.length*k] ((step p)^[k] (x^^^b.setWidth w^^^word w bs<<<k)) := by
        rw [step_iterate_xor _ (x^^^b.setWidth w) _ k,hmoved,feed]
      _=(step p)^[(bs.length+1)*k] (x^^^word w (b::bs)) := by
        rw [← Function.iterate_add_apply,BitVec.xor_assoc,Nat.add_mul,Nat.one_mul]
        rfl

/-- A change within a register's width is not lost. -/
theorem run_burst_ne (hp : p.getLsbD (w-1)=true) (x : BitVec w) {bs cs : List (BitVec k)}
    (hlen : bs.length=cs.length) (hfits : bs.length*k ≤ w) (hne : bs≠cs)
    (before after : List (BitVec k)) :
    run p x (before++bs++after)≠run p x (before++cs++after) := by
  intro h
  simp only [run,List.foldl_append] at h
  have hinner := run_injective hp after h
  change run p (run p x before) bs=run p (run p x before) cs at hinner
  rw [run_word _ _ bs hfits,run_word _ _ cs (hlen ▸ hfits),← hlen] at hinner
  have hxor := (step_injective hp).iterate _ hinner
  exact hne (word_injective hlen hfits ((BitVec.xor_right_inj _).mp hxor))

end Cllm.ShiftRegister
