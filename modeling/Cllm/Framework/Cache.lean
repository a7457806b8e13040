import Mathlib.Data.List.Basic
import Mathlib.Logic.Function.Basic

namespace Cllm.Cache

/-- Fixed places, each of them empty or holding a key with its value. -/
abbrev Slots (ι κ ν : Type*) := ι → Option (κ × ν)

variable {ι κ ν : Type*}

/-- A key is in one place at most. -/
def Distinct (c : Slots ι κ ν) : Prop :=
  ∀ i j k v w,c i=some (k,v) → c j=some (k,w) → i=j

/-- The place `i` may take the key `k`: no other place holds it. -/
def Admits (c : Slots ι κ ν) (i : ι) (k : κ) : Prop := ∀ j v,c j=some (k,v) → j=i

section Put

variable [DecidableEq ι] {c : Slots ι κ ν} {i : ι} {k : κ}

def put (c : Slots ι κ ν) (i : ι) (k : κ) (v : ν) : Slots ι κ ν :=
  Function.update c i (some (k,v))

@[simp] theorem put_self (c : Slots ι κ ν) (i : ι) (k : κ) (v : ν) : put c i k v i=some (k,v) :=
  Function.update_self ..

theorem put_of_ne {i j : ι} (c : Slots ι κ ν) (k : κ) (v : ν) (h : j≠i) : put c i k v j=c j :=
  Function.update_of_ne h ..

theorem put_cases {j : ι} {k' : κ} {v v' : ν} (h : put c i k v j=some (k',v')) :
    (j=i ∧ k'=k ∧ v'=v) ∨ (j≠i ∧ c j=some (k',v')) := by
  by_cases hj : j=i
  · subst hj
    rw [put_self] at h
    simp only [Option.some.injEq,Prod.mk.injEq] at h
    exact .inl ⟨rfl,h.1.symm,h.2.symm⟩
  · rw [put_of_ne c k v hj] at h
    exact .inr ⟨hj,h⟩

theorem Distinct.put (hc : Distinct c) (ha : Admits c i k) (v : ν) : Distinct (put c i k v) := by
  intro a b k' x y hx hy
  obtain ⟨ha',hk,-⟩ | ⟨-,hx'⟩ := put_cases hx
  · obtain ⟨hb,-,-⟩ | ⟨-,hy'⟩ := put_cases hy
    · exact ha'.trans hb.symm
    · rw [hk] at hy'
      exact ha'.trans (ha b y hy').symm
  · obtain ⟨hb,hk,-⟩ | ⟨-,hy'⟩ := put_cases hy
    · rw [hk] at hx'
      exact (ha a x hx').trans hb.symm
    · exact hc a b k' x y hx' hy'

end Put

section Latest

variable [DecidableEq κ]

/-- The value a key got last in a log of assignments. -/
def latest (k : κ) (log : List (κ × ν)) : Option ν :=
  (log.filter fun e => e.1=k).getLast?.map Prod.snd

theorem latest_concat_self (k : κ) (v : ν) (log : List (κ × ν)) :
    latest k (log++[(k,v)])=some v := by simp [latest]

theorem latest_concat_of_ne {k k' : κ} (v : ν) (log : List (κ × ν)) (h : k'≠k) :
    latest k (log++[(k',v)])=latest k log := by simp [latest,h]

/-- What is held is never older than the log. -/
def Fresh (c : Slots ι κ ν) (log : List (κ × ν)) : Prop :=
  ∀ i k v,c i=some (k,v) → latest k log=some v

/-- An assignment that is also logged leaves nothing stale behind, evictions included. -/
theorem Fresh.put [DecidableEq ι] {c : Slots ι κ ν} {log : List (κ × ν)} {i : ι} {k : κ}
    (hc : Fresh c log) (ha : Admits c i k) (v : ν) : Fresh (put c i k v) (log++[(k,v)]) := by
  intro j k' v' h
  obtain ⟨-,rfl,rfl⟩ | ⟨hj,h⟩ := put_cases h
  · apply latest_concat_self
  · have hk : k≠k' := by
      intro hk
      exact hj (ha j v' (hk ▸ h))
    rw [latest_concat_of_ne v log hk]
    exact hc j k' v' h

end Latest

end Cllm.Cache
