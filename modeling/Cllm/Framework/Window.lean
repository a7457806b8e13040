import Mathlib.Data.List.DropRight

namespace Cllm.Window

variable {α : Type} {k : Nat}

/-- A window for `k` elements that `x` enters; the oldest one leaves a full window. -/
def slide (k : Nat) (w : List α) (x : α) : List α :=
  if w.length < k then w++[x] else w.tail++[x]

theorem length_rtake (l : List α) (k : Nat) : (l.rtake k).length=min k l.length := by
  rw [List.rtake,List.length_drop]
  omega

theorem rtake_of_length_le {l : List α} (h : l.length ≤ k) : l.rtake k=l := by
  rw [List.rtake,Nat.sub_eq_zero_of_le h,List.drop_zero]

/-- What `k` counts beyond the history does not matter. -/
theorem rtake_min (l : List α) (k : Nat) : l.rtake (min k l.length)=l.rtake k := by
  have hsub : l.length-min k l.length=l.length-k := by omega
  rw [List.rtake,List.rtake,hsub]

/-- The window stays the end of the history. -/
theorem slide_rtake (hk : 0 < k) (l : List α) (x : α) :
    slide k (l.rtake k) x=(l++[x]).rtake k := by
  obtain ⟨m,rfl⟩ := Nat.exists_eq_add_of_lt hk
  rw [Nat.zero_add,List.rtake_concat_succ,slide,length_rtake]
  by_cases hfull : l.length < m+1
  · rw [if_pos (by omega),rtake_of_length_le (by omega),rtake_of_length_le (by omega)]
  · have hsub : l.length-(m+1)+1=l.length-m := by omega
    rw [if_neg (by omega),List.rtake,List.rtake,List.tail_drop,hsub]

end Cllm.Window
