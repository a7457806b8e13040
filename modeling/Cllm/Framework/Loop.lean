import Mathlib.Data.UInt
import Mathlib.Order.Basic

namespace Cllm.Loop

variable {σ : Type} {bound first i : UInt8} {s : σ}

theorem toNat_succ (h : i < bound) : (i+1).toNat=i.toNat+1 := by
  have hlt : i.toNat < bound.toNat := h
  have hb := bound.toNat_lt
  have hone : (1 : UInt8).toNat=1 := rfl
  rw [UInt8.toNat_add,hone,Nat.mod_eq_of_lt (by omega)]

/-- for (uint8_t i = first; i < bound; i++): a turn that is done has left by a break. -/
def counted (bound : UInt8) (body : UInt8 → σ → ForInStep σ) (first : UInt8) (s : σ) : σ :=
  if first < bound then
    match body first s with
    | .yield s => counted bound body (first+1) s
    | .done s => s
  else s
termination_by bound.toNat-first.toNat
decreasing_by
  -- below the bound the byte does not wrap
  have h : first < bound := ‹_›
  have hlt : first.toNat < bound.toNat := h
  rw [toNat_succ h]
  omega

/-- The values that the byte takes. -/
def counters (first bound : UInt8) : List UInt8 :=
  (List.range' first.toNat (bound.toNat-first.toNat)).map UInt8.ofNat

theorem counters_cons (h : first < bound) :
    counters first bound=first::counters (first+1) bound := by
  have hlt : first.toNat < bound.toNat := h
  have hlen : bound.toNat-first.toNat=bound.toNat-(first.toNat+1)+1 := by omega
  rw [counters,counters,toNat_succ h,hlen,List.range'_succ,List.map_cons,UInt8.ofNat_toNat]

theorem counters_nil (h : ¬first < bound) : counters first bound=[] := by
  have hle : ¬first.toNat < bound.toNat := h
  rw [counters,Nat.sub_eq_zero_of_le (Nat.le_of_not_lt hle)]
  rfl

theorem mem_counters : i∈counters first bound ↔ first ≤ i ∧ i < bound := by
  have hb := bound.toNat_lt
  have hi := i.toNat_lt
  rw [counters,List.mem_map,UInt8.le_iff_toNat_le,UInt8.lt_iff_toNat_lt]
  constructor
  · rintro ⟨n,hn,rfl⟩
    rw [List.mem_range'_1] at hn
    rw [UInt8.toNat_ofNat',Nat.mod_eq_of_lt (by omega)]
    omega
  · intro h
    refine ⟨i.toNat,?_,UInt8.ofNat_toNat⟩
    rw [List.mem_range'_1]
    omega

theorem pairwise_counters (first bound : UInt8) : (counters first bound).Pairwise (· < ·) := by
  have hb := bound.toNat_lt
  rw [counters,List.pairwise_map]
  refine (List.pairwise_lt_range' 1).imp_of_mem ?_
  intro n m hn hm hlt
  rw [List.mem_range'_1] at hn hm
  rw [UInt8.lt_iff_toNat_lt,UInt8.toNat_ofNat',UInt8.toNat_ofNat',Nat.mod_eq_of_lt (by omega),
    Nat.mod_eq_of_lt (by omega)]
  exact hlt

/-- A loop without a break goes through all of them. -/
theorem counted_yield {body : UInt8 → σ → ForInStep σ} {f : σ → UInt8 → σ}
    (h : ∀ i s,first ≤ i → i < bound → body i s=.yield (f s i)) :
    counted bound body first s=(counters first bound).foldl f s := by
  fun_induction counted bound body first s with
  | case1 first s hlt t ht ih =>
    have hstep := h first s (UInt8.le_refl first) hlt
    rw [ht] at hstep
    injection hstep with hstep
    rw [counters_cons hlt,List.foldl_cons,← hstep]
    apply ih
    intro i s hi hb
    refine h i s ?_ hb
    rw [UInt8.le_iff_toNat_le] at hi ⊢
    rw [toNat_succ hlt] at hi
    omega
  | case2 first s hlt t ht =>
    rw [h first s (UInt8.le_refl first) hlt] at ht
    cases ht
  | case3 first s hlt =>
    rw [counters_nil hlt]
    rfl

end Cllm.Loop
