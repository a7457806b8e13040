import Mathlib.Data.List.Basic
import Mathlib.Data.Nat.ModEq

namespace Cllm.RingBuffer

variable {α : Type*} {n : Nat}

/-- `n` cells in a circle hold a queue, from the cell at `head` up to the one before `tail`. -/
structure Holds (n : Nat) (cell : Nat → α) (head tail : Nat) (queue : List α) : Prop where
  head_lt : head < n
  room : queue.length < n
  tail_eq : tail=(head+queue.length)%n
  cells : ∀ j (h : j < queue.length),cell ((head+j)%n)=queue[j]

/-- A cell between `head` and `tail`. -/
def Occupied (n head tail i : Nat) : Prop := ∃ j < (tail+n-head)%n,i=(head+j)%n

theorem wrap_injective {head i j : Nat} (hi : i < n) (hj : j < n)
    (h : (head+i)%n=(head+j)%n) : i=j := by
  have hm : head+i ≡ head+j [MOD n] := h
  have hij := Nat.ModEq.add_left_cancel' head hm
  rw [Nat.ModEq,Nat.mod_eq_of_lt hi,Nat.mod_eq_of_lt hj] at hij
  exact hij

theorem wrap_add (a b : Nat) : (a%n+b)%n=(a+b)%n := by rw [Nat.mod_add_mod]

theorem distance {head k : Nat} (hh : head < n) (hk : k < n) : ((head+k)%n+n-head)%n=k := by
  by_cases hlt : head+k < n
  · have hs : head+k+n-head=k+n := by omega
    rw [Nat.mod_eq_of_lt hlt,hs,Nat.add_mod_right,Nat.mod_eq_of_lt hk]
  · have hn : (head+k)%n=head+k-n := by
      rw [Nat.mod_eq_sub_mod (by omega)]
      exact Nat.mod_eq_of_lt (by omega)
    have hs : head+k-n+n-head=k := by omega
    rw [hn,hs,Nat.mod_eq_of_lt hk]

namespace Holds

variable {cell cell' : Nat → α} {head tail : Nat} {queue : List α}

theorem tail_lt (h : Holds n cell head tail queue) : tail < n := by
  rw [h.tail_eq]
  exact Nat.mod_lt _ (by have := h.head_lt; omega)

/-- The cell at the tail is none of the queue's. -/
theorem tail_ne (h : Holds n cell head tail queue) {j : Nat} (hj : j < queue.length) :
    (head+j)%n≠tail := by
  intro he
  have hroom := h.room
  rw [h.tail_eq] at he
  have := wrap_injective (by omega) hroom he
  omega

theorem occupied_iff (h : Holds n cell head tail queue) {i : Nat} :
    Occupied n head tail i ↔ ∃ j < queue.length,i=(head+j)%n := by
  rw [Occupied,h.tail_eq,distance h.head_lt h.room]

theorem not_occupied (h : Holds n cell head tail queue) : ¬Occupied n head tail tail := by
  intro ho
  obtain ⟨j,hj,he⟩ := h.occupied_iff.mp ho
  exact h.tail_ne hj he.symm

/-- Writes to the cell at the tail leave the queue as it is. -/
theorem frame (h : Holds n cell head tail queue) (hf : ∀ i,i≠tail → cell' i=cell i) :
    Holds n cell' head tail queue where
  head_lt := h.head_lt
  room := h.room
  tail_eq := h.tail_eq
  cells j hj := (hf _ (h.tail_ne hj)).trans (h.cells j hj)

theorem push (h : Holds n cell head tail queue) (hroom : queue.length+1 < n) :
    Holds n cell head ((tail+1)%n) (queue++[cell tail]) where
  head_lt := h.head_lt
  room := by simpa using hroom
  tail_eq := by
    rw [h.tail_eq,wrap_add,List.length_append,List.length_singleton,Nat.add_assoc]
  cells j hj := by
    by_cases hlt : j < queue.length
    · rw [List.getElem_append_left hlt]
      exact h.cells j hlt
    · have hlen : j=queue.length := by
        simp only [List.length_append,List.length_singleton] at hj
        omega
      subst hlen
      rw [← h.tail_eq]
      simp

theorem front {a : α} (h : Holds n cell head tail (a::queue)) : cell head=a := by
  have h0 := h.cells 0 (by simp)
  rw [Nat.add_zero,Nat.mod_eq_of_lt h.head_lt] at h0
  exact h0

theorem pop {a : α} (h : Holds n cell head tail (a::queue)) :
    Holds n cell ((head+1)%n) tail queue where
  head_lt := Nat.mod_lt _ (by have := h.head_lt; omega)
  room := by
    have hroom := h.room
    simp only [List.length_cons] at hroom
    omega
  tail_eq := by
    rw [h.tail_eq,wrap_add,List.length_cons]
    congr 1
    omega
  cells j hj := by
    have hc := h.cells (j+1) (by simpa using hj)
    have hwrap : ((head+1)%n+j)%n=(head+(j+1))%n := by
      rw [wrap_add]
      congr 1
      omega
    rw [hwrap,hc]
    simp

theorem empty_iff (h : Holds n cell head tail queue) : head=tail ↔ queue=[] := by
  rw [h.tail_eq]
  refine ⟨fun he => ?_,fun he => ?_⟩
  · have hmod : (head+0)%n=(head+queue.length)%n := by
      rw [Nat.add_zero,Nat.mod_eq_of_lt h.head_lt]
      exact he
    have hz := wrap_injective (by have := h.head_lt; omega) h.room hmod
    exact List.eq_nil_of_length_eq_zero hz.symm
  · rw [he]
    simp [Nat.mod_eq_of_lt h.head_lt]

end Holds

theorem holds_nil (hn : 0 < n) (cell : Nat → α) : Holds n cell 0 0 [] where
  head_lt := hn
  room := hn
  tail_eq := by simp
  cells j hj := by simp at hj

end Cllm.RingBuffer
