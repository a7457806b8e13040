import Mathlib.Data.List.Infix
import Mathlib.Tactic.Common

namespace Cllm.Search

variable {α : Type*} [DecidableEq α]

/-- Where the first occurrence of `p` in a list ends. -/
def firstEnd (p : List α) : List α → Option Nat
  | [] => if p=[] then some 0 else none
  | x::xs => if p <+: x::xs then some p.length else (firstEnd p xs).map (·+1)

/-- `q` is the shortest prefix of `xs` that ends with `p`. -/
structure EndsFirst (p xs q : List α) : Prop where
  isPrefix : q <+: xs
  isSuffix : p <:+ q
  shortest : ∀ r,r <+: xs → p <:+ r → q.length≤r.length

theorem firstEnd_eq_none_iff (p xs : List α) : firstEnd p xs=none ↔ ¬p <:+: xs := by
  induction xs with
  | nil => simp [firstEnd]
  | cons x xs ih =>
    rw [firstEnd,List.infix_cons_iff]
    by_cases hp : p <+: x::xs
    · simp [hp]
    · simp [hp,ih]

omit [DecidableEq α] in
/-- A suffix of a prefix either starts at the head or lies past it. -/
private theorem suffix_take_cons {p : List α} {x : α} {xs : List α} {n : Nat}
    (h : p <:+ (x::xs).take (n+1)) (hp : ¬p <+: x::xs) : p <:+ xs.take n := by
  rw [List.take_succ_cons] at h
  rcases List.suffix_cons_iff.mp h with he|ht
  · exact absurd (he ▸ (List.take_prefix (n+1) (x::xs))) hp
  · exact ht

theorem firstEnd_some {p xs : List α} {n : Nat} (h : firstEnd p xs=some n) :
    p.length≤n ∧ n≤xs.length ∧ p <:+ xs.take n := by
  induction xs generalizing n with
  | nil =>
    have hp : p=[] := by by_contra hp; simp [firstEnd,hp] at h
    simp_all [firstEnd]
  | cons x xs ih =>
    rw [firstEnd] at h
    split_ifs at h with hp
    · obtain rfl : p.length=n := by simpa using h
      exact ⟨le_rfl,hp.length_le,by rw [← List.prefix_iff_eq_take.mp hp]⟩
    · obtain ⟨m,hm,rfl⟩ := Option.map_eq_some_iff.mp h
      obtain ⟨hlow,hhigh,hsuf⟩ := ih hm
      refine ⟨by omega,by simpa using hhigh,?_⟩
      rw [List.take_succ_cons]
      exact hsuf.trans (List.suffix_cons x _)

theorem firstEnd_le {p xs : List α} {n m : Nat} (h : firstEnd p xs=some n)
    (hs : p <:+ xs.take m) (hm : m≤xs.length) : n ≤ m := by
  induction xs generalizing n m with
  | nil => have := (firstEnd_some h).2.1; simp at this; omega
  | cons x xs ih =>
    rw [firstEnd] at h
    split_ifs at h with hp
    · obtain rfl : p.length=n := by simpa using h
      have := hs.length_le
      simpa using this.trans (List.length_take_le m (x::xs))
    · obtain ⟨k,hk,rfl⟩ := Option.map_eq_some_iff.mp h
      cases m with
      | zero =>
        have he : p=[] := by simpa using hs
        exact absurd (he ▸ List.nil_prefix) hp
      | succ m => exact Nat.succ_le_succ (ih hk (suffix_take_cons hs hp) (by simpa using hm))

/-- The search is the specification: what it returns cuts off the shortest such prefix. -/
theorem firstEnd_endsFirst {p xs : List α} {n : Nat} (h : firstEnd p xs=some n) :
    EndsFirst p xs (xs.take n) := by
  obtain ⟨-,hn,hs⟩ := firstEnd_some h
  refine ⟨List.take_prefix n xs,hs,fun r hr hp => ?_⟩
  rw [List.length_take_of_le hn]
  rw [List.prefix_iff_eq_take.mp hr] at hp
  exact firstEnd_le h hp hr.length_le

/-- An occurrence inside a prefix is an occurrence, and the first one stays the first. -/
theorem firstEnd_append {p xs : List α} {n : Nat} (h : firstEnd p xs=some n) (ys : List α) :
    firstEnd p (xs++ys)=some n := by
  obtain ⟨-,hn,hs⟩ := firstEnd_some h
  have htake : (xs++ys).take n=xs.take n := List.take_append_of_le_length hn
  cases hk : firstEnd p (xs++ys) with
  | none =>
    have hin : p <:+: xs := hs.isInfix.trans (List.take_prefix n xs).isInfix
    exact absurd (hin.trans (List.prefix_append xs ys).isInfix)
      ((firstEnd_eq_none_iff p _).mp hk)
  | some k =>
    have hle : k≤n := firstEnd_le hk (htake ▸ hs) (by simp; omega)
    have hsk := (firstEnd_some hk).2.2
    rw [List.take_append_of_le_length (by omega)] at hsk
    rw [le_antisymm hle (firstEnd_le h hsk (by omega))]

/-- Up to its own end the first occurrence is found as well. -/
theorem firstEnd_take {p xs : List α} {n : Nat} (h : firstEnd p xs=some n) :
    firstEnd p (xs.take n)=some n := by
  obtain ⟨-,hn,hs⟩ := firstEnd_some h
  cases hk : firstEnd p (xs.take n) with
  | none => exact absurd hs.isInfix ((firstEnd_eq_none_iff p _).mp hk)
  | some k =>
    have he := firstEnd_append hk (xs.drop n)
    rw [List.take_append_drop,h] at he
    exact he.symm

/-- A start that cannot begin an occurrence is skipped. -/
theorem firstEnd_skip {p : List α} {a : α} {l : List α} (hp : p.head?=some a) (ha : a∉l)
    (xs : List α) : firstEnd p (l++xs)=(firstEnd p xs).map (·+l.length) := by
  induction l with
  | nil => simp
  | cons x l ih =>
    rw [List.mem_cons,not_or] at ha
    have hnot : ¬p <+: x::(l++xs) := by
      intro h
      cases p with
      | nil => simp at hp
      | cons y p =>
        obtain rfl : y=a := by simpa using hp
        exact ha.1 (List.cons_prefix_cons.mp h).1
    rw [List.cons_append,firstEnd,if_neg hnot,ih ha.2]
    cases firstEnd p xs with
    | none => rfl
    | some n => simp [Nat.add_assoc]

end Cllm.Search
