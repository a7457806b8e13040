import Mathlib.Data.List.Infix
import Mathlib.Data.List.Perm.Basic
import Mathlib.Tactic.Common

namespace Cllm.Dispatch

variable {α β : Type*}

/-- At most one entry of the list meets `p`. -/
def Exclusive (p : α → Bool) (l : List α) : Prop := l.Pairwise fun a b => ¬(p a=true ∧ p b=true)

theorem Exclusive.perm {p : α → Bool} {l l' : List α} (h : Exclusive p l) (hl : l.Perm l') :
    Exclusive p l' :=
  hl.pairwise h fun hab hba => hab hba.symm

/-- An entry that alone meets `p` is found. -/
theorem Exclusive.find? {p : α → Bool} {l : List α} (h : Exclusive p l) {a : α} (ha : a∈l)
    (hp : p a=true) : l.find? p=some a := by
  induction l with
  | nil => cases ha
  | cons b l ih =>
    obtain ⟨hb,hl⟩ := List.pairwise_cons.mp h
    rw [List.find?_cons]
    rcases List.mem_cons.mp ha with rfl|ha
    · rw [hp]
    · have hnot : p b=false := by
        rw [← Bool.not_eq_true]
        exact fun hpb => hb a ha ⟨hpb,hp⟩
      rw [hnot]
      exact ih hl ha

/-- The first of at most one entry does not depend on the order. -/
theorem find?_perm {p : α → Bool} {l l' : List α} (hl : l.Perm l') (h : Exclusive p l) :
    l.find? p=l'.find? p := by
  induction hl with
  | nil => rfl
  | cons a hl ih =>
    rw [List.find?_cons,List.find?_cons,ih (List.pairwise_cons.mp h).2]
  | swap a b l =>
    obtain ⟨hb,-⟩ := List.pairwise_cons.mp h
    have hab := hb a List.mem_cons_self
    simp only [List.find?_cons]
    cases ha : p a with
    | false => cases p b <;> rfl
    | true =>
      cases hpb : p b with
      | false => rfl
      | true => exact absurd ⟨hpb,ha⟩ hab
  | trans hl _ ih ih' => exact (ih h).trans (ih' (h.perm hl))

theorem Exclusive.mono {p q : α → Bool} {l : List α} (h : Exclusive q l)
    (hpq : ∀ a,p a=true → q a=true) : Exclusive p l :=
  List.Pairwise.imp (fun hab hboth => hab ⟨hpq _ hboth.1,hpq _ hboth.2⟩) h

/-- Neither of two keys begins with the other. -/
def Apart [DecidableEq β] (k k' : List β) : Bool := !k.isPrefixOf k' && !k'.isPrefixOf k

/-- No word begins with two keys that are apart. -/
theorem exclusive_of_apart [DecidableEq β] (key : α → List β) {l : List α}
    (h : l.Pairwise fun a b => Apart (key a) (key b)=true) (word : List β) :
    Exclusive (fun a => (key a).isPrefixOf word) l := by
  refine h.imp ?_
  intro a b hab hboth
  simp only [Apart,Bool.and_eq_true,Bool.not_eq_true',List.isPrefixOf_iff_prefix,
    ← Bool.not_eq_true] at hab hboth
  rcases List.prefix_or_prefix_of_prefix hboth.1 hboth.2 with hp|hp
  · exact hab.1 hp
  · exact hab.2 hp

end Cllm.Dispatch
