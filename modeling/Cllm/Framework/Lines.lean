import Cllm.Framework.Search

namespace Cllm.Lines

variable {α : Type*} [DecidableEq α]

/-- What is in front of the first `eol`, and what is behind it. -/
def readLine (eol xs : List α) : Option (List α × List α) :=
  (Search.firstEnd eol xs).map fun n => (xs.take (n-eol.length),xs.drop n)

/-- The lines up to an empty one, and what is behind that; `none` without one in so many lines. -/
def readBlock (eol : List α) : Nat → List α → Option (List (List α) × List α)
  | 0,_ => none
  | fuel+1,xs =>
    match readLine eol xs with
    | none => none
    | some ([],rest) => some ([],rest)
    | some (line,rest) => (readBlock eol fuel rest).map fun (lines,rest) => (line::lines,rest)

/-- Lines, each with its end. -/
def ended (eol : List α) (lines : List (List α)) : List α := lines.flatMap (·++eol)

section Lines

variable {eol line rest : List α} {lines : List (List α)} {a : α} {n : Nat}

omit [DecidableEq α] in
@[simp] theorem ended_nil (eol : List α) : ended eol []=[] := rfl

omit [DecidableEq α] in
@[simp] theorem ended_cons (eol line : List α) (lines : List (List α)) :
    ended eol (line::lines)=line++eol++ended eol lines := by
  rw [ended,List.flatMap_cons]
  rfl

omit [DecidableEq α] in
theorem ended_append (eol : List α) (x y : List (List α)) :
    ended eol (x++y)=ended eol x++ended eol y := List.flatMap_append

/-- A line without the first character of `eol` is read back. -/
theorem readLine_line (he : eol.head?=some a) (ha : a∉line) (rest : List α) :
    readLine eol (line++eol++rest)=some (line,rest) := by
  have hhere : Search.firstEnd eol (eol++rest)=some eol.length := by
    cases eol with
    | nil => cases he
    | cons x xs => exact if_pos (List.prefix_append _ _)
  have hend : Search.firstEnd eol (line++eol++rest)=some (eol.length+line.length) := by
    rw [List.append_assoc,Search.firstEnd_skip he ha,hhere,Option.map_some]
  rw [readLine,hend,Option.map_some,Nat.add_sub_cancel_left,List.append_assoc,List.take_left]
  rw [Nat.add_comm,← List.drop_drop,List.drop_left,List.drop_left]

/-- Nonempty lines and an empty one behind them are read back. -/
theorem readBlock_block (he : eol.head?=some a) (hl : ∀ line∈lines,line≠[] ∧ a∉line)
    (hn : lines.length<n) (rest : List α) :
    readBlock eol n (ended eol lines++eol++rest)=some (lines,rest) := by
  induction lines generalizing n with
  | nil =>
    obtain ⟨n,rfl⟩ : ∃ k,n=k+1 := ⟨n-1,by simp at hn; omega⟩
    have hread := readLine_line he (List.not_mem_nil (a := a)) rest
    rw [List.nil_append] at hread
    rw [ended_nil,List.nil_append,readBlock,hread]
  | cons line lines ih =>
    obtain ⟨n,rfl⟩ : ∃ k,n=k+1 := ⟨n-1,by omega⟩
    rw [List.forall_mem_cons] at hl
    have hread := readLine_line he hl.1.2 (ended eol lines++eol++rest)
    have hrest := ih hl.2 (by simpa using hn)
    have hshape : ended eol (line::lines)++eol++rest=
        line++eol++(ended eol lines++eol++rest) := by
      simp only [ended_cons,List.append_assoc]
    rw [hshape,readBlock,hread]
    cases line with
    | nil => exact absurd rfl hl.1.1
    | cons x xs =>
      simp only [hrest,Option.map_some]

omit [DecidableEq α] in
theorem length_ended (eol : List α) (h : eol≠[]) (lines : List (List α)) :
    lines.length ≤ (ended eol lines).length := by
  have hpos := List.length_pos_of_ne_nil h
  induction lines with
  | nil => exact Nat.zero_le _
  | cons line lines ih =>
    simp only [ended_cons,List.length_append,List.length_cons]
    omega

end Lines

end Cllm.Lines
