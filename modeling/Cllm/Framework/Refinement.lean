import Mathlib.Algebra.BigOperators.Group.List.Basic
import Mathlib.Algebra.GroupWithZero.Nat
import Cllm.Framework.Machine

namespace Cllm.Machine

variable {σ τ α β ε δ : Type*}

/-- What the actions of a run are to another machine, when each step may be none or several of
the other machine's. -/
def inputsAlong (step : σ → α → σ × List ε) (inputs : σ → α → List β) : σ → List α → List β
  | _,[] => []
  | s,a::as => inputs s a++inputsAlong step inputs (step s a).1 as

theorem inputsAlong_singleton (step : σ → α → σ × List ε) (s : σ) (as : List α) :
    inputsAlong step (fun _ a => [a]) s as=as := by
  induction as generalizing s with
  | nil => rfl
  | cons a as ih => rw [inputsAlong,ih,List.singleton_append]

/-- Each step of `step` is a run, of any length, of `part` on what `view` shows: `inputs` says of
which actions, and `seen` which outputs are the part's. -/
structure Refines (step : σ → α → σ × List ε) (part : τ → β → τ × List δ) where
  view : σ → τ
  inputs : σ → α → List β
  seen : List ε → List δ
  seen_nil : seen []=[]
  seen_append : ∀ x y,seen (x++y)=seen x++seen y
  view_step : ∀ s a,view (step s a).1=runState part (view s) (inputs s a)
  seen_step : ∀ s a,seen (step s a).2=outputs part (view s) (inputs s a)

theorem outputs_append (step : σ → α → σ × List ε) (s : σ) (as bs : List α) :
    outputs step s (as++bs)=outputs step s as++outputs step (runState step s as) bs := by
  induction as generalizing s with
  | nil => simp
  | cons a as ih => simp [ih]

/-- Each output of a run is put out by one of its steps. -/
theorem mem_outputs {step : σ → α → σ × List ε} {s : σ} {as : List α} {e : ε}
    (h : e∈outputs step s as) :
    ∃ pre a post,as=pre++a::post ∧ e∈(step (runState step s pre) a).2 := by
  induction as generalizing s with
  | nil => cases h
  | cons a as ih =>
    rcases List.mem_append.mp h with h|h
    · exact ⟨[],a,as,rfl,h⟩
    · obtain ⟨pre,b,post,rfl,hb⟩ := ih h
      exact ⟨a::pre,b,post,rfl,hb⟩

namespace Refines

section Runs

variable {step : σ → α → σ × List ε} {part : τ → β → τ × List δ} (R : Refines step part)

/-- What a run means to the part. -/
abbrev inputsOf : σ → List α → List β := inputsAlong step R.inputs

theorem view_run (s : σ) (as : List α) :
    R.view (runState step s as)=runState part (R.view s) (R.inputsOf s as) := by
  induction as generalizing s with
  | nil => rfl
  | cons a as ih =>
    rw [runState_cons,ih,R.view_step,inputsOf,inputsAlong,runState_append]

theorem seen_run (s : σ) (as : List α) :
    R.seen (outputs step s as)=outputs part (R.view s) (R.inputsOf s as) := by
  induction as generalizing s with
  | nil => exact R.seen_nil
  | cons a as ih =>
    rw [outputs_cons,R.seen_append,R.seen_step,ih,R.view_step,inputsOf,inputsAlong,outputs_append]

end Runs

end Refines

section Lockstep

variable (step : σ → α → σ × List ε)

/-- A machine that a relation keeps together with another one, as long as a guard on it holds,
puts out what the other one does. -/
theorem simulates (part : τ → β → τ × List ε) (R : σ → τ → Prop) {P : σ → α → Prop}
    (inputs : σ → α → List β)
    (hstep : ∀ s t a,R s t → P s a →
      (step s a).2=outputs part t (inputs s a) ∧ R (step s a).1 (runState part t (inputs s a)))
    {s : σ} {t : τ} (h : R s t) {as : List α} (hP : Along step P s as) :
    outputs step s as=outputs part t (inputsAlong step inputs s as) ∧
      R (runState step s as) (runState part t (inputsAlong step inputs s as)) := by
  induction as generalizing s t with
  | nil => exact ⟨rfl,h⟩
  | cons a as ih =>
    obtain ⟨hout,hnext⟩ := hstep s t a h hP.1
    obtain ⟨houts,hlast⟩ := ih hnext hP.2
    rw [inputsAlong,outputs_append,runState_append,outputs_cons,hout,houts]
    exact ⟨rfl,hlast⟩

variable (step' : τ → α → τ × List ε)

/-- Two machines that a relation keeps together, as long as a guard on the first one holds, put
out the same. -/
theorem lockstep (R : σ → τ → Prop) {P : σ → α → Prop}
    (hstep : ∀ s t a,R s t → P s a → (step s a).2=(step' t a).2 ∧ R (step s a).1 (step' t a).1)
    {s : σ} {t : τ} (h : R s t) {as : List α} (hP : Along step P s as) :
    outputs step s as=outputs step' t as ∧ R (runState step s as) (runState step' t as) := by
  have hsim := simulates step step' R (fun _ a => [a]) (fun s t a hR ha => by
    obtain ⟨hout,hnext⟩ := hstep s t a hR ha
    exact ⟨by rw [hout,outputs_cons,outputs_nil,List.append_nil],hnext⟩) h hP
  rwa [inputsAlong_singleton] at hsim

/-- A machine that shows nothing of its past: what it puts out is what each action gives alone. -/
theorem outputs_forgets {f : α → List ε} (I : σ → Prop)
    (hstep : ∀ s a,I s → (step s a).2=f a ∧ I (step s a).1) {s : σ} (h : I s) (as : List α) :
    outputs step s as=as.flatMap f := by
  induction as generalizing s with
  | nil => rfl
  | cons a as ih =>
    obtain ⟨hout,hnext⟩ := hstep s a h
    rw [outputs_cons,hout,ih hnext,List.flatMap_cons]

end Lockstep

section Amortised

variable {step : σ → α → σ × List ε}

/-- Steps cost, outputs pay, and a potential carries over what has been paid for in advance: then
a whole run costs no more than its outputs pay and the first potential holds. -/
theorem amortised (I : σ → Prop) (hI : ∀ s a,I s → I (step s a).1) {cost : α → Nat}
    {pay : ε → Nat} {potential : σ → Nat}
    (hstep : ∀ s a,I s →
      cost a+potential (step s a).1 ≤ potential s+((step s a).2.map pay).sum)
    {s : σ} (hs : I s) (as : List α) :
    (as.map cost).sum+potential (runState step s as) ≤
      potential s+((outputs step s as).map pay).sum := by
  induction as generalizing s with
  | nil => simp
  | cons a as ih =>
    have hfirst := hstep s a hs
    have hrest := ih (hI s a hs)
    simp only [runState_cons,outputs_cons,List.map_cons,List.map_append,List.sum_cons,
      List.sum_append]
    omega

end Amortised

end Cllm.Machine
