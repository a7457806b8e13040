import Mathlib.Data.List.Basic

namespace Cllm.Machine

variable {σ α ε τ β δ : Type*}

/-- The state after a machine has taken every action in turn. -/
def runState (step : σ → α → σ × List ε) : σ → List α → σ
  | s,[] => s
  | s,a::as => runState step (step s a).1 as

/-- Everything the machine puts out on the way. -/
def outputs (step : σ → α → σ × List ε) : σ → List α → List ε
  | _,[] => []
  | s,a::as => (step s a).2++outputs step (step s a).1 as

/-- Every action of the run is taken in a state that meets `P`. -/
def Along (step : σ → α → σ × List ε) (P : σ → α → Prop) : σ → List α → Prop
  | _,[] => True
  | s,a::as => P s a ∧ Along step P (step s a).1 as

instance instDecidableAlong (step : σ → α → σ × List ε) (P : σ → α → Prop)
    [∀ s a,Decidable (P s a)] :
    (s : σ) → (as : List α) → Decidable (Along step P s as)
  | _,[] => inferInstanceAs (Decidable True)
  | s,a::as =>
    have := instDecidableAlong step P (step s a).1 as
    inferInstanceAs (Decidable (P s a ∧ Along step P (step s a).1 as))

section Runs

variable (step : σ → α → σ × List ε)

@[simp] theorem runState_nil (s : σ) : runState step s []=s := rfl

@[simp] theorem runState_cons (s : σ) (a : α) (as : List α) :
    runState step s (a::as)=runState step (step s a).1 as := rfl

@[simp] theorem outputs_nil (s : σ) : outputs step s []=[] := rfl

@[simp] theorem outputs_cons (s : σ) (a : α) (as : List α) :
    outputs step s (a::as)=(step s a).2++outputs step (step s a).1 as := rfl

theorem runState_append (s : σ) (as bs : List α) :
    runState step s (as++bs)=runState step (runState step s as) bs := by
  induction as generalizing s with
  | nil => rfl
  | cons a as ih => exact ih (step s a).1

theorem along_append (P : σ → α → Prop) (s : σ) (as bs : List α) :
    Along step P s (as++bs) ↔ Along step P s as ∧ Along step P (runState step s as) bs := by
  induction as generalizing s with
  | nil => simp [Along]
  | cons a as ih => simp [Along,ih,and_assoc]

/-- The same, by where the run stands. -/
theorem along_iff_split (P : σ → α → Prop) (s : σ) (as : List α) : Along step P s as ↔
    ∀ pre a post,as=pre++a::post → P (runState step s pre) a := by
  constructor
  · rintro h pre a post rfl
    exact ((along_append step P s pre (a::post)).mp h).2.1
  · intro h
    induction as generalizing s with
    | nil => trivial
    | cons a as ih =>
      refine ⟨h [] a as rfl,ih _ fun pre b post has => ?_⟩
      rw [has] at h
      exact h (a::pre) b post rfl

theorem along_of_forall {P : σ → α → Prop} (h : ∀ s a,P s a) (s : σ) (as : List α) :
    Along step P s as := by
  induction as generalizing s with
  | nil => trivial
  | cons a as ih => exact ⟨h s a,ih _⟩

theorem along_of_mem {P : α → Prop} {as : List α} (h : ∀ a∈as,P a) (s : σ) :
    Along step (fun _ a => P a) s as := by
  induction as generalizing s with
  | nil => trivial
  | cons a as ih =>
    rw [List.forall_mem_cons] at h
    exact ⟨h.1,ih h.2 _⟩

/-- Each action of the run has been taken in some state that meets `P`. -/
theorem Along.mem {P : σ → α → Prop} {s : σ} {as : List α} (h : Along step P s as) {a : α}
    (ha : a∈as) : ∃ s,P s a := by
  induction as generalizing s with
  | nil => cases ha
  | cons b as ih =>
    rcases List.mem_cons.mp ha with rfl | ha
    · exact ⟨s,h.1⟩
    · exact ih h.2 ha

theorem Along.and {P Q : σ → α → Prop} {s : σ} {as : List α} (hp : Along step P s as)
    (hq : Along step Q s as) : Along step (fun s a => P s a ∧ Q s a) s as := by
  induction as generalizing s with
  | nil => trivial
  | cons a as ih => exact ⟨⟨hp.1,hq.1⟩,ih hp.2 hq.2⟩

theorem Along.mono {P Q : σ → α → Prop} (hpq : ∀ s a,P s a → Q s a) {s : σ} {as : List α}
    (h : Along step P s as) : Along step Q s as := by
  induction as generalizing s with
  | nil => trivial
  | cons a as ih => exact ⟨hpq _ _ h.1,ih h.2⟩

/-- The induction rule for runs: what every step keeps, every run keeps. -/
theorem invariant_run (I : σ → Prop) (hstep : ∀ s a,I s → I (step s a).1)
    {s : σ} (hs : I s) (as : List α) : I (runState step s as) := by
  induction as generalizing s with
  | nil => exact hs
  | cons a as ih => exact ih (hstep s a hs)

/-- The same rule for runs whose steps all meet a guard. -/
theorem invariant_along (I : σ → Prop) {P : σ → α → Prop}
    (hstep : ∀ s a,I s → P s a → I (step s a).1) {s : σ} (hs : I s) {as : List α}
    (hp : Along step P s as) : I (runState step s as) := by
  induction as generalizing s with
  | nil => exact hs
  | cons a as ih => exact ih (hstep s a hs hp.1) hp.2

/-- What an invariant gives, it gives at every step of a run. -/
theorem along_of_invariant (I : σ → Prop) {P : σ → α → Prop} (hstep : ∀ s a,I s → I (step s a).1)
    (hP : ∀ s a,I s → P s a) {s : σ} (hs : I s) (as : List α) : Along step P s as := by
  induction as generalizing s with
  | nil => trivial
  | cons a as ih => exact ⟨hP s a hs,ih (hstep s a hs)⟩

/-- An invariant that also speaks of the actions taken and of the output so far. -/
theorem history_along (I : σ → List α → List ε → Prop) {P : σ → α → Prop}
    (hstep : ∀ s h o a,I s h o → P s a → I (step s a).1 (h++[a]) (o++(step s a).2))
    {s : σ} {h : List α} {o : List ε} (hs : I s h o) {as : List α} (hp : Along step P s as) :
    I (runState step s as) (h++as) (o++outputs step s as) := by
  induction as generalizing s h o with
  | nil => simpa using hs
  | cons a as ih => simpa using ih (hstep s h o a hs hp.1) hp.2

end Runs

/-- A part of a machine that moves by a machine of its own: `view` reads its state, `input`
what a step of the whole means to it, and `seen` which outputs are its own. -/
structure Component (step : σ → α → σ × List ε) (part : τ → β → τ × List δ) where
  view : σ → τ
  input : σ → α → β
  seen : List ε → List δ
  seen_nil : seen []=[]
  seen_append : ∀ x y,seen (x++y)=seen x++seen y
  view_step : ∀ s a,view (step s a).1=(part (view s) (input s a)).1
  seen_step : ∀ s a,seen (step s a).2=(part (view s) (input s a)).2

namespace Component

variable {step : σ → α → σ × List ε} {part : τ → β → τ × List δ} (C : Component step part)

/-- What a run of the whole means to the part. -/
def inputs : σ → List α → List β
  | _,[] => []
  | s,a::as => C.input s a::inputs (step s a).1 as

theorem inputs_append (s : σ) (as bs : List α) :
    C.inputs s (as++bs)=C.inputs s as++C.inputs (runState step s as) bs := by
  induction as generalizing s with
  | nil => rfl
  | cons a as ih => simp [inputs,ih]

/-- The part's view of any run of the whole is the part's own run on its inputs. -/
theorem view_run (s : σ) (as : List α) :
    C.view (runState step s as)=runState part (C.view s) (C.inputs s as) := by
  induction as generalizing s with
  | nil => rfl
  | cons a as ih => simp only [runState_cons,inputs,ih,C.view_step]

theorem seen_run (s : σ) (as : List α) :
    C.seen (outputs step s as)=outputs part (C.view s) (C.inputs s as) := by
  induction as generalizing s with
  | nil => exact C.seen_nil
  | cons a as ih =>
    simp only [outputs_cons,inputs,C.seen_append,C.seen_step,ih,C.view_step]

/-- A guard on the part's steps is a guard on the whole's. -/
theorem along_inputs (P : τ → β → Prop) (s : σ) (as : List α) :
    Along part P (C.view s) (C.inputs s as) ↔
      Along step (fun s a => P (C.view s) (C.input s a)) s as := by
  induction as generalizing s with
  | nil => exact Iff.rfl
  | cons a as ih => simp only [Along,inputs,← C.view_step,ih]

end Component

end Cllm.Machine
