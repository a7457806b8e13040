import Mathlib.Logic.Relation

namespace Cllm.Interrupts

variable {π κ : Type*}

/-- What a context does in a step, the interrupt flag, and where a handler starts and may end. -/
structure Processor (π κ : Type*) where
  step : π → κ → π × κ
  flag : κ → Bool
  setFlag : Bool → κ → κ
  handler : π
  Leaves : π → Prop

/-- The running context, and the interrupted ones with the flags they get back, the last one
first. -/
structure System (π κ : Type*) where
  running : π
  state : κ
  interrupted : List (π × Bool)

inductive Step (P : Processor π κ) : System π κ → System π κ → Prop where
  | own (s : System π κ) :
    Step P s ⟨(P.step s.running s.state).1,(P.step s.running s.state).2,s.interrupted⟩
  | interrupt (s : System π κ) (h : P.flag s.state=true) :
    Step P s ⟨P.handler,P.setFlag false s.state,(s.running,P.flag s.state)::s.interrupted⟩
  | leave (s : System π κ) {pc : π} {f : Bool} {rest : List (π × Bool)}
    (hleaves : P.Leaves s.running) (h : s.interrupted=(pc,f)::rest) :
    Step P s ⟨pc,P.setFlag f s.state,rest⟩

abbrev Reaches (P : Processor π κ) : System π κ → System π κ → Prop :=
  Relation.ReflTransGen (Step P)

variable {P : Processor π κ}

theorem Reaches.invariant {I : System π κ → Prop} (hstep : ∀ s t,I s → Step P s t → I t)
    {s t : System π κ} (hs : I s) (h : Reaches P s t) : I t := by
  induction h with
  | refl => exact hs
  | tail _ hst ih => exact hstep _ _ ih hst

/-- A context that keeps interrupts disabled runs alone. -/
theorem Reaches.alone {I : π → κ → Prop}
    (hstep : ∀ pc c,I pc c → I (P.step pc c).1 (P.step pc c).2)
    (hoff : ∀ pc c,I pc c → P.flag c=false) {pc : π} {c : κ} {t : System π κ}
    (hs : I pc c) (h : Reaches P ⟨pc,c,[]⟩ t) : t.interrupted=[] ∧ I t.running t.state := by
  refine h.invariant (I := fun t => t.interrupted=[] ∧ I t.running t.state) ?_ ⟨rfl,hs⟩
  rintro s t ⟨hnil,hs⟩ hst
  cases hst with
  | own => exact ⟨hnil,hstep _ _ hs⟩
  | interrupt h =>
    rw [hoff _ _ hs] at h
    cases h
  | leave _ h =>
    rw [hnil] at h
    cases h

/-- On top of `base` stands a context that waits at `S`, and above it only handlers that wait
there too or have just started. -/
inductive Waits (S : π → Prop) (handler : π) (base : List (π × Bool)) :
    π → List (π × Bool) → Prop where
  | base {pc : π} (h : S pc) : Waits S handler base pc base
  | nested {pc pc' : π} {f : Bool} {st : List (π × Bool)} (hpc : S pc ∨ pc=handler)
    (hw : Waits S handler base pc' st) : Waits S handler base pc ((pc',f)::st)

theorem Waits.length_le {S : π → Prop} {handler pc : π} {base st : List (π × Bool)}
    (h : Waits S handler base pc st) : base.length ≤ st.length := by
  induction h with
  | base => exact Nat.le_refl _
  | nested _ _ ih => exact Nat.le_succ_of_le ih

theorem Waits.of_length {S : π → Prop} {handler pc : π} {base st : List (π × Bool)}
    (h : Waits S handler base pc st) (hlen : st.length=base.length) : S pc := by
  cases h with
  | base h => exact h
  | nested hpc hw =>
    have hle := hw.length_le
    rw [List.length_cons] at hlen
    omega

/-- Waiting that only an interrupted context can end never ends: as long as `K` holds a waiting
context goes on to wait, and so does a handler on top of it. -/
theorem Reaches.waits {S : π → Prop} {K : κ → Prop}
    (hstep : ∀ pc c,S pc ∨ pc=P.handler → K c → S (P.step pc c).1 ∧ K (P.step pc c).2)
    (hflag : ∀ f c,K c → K (P.setFlag f c)) (hstay : ∀ pc,S pc → ¬P.Leaves pc)
    {s t : System π κ} (hs : S s.running) (hk : K s.state) (h : Reaches P s t) :
    s.interrupted.length ≤ t.interrupted.length ∧ K t.state ∧
      (t.interrupted.length=s.interrupted.length → S t.running) := by
  have hinv : K t.state ∧ Waits S P.handler s.interrupted t.running t.interrupted := by
    refine h.invariant
      (I := fun t => K t.state ∧ Waits S P.handler s.interrupted t.running t.interrupted) ?_
      ⟨hk,.base hs⟩
    rintro ⟨pc,c,st⟩ v ⟨hk,hw⟩ huv
    cases huv with
    | own =>
      cases hw with
      | base h =>
        have hnext := hstep pc c (.inl h) hk
        exact ⟨hnext.2,.base hnext.1⟩
      | nested hpc hw =>
        have hnext := hstep pc c hpc hk
        exact ⟨hnext.2,.nested (.inl hnext.1) hw⟩
    | interrupt => exact ⟨hflag _ _ hk,.nested (.inr rfl) hw⟩
    | leave hleaves h =>
      cases hw with
      | base hbase => exact absurd hleaves (hstay _ hbase)
      | nested _ hw =>
        cases h
        exact ⟨hflag _ _ hk,hw⟩
  exact ⟨hinv.2.length_le,hinv.1,hinv.2.of_length⟩

end Cllm.Interrupts
