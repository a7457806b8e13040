import Mathlib.Data.List.Basic
import Mathlib.Algebra.BigOperators.Group.List.Basic
import Mathlib.Algebra.GroupWithZero.Nat

namespace Cllm.Trace

/-- A computation that may fail, with the events it causes on the way, also when it fails. -/
structure Traced (ε η α : Type) where
  events : List ε
  result : Except η α

variable {ε η α β : Type}

namespace Traced

/-- Does `es` and returns `a`. -/
def emit (es : List ε) (a : α) : Traced ε η α := ⟨es,.ok a⟩

def fail (e : η) : Traced ε η α := ⟨[],.error e⟩

def andThen (x : Traced ε η α) (f : α → Traced ε η β) : Traced ε η β :=
  match x.result with
  | .error e => ⟨x.events,.error e⟩
  | .ok a => ⟨x.events++(f a).events,(f a).result⟩

instance : Monad (Traced ε η) where
  pure a := emit [] a
  bind := andThen

@[simp] theorem result_emit (es : List ε) (a : α) :
    (emit es a : Traced ε η α).result=.ok a := rfl

@[simp] theorem result_pure (a : α) : (pure a : Traced ε η α).result=.ok a := rfl

@[simp] theorem result_fail (e : η) : (fail e : Traced ε η α).result=.error e := rfl

theorem result_bind (x : Traced ε η α) (f : α → Traced ε η β) :
    (x >>= f).result=x.result.bind fun a => (f a).result := by
  change (andThen x f).result=_
  rw [andThen]
  cases hx : x.result with
  | error e => rfl
  | ok a => rfl

end Traced

/-- What a computation may do: what its events cost, which are allowed, and how it may fail. -/
structure Contract (ε η : Type) where
  cost : ε → Nat
  allowed : ε → Prop
  fails : η → Prop

namespace Contract

variable (C : Contract ε η)

def total (es : List ε) : Nat := (es.map C.cost).sum

/-- Within a budget of `b`, `x` keeps to the contract, and leaves a result that `Q` holds of,
together with what is left of the budget. -/
structure Triple (b : Nat) (x : Traced ε η α) (Q : α → Nat → Prop) : Prop where
  allowed : ∀ e∈x.events,C.allowed e
  cost : C.total x.events ≤ b
  fails : ∀ e,x.result=.error e → C.fails e
  post : ∀ a,x.result=.ok a → Q a (b-C.total x.events)

variable {C} {b : Nat} {Q : α → Nat → Prop} {R : β → Nat → Prop}

theorem Triple.pure {a : α} (h : Q a b) : C.Triple b (pure a : Traced ε η α) Q where
  allowed e he := absurd he List.not_mem_nil
  cost := Nat.zero_le _
  fails e he := by cases he
  post a' ha := by
    cases ha
    exact h

theorem Triple.fail {e : η} (h : C.fails e) : C.Triple b (Traced.fail e : Traced ε η α) Q where
  allowed e he := absurd he List.not_mem_nil
  cost := Nat.zero_le _
  fails e' he := by
    cases he
    exact h
  post a ha := by cases ha

theorem Triple.emit {es : List ε} {a : α} (he : ∀ e∈es,C.allowed e) (hc : C.total es ≤ b)
    (h : Q a (b-C.total es)) : C.Triple b (Traced.emit es a : Traced ε η α) Q where
  allowed := he
  cost := hc
  fails e he := by cases he
  post a' ha := by
    cases ha
    exact h

theorem Triple.mono {x : Traced ε η α} {Q' : α → Nat → Prop} (hx : C.Triple b x Q)
    (h : ∀ a c,c ≤ b → Q a c → Q' a c) : C.Triple b x Q' where
  allowed := hx.allowed
  cost := hx.cost
  fails := hx.fails
  post a ha := h a _ (Nat.sub_le _ _) (hx.post a ha)

theorem Triple.bind {x : Traced ε η α} {f : α → Traced ε η β} (hx : C.Triple b x Q)
    (hf : ∀ a c,c ≤ b → Q a c → C.Triple c (f a) R) : C.Triple b (x >>= f) R := by
  change C.Triple b (Traced.andThen x f) R
  rw [Traced.andThen]
  cases hr : x.result with
  | error e =>
    refine ⟨hx.allowed,hx.cost,?_,?_⟩
    · intro e' he
      cases he
      exact hx.fails e hr
    · intro a ha
      cases ha
  | ok a =>
    have hcost := hx.cost
    have hfa := hf a _ (Nat.sub_le _ _) (hx.post a hr)
    have htotal : C.total (x.events++(f a).events)=C.total x.events+C.total (f a).events := by
      simp [total]
    have hcost' := hfa.cost
    refine ⟨?_,?_,hfa.fails,?_⟩
    · intro e he
      obtain he | he := List.mem_append.mp he
      · exact hx.allowed e he
      · exact hfa.allowed e he
    · simp only [htotal]
      omega
    · intro c hc
      simp only [htotal,← Nat.sub_sub]
      exact hfa.post c hc

end Contract

end Cllm.Trace
