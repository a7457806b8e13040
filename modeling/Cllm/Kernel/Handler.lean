import Cllm.Framework.Interrupts
import Cllm.Kernel.Spinlock

namespace Cllm.Kernel

open Interrupts

/-- A handler ends before it has asked for the lock or after it has released it. -/
def processor : Processor Pc Cpu where
  step := step
  flag := Cpu.flag
  setFlag f c := {c with flag := f}
  handler := .idle
  Leaves pc := pc=.idle ∨ pc=.done

abbrev Uniprocessor := System Pc Cpu

/-- A context that is about to call spinlock_lock, with the lock free. -/
def start (flag wereEnabled : Bool) : Uniprocessor := ⟨.idle,⟨flag,⟨0,wereEnabled⟩⟩,[]⟩

/-- The context that has the lock can be interrupted. -/
def Exposed (s : Uniprocessor) : Prop := s.state.flag=true ∧ s.running.holds=true

/-- An interrupted context has the lock while interrupts are enabled. -/
def HeldOpen (s : Uniprocessor) : Prop :=
  s.state.flag=true ∧ ∃ x∈s.interrupted,x.1.holds=true

/-- The places in spinlock_lock's loop. -/
def Pc.spins : Pc → Bool
  | exchange | enable | pause | disableAgain => true
  | _ => false

/-- A handler is in spinlock_lock's loop and stays there, whatever happens. -/
structure SpinsForever (s : Uniprocessor) : Prop where
  handler : s.interrupted≠[]
  forever : ∀ t,Reaches processor s t → s.interrupted.length ≤ t.interrupted.length ∧
    (t.interrupted.length=s.interrupted.length → t.running.spins=true)

/-- A handler cannot get a lock that only an interrupted context could release. -/
theorem spinsForever_of_taken {s : Uniprocessor} (htaken : s.state.lock.locked≠0)
    (hspins : s.running.spins=true) (hhandler : s.interrupted≠[]) : SpinsForever s := by
  refine ⟨hhandler,?_⟩
  intro t ht
  have hwaits := ht.waits (S := fun pc => pc.spins=true) (K := fun c => c.lock.locked≠0)
    ?_ ?_ ?_ hspins htaken
  · exact ⟨hwaits.1,hwaits.2.2⟩
  · intro pc c hpc hc
    cases pc with
    | idle => exact ⟨rfl,hc⟩
    | exchange =>
      change (if c.lock.locked=0 then Pc.readFlag else .enable).spins=true ∧ (1 : UInt32)≠0
      rw [if_neg hc]
      exact ⟨rfl,by decide⟩
    | enable => exact ⟨rfl,hc⟩
    | pause => exact ⟨rfl,hc⟩
    | disableAgain => exact ⟨rfl,hc⟩
    | _ => exact absurd hpc (by simp [Pc.spins,processor])
  · intro f c hc
    exact hc
  · rintro pc hpc (rfl | rfl)
    · cases hpc
    · cases hpc

/-- With interrupts disabled the first try succeeds. -/
inductive Undisturbed : Pc → Cpu → Prop where
  | idle {c : Cpu} (hflag : c.flag=false) (hfree : c.lock.locked=0) : Undisturbed .idle c
  | exchange {c : Cpu} (hflag : c.flag=false) (hfree : c.lock.locked=0) : Undisturbed .exchange c
  | saved {pc : Pc} {c : Cpu} (h : Saved false pc c) : Undisturbed pc c

theorem Undisturbed.step {pc : Pc} {c : Cpu} (h : Undisturbed pc c) :
    Undisturbed (step pc c).1 (step pc c).2 := by
  cases h with
  | idle hflag hfree => exact .exchange hflag hfree
  | exchange hflag hfree =>
    apply Undisturbed.saved
    rw [← hflag]
    exact step_free hfree
  | saved h => exact .saved h.step

theorem Undisturbed.flag {pc : Pc} {c : Cpu} (h : Undisturbed pc c) : c.flag=false := by
  cases h with
  | idle hflag hfree => exact hflag
  | exchange hflag hfree => exact hflag
  | saved h =>
    cases h with
    | readFlag h => exact h
    | disable h => exact h
    | store h => exact h
    | critical h hb => exact h
    | readRestore h hb => exact h
    | release h => exact h
    | restore h => exact h
    | done h => exact h

theorem undisturbed_of_disabled {wereEnabled : Bool} {s : Uniprocessor}
    (h : Reaches processor (start false wereEnabled) s) :
    s.interrupted=[] ∧ s.state.flag=false := by
  have halone := h.alone (I := Undisturbed) (fun _ _ h => h.step) (fun _ _ h => h.flag)
    (.idle rfl rfl)
  exact ⟨halone.1,halone.2.flag⟩

/-- The exchange is won and interrupts are still enabled. -/
def won (wereEnabled : Bool) : Uniprocessor := ⟨.readFlag,⟨true,⟨1,wereEnabled⟩⟩,[]⟩

theorem reaches_won (wereEnabled : Bool) :
    Reaches processor (start true wereEnabled) (won wereEnabled) :=
  .tail (.single (.own _)) (.own (⟨.exchange,⟨true,⟨0,wereEnabled⟩⟩,[]⟩ : Uniprocessor))

/-- An interrupt has come, and its handler has called spinlock_lock. -/
def entered (wereEnabled : Bool) : Uniprocessor :=
  ⟨.exchange,⟨false,⟨1,wereEnabled⟩⟩,[(.readFlag,true)]⟩

theorem reaches_entered (wereEnabled : Bool) :
    Reaches processor (start true wereEnabled) (entered wereEnabled) :=
  .tail (.tail (reaches_won wereEnabled) (.interrupt _ rfl))
    (.own (⟨.idle,⟨false,⟨1,wereEnabled⟩⟩,[(.readFlag,true)]⟩ : Uniprocessor))

/-- The handler's try has failed, and its loop has enabled interrupts. -/
def reentrant (wereEnabled : Bool) : Uniprocessor :=
  ⟨.pause,⟨true,⟨1,wereEnabled⟩⟩,[(.readFlag,true)]⟩

theorem reaches_reentrant (wereEnabled : Bool) :
    Reaches processor (start true wereEnabled) (reentrant wereEnabled) :=
  .tail (.tail (reaches_entered wereEnabled) (.own _))
    (.own (⟨.enable,⟨false,⟨1,wereEnabled⟩⟩,[(.readFlag,true)]⟩ : Uniprocessor))

/-- No interrupt finds the lock taken, and no handler spins on it forever, exactly when
spinlock_lock is called with interrupts disabled. -/
theorem lock_safe_iff (flag wereEnabled : Bool) :
    ((∀ s,Reaches processor (start flag wereEnabled) s → ¬HeldOpen s) ↔ flag=false) ∧
      ((∀ s,Reaches processor (start flag wereEnabled) s → ¬Exposed s) ↔ flag=false) ∧
      ((∀ s,Reaches processor (start flag wereEnabled) s → ¬SpinsForever s) ↔ flag=false) := by
  cases flag with
  | false =>
    refine ⟨iff_of_true ?_ rfl,iff_of_true ?_ rfl,iff_of_true ?_ rfl⟩
    · rintro s hs ⟨hflag,-⟩
      rw [(undisturbed_of_disabled hs).2] at hflag
      cases hflag
    · rintro s hs ⟨hflag,-⟩
      rw [(undisturbed_of_disabled hs).2] at hflag
      cases hflag
    · intro s hs hspins
      exact hspins.handler (undisturbed_of_disabled hs).1
  | true =>
    refine ⟨iff_of_false ?_ (by decide),iff_of_false ?_ (by decide),iff_of_false ?_ (by decide)⟩
    · intro hsafe
      exact hsafe _ (reaches_reentrant wereEnabled) ⟨rfl,_,List.mem_singleton_self _,rfl⟩
    · intro hsafe
      exact hsafe _ (reaches_won wereEnabled) ⟨rfl,rfl⟩
    · intro hsafe
      have htaken : (entered wereEnabled).state.lock.locked≠0 := by
        change (1 : UInt32)≠0
        decide
      have hhandler : (entered wereEnabled).interrupted≠[] := List.cons_ne_nil _ _
      exact hsafe _ (reaches_entered wereEnabled) (spinsForever_of_taken htaken rfl hhandler)

/-- The handler spins with interrupts enabled while the interrupted context has the lock. -/
theorem held_open_reachable :
    ¬∀ (flag wereEnabled : Bool) (s : Uniprocessor),
      Reaches processor (start flag wereEnabled) s → ¬HeldOpen s := by
  intro hall
  exact hall true false _ (reaches_reentrant false) ⟨rfl,_,List.mem_singleton_self _,rfl⟩

end Cllm.Kernel
