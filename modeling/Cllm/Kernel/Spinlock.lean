import Mathlib.Tactic.Common

namespace Cllm.Kernel

structure Spinlock where
  locked : UInt32
  interruptsWereEnabled : Bool
  deriving DecidableEq

/-- SPINLOCK_INIT -/
def spinlockInit : Spinlock := ⟨0,false⟩

/-- The interrupt flag and the lock. -/
structure Cpu where
  flag : Bool
  lock : Spinlock
  deriving DecidableEq

def interruptsDisable (c : Cpu) : Cpu := {c with flag := false}

def interruptsEnable (c : Cpu) : Cpu := {c with flag := true}

def interruptsEnabled (c : Cpu) : Bool := c.flag

def interruptsRestore (wasEnabled : Bool) (c : Cpu) : Cpu :=
  if wasEnabled then interruptsEnable c else c

/-- Where a context stands that calls spinlock_lock, has its critical section and calls
spinlock_unlock, with the local variables that are still needed. -/
inductive Pc where
  | idle
  -- spinlock_trylock, and interrupts_disable_save in it
  | exchange
  | readFlag
  | disable (wasEnabled : Bool)
  | store (wasEnabled : Bool)
  -- the loop of spinlock_lock after a try that has failed
  | enable
  | pause
  | disableAgain
  | critical
  -- spinlock_unlock
  | readRestore
  | release (restore : Bool)
  | restore (restore : Bool)
  | done
  deriving DecidableEq

/-- One step of a context. -/
def step : Pc → Cpu → Pc × Cpu
  | .idle,c => (.exchange,c)
  | .exchange,c =>
    (if c.lock.locked=0 then .readFlag else .enable,{c with lock := {c.lock with locked := 1}})
  | .readFlag,c => (.disable (interruptsEnabled c),c)
  | .disable wasEnabled,c => (.store wasEnabled,interruptsDisable c)
  | .store wasEnabled,c =>
    (.critical,{c with lock := {c.lock with interruptsWereEnabled := wasEnabled}})
  | .enable,c => (.pause,interruptsEnable c)
  | .pause,c => (.disableAgain,c)
  | .disableAgain,c => (.exchange,interruptsDisable c)
  | .critical,c => (.readRestore,c)
  | .readRestore,c => (.release c.lock.interruptsWereEnabled,c)
  | .release restore,c => (.restore restore,{c with lock := {c.lock with locked := 0}})
  | .restore restore,c => (.done,interruptsRestore restore c)
  | .done,c => (.done,c)

/-- The context has won the exchange and has not yet released the lock. -/
def Pc.holds : Pc → Bool
  | readFlag | disable _ | store _ | critical | readRestore | release _ => true
  | _ => false

/-- Who takes the next step: the context itself, or another one, which releases the lock. -/
inductive Actor where
  | own
  | other
  deriving DecidableEq

/-- A context that does not have the lock may find it released. -/
def act (s : Pc × Cpu) : Actor → Pc × Cpu
  | .own => step s.1 s.2
  | .other =>
    if s.1.holds then s else (s.1,{s.2 with lock := {s.2.lock with locked := 0}})

def run : Pc × Cpu → List Actor → Pc × Cpu
  | s,[] => s
  | s,a::schedule => run (act s a) schedule

/-- The lock is free when the first exchange comes. -/
def FreeAtFirstTry (c : Cpu) (schedule : List Actor) : Prop :=
  c.lock.locked=0 ∨ schedule.head?=some .other

/-- The context won the exchange when the flag was `b`. -/
inductive Saved (b : Bool) : Pc → Cpu → Prop where
  | readFlag {c : Cpu} (h : c.flag=b) : Saved b .readFlag c
  | disable {c : Cpu} (h : c.flag=b) : Saved b (.disable b) c
  | store {c : Cpu} (h : c.flag=false) : Saved b (.store b) c
  | critical {c : Cpu} (h : c.flag=false) (hb : c.lock.interruptsWereEnabled=b) :
    Saved b .critical c
  | readRestore {c : Cpu} (h : c.flag=false) (hb : c.lock.interruptsWereEnabled=b) :
    Saved b .readRestore c
  | release {c : Cpu} (h : c.flag=false) : Saved b (.release b) c
  | restore {c : Cpu} (h : c.flag=false) : Saved b (.restore b) c
  | done {c : Cpu} (h : c.flag=b) : Saved b .done c

/-- A try has failed, and none has succeeded. -/
inductive Spinning : Pc → Cpu → Prop where
  | enable {c : Cpu} : Spinning .enable c
  | pause {c : Cpu} : Spinning .pause c
  | disableAgain {c : Cpu} : Spinning .disableAgain c
  | exchange {c : Cpu} (h : c.flag=false) : Spinning .exchange c

variable {b : Bool} {pc : Pc} {c : Cpu}

theorem Saved.step (h : Saved b pc c) : Saved b (step pc c).1 (step pc c).2 := by
  cases h with
  | readFlag h =>
    subst h
    exact .disable rfl
  | disable h => exact .store rfl
  | store h => exact .critical h rfl
  | critical h hb => exact .readRestore h hb
  | readRestore h hb =>
    subst hb
    exact .release h
  | release h => exact .restore h
  | restore h =>
    apply Saved.done
    cases b with
    | false => exact h
    | true => rfl
  | done h => exact .done h

/-- The exchange decides. -/
theorem step_free (h : c.lock.locked=0) :
    Saved c.flag (step .exchange c).1 (step .exchange c).2 := by
  simp only [step,if_pos h]
  exact .readFlag rfl

theorem step_taken (h : c.lock.locked≠0) : Spinning (step .exchange c).1 (step .exchange c).2 := by
  simp only [step,if_neg h]
  exact .enable

/-- After the first failure the flag is down at every try. -/
theorem Spinning.step (h : Spinning pc c) :
    Spinning (step pc c).1 (step pc c).2 ∨ Saved false (step pc c).1 (step pc c).2 := by
  cases h with
  | enable => exact .inl .pause
  | pause => exact .inl .disableAgain
  | disableAgain => exact .inl (.exchange rfl)
  | exchange h =>
    by_cases hfree : c.lock.locked=0
    · right
      rw [← h]
      exact step_free hfree
    · left
      exact step_taken hfree

theorem Saved.act {s : Pc × Cpu} (h : Saved b s.1 s.2) (a : Actor) :
    Saved b (act s a).1 (act s a).2 := by
  obtain ⟨pc,c⟩ := s
  cases a with
  | own => exact Saved.step h
  | other =>
    cases h with
    | restore h => exact .restore h
    | done h => exact .done h
    | readFlag h => exact .readFlag h
    | disable h => exact .disable h
    | store h => exact .store h
    | critical h hb => exact .critical h hb
    | readRestore h hb => exact .readRestore h hb
    | release h => exact .release h

theorem Spinning.act {s : Pc × Cpu} (h : Spinning s.1 s.2) (a : Actor) :
    Spinning (act s a).1 (act s a).2 ∨ Saved false (act s a).1 (act s a).2 := by
  obtain ⟨pc,c⟩ := s
  cases a with
  | own => exact h.step
  | other =>
    left
    cases h with
    | enable => exact .enable
    | pause => exact .pause
    | disableAgain => exact .disableAgain
    | exchange h => exact .exchange h

theorem Saved.run {s : Pc × Cpu} (h : Saved b s.1 s.2) (schedule : List Actor) :
    Saved b (run s schedule).1 (run s schedule).2 := by
  induction schedule generalizing s with
  | nil => exact h
  | cons a schedule ih => exact ih (h.act a)

theorem Spinning.run {s : Pc × Cpu} (h : Spinning s.1 s.2) (schedule : List Actor) :
    Spinning (run s schedule).1 (run s schedule).2 ∨
      Saved false (run s schedule).1 (run s schedule).2 := by
  induction schedule generalizing s with
  | nil => exact .inl h
  | cons a schedule ih =>
    obtain hnext | hnext := h.act a
    · exact ih hnext
    · exact .inr (hnext.run schedule)

/-- A context that has ended has the flag of the try that got the lock. -/
theorem Saved.flag_of_done (h : Saved b .done c) : c.flag=b := by
  cases h with
  | done h => exact h

/-- As long as the lock is free the context has not begun or will get it at once. -/
theorem run_free {schedule : List Actor} (hfree : c.lock.locked=0)
    (hdone : (run (.exchange,c) schedule).1=.done) :
    (run (.exchange,c) schedule).2.flag=c.flag := by
  induction schedule generalizing c with
  | nil => cases hdone
  | cons a schedule ih =>
    cases a with
    | own =>
      have hsaved := Saved.run (s := act (.exchange,c) .own) (step_free hfree) schedule
      change (run (act (.exchange,c) .own) schedule).1=.done at hdone
      rw [hdone] at hsaved
      exact hsaved.flag_of_done
    | other => exact ih (c := {c with lock := {c.lock with locked := 0}}) rfl hdone

theorem run_taken {schedule : List Actor} (htaken : ¬FreeAtFirstTry c schedule)
    (hdone : (run (.exchange,c) schedule).1=.done) :
    (run (.exchange,c) schedule).2.flag=false := by
  rw [FreeAtFirstTry,not_or] at htaken
  cases schedule with
  | nil => cases hdone
  | cons a schedule =>
    cases a with
    | own =>
      have hspun := Spinning.run (s := act (.exchange,c) .own) (step_taken htaken.1) schedule
      change (run (act (.exchange,c) .own) schedule).1=.done at hdone
      rw [hdone] at hspun
      obtain hspin | hsaved := hspun
      · cases hspin
      · exact hsaved.flag_of_done
    | other => exact absurd rfl htaken.2

/-- The flag comes back when the lock was not contended, or was down from the start. -/
theorem flag_restored_iff (c : Cpu) (schedule : List Actor)
    (hdone : (run (.exchange,c) schedule).1=.done) :
    (run (.exchange,c) schedule).2.flag=c.flag ↔ c.flag=false ∨ FreeAtFirstTry c schedule := by
  by_cases hfree : FreeAtFirstTry c schedule
  · have hflag : (run (.exchange,c) schedule).2.flag=c.flag := by
      obtain h | h := hfree
      · exact run_free h hdone
      · obtain _ | ⟨a,schedule⟩ := schedule
        · cases h
        · obtain rfl : a=.other := by simpa using h
          exact run_free (c := {c with lock := {c.lock with locked := 0}}) rfl hdone
    exact iff_of_true hflag (.inr hfree)
  · rw [run_taken hfree hdone,or_iff_left hfree]
    exact eq_comm

theorem uncontended_restored :
    let c : Cpu := ⟨true,spinlockInit⟩
    let schedule := List.replicate 8 Actor.own
    (run (.exchange,c) schedule).2.flag=c.flag ↔ c.flag=false ∨ FreeAtFirstTry c schedule :=
  flag_restored_iff _ _ rfl

/-- The lock is held on entry, and released after the first try. -/
def contended : List Actor := [.own,.other]++List.replicate 11 .own

theorem contended_not_restored :
    ¬∀ (c : Cpu) (schedule : List Actor),(run (.exchange,c) schedule).1=.done →
      (run (.exchange,c) schedule).2.flag=c.flag := by
  intro hall
  have hflag := hall ⟨true,⟨1,false⟩⟩ contended rfl
  cases hflag

end Cllm.Kernel
