import Cllm.Unikernel.Interleaving

namespace Cllm.Unikernel

open Libc Network Http Tcp Api Machine

/-- The calls of tcp_periodic. -/
def ticks (es : List LoopEvent) : Nat := (calls es).countP fun input => match input with
  | .periodic => true
  | _ => false

theorem ticks_append (x y : List LoopEvent) : ticks (x++y)=ticks x+ticks y := by
  rw [ticks,calls_append,List.countP_append]
  rfl

theorem tcpInput_now (rr : HttpRequest → HttpResponse) (ip : UInt32) (seg : Segment)
    (t : TcpStack) : (tcpInput rr ip seg t).1.now=t.now := by
  rw [tcpInput]
  split <;> rfl

/-- A frame does not move the clock of the stack. -/
theorem networkReceive_now (rr : HttpRequest → HttpResponse) (frame : Frame) (h : Host) :
    (networkReceive rr frame h).1.tcp.now=h.tcp.now := by
  have ht := congrArg Prod.fst (networkReceive_tcp rr frame h)
  simp only at ht
  rw [ht]
  split
  · rfl
  · apply tcpInput_now

/-- The counter of the loop and the clock of the stack after `n` turns. -/
structure Timed (s : NetworkLoop) (es : List LoopEvent) : Prop where
  counter : s.lastTcpTick.toNat=turns es%100000
  periodic : ticks es=turns es/100000
  now : s.kernel.host.tcp.now=UInt32.ofNat (turns es/100000)

section Timed

variable {s : NetworkLoop} {es : List LoopEvent}

theorem Timed.quiet (h : Timed s es) {s' : NetworkLoop} {new : List LoopEvent}
    (hl : s'.lastTcpTick=s.lastTcpTick) (hn : s'.kernel.host.tcp.now=s.kernel.host.tcp.now)
    (ht : turns new=0) (hc : ticks new=0) : Timed s' (es++new) := by
  refine ⟨?_,?_,?_⟩
  · rw [hl,turns_append,ht]
    exact h.counter
  · rw [ticks_append,turns_append,ht,hc]
    exact h.periodic
  · rw [hn,turns_append,ht]
    exact h.now

/-- One turn, with tcp_periodic at the end of every hundred thousand. -/
theorem Timed.count (h : Timed s es) : Timed (loopCount s).1 (es++(loopCount s).2) := by
  have hcounter := h.counter
  have hsucc : (s.lastTcpTick+1).toNat=s.lastTcpTick.toNat+1 := by
    rw [UInt32.toNat_add]
    show (_+1)%4294967296=_
    omega
  have hlimit : (100000 : UInt32).toNat=100000 := rfl
  by_cases ht : s.lastTcpTick+1≥100000
  · have htn := UInt32.le_iff_toNat_le.mp ht
    have hturns : turns (es++[.counted,.called .periodic (kernelCall s.kernel .periodic).2])=
        turns es+1 := turns_append ..
    have hticks : ticks (es++[.counted,.called .periodic
        (kernelCall s.kernel .periodic).2])=ticks es+1 := ticks_append ..
    have hnow : (kernelCall s.kernel .periodic).1.host.tcp.now=s.kernel.host.tcp.now+1 := rfl
    have hdiv : (turns es+1)/100000=turns es/100000+1 := by omega
    rw [loopCount_turn s ht]
    refine ⟨?_,?_,?_⟩
    · rw [hturns]
      show 0=_
      omega
    · rw [hticks,hturns,hdiv,h.periodic]
    · rw [hturns,hdiv,UInt32.ofNat_add]
      show (kernelCall s.kernel .periodic).1.host.tcp.now=_
      rw [hnow,h.now]
      rfl
  · have htn : ¬100000 ≤ (s.lastTcpTick+1).toNat := fun hle =>
      ht (UInt32.le_iff_toNat_le.mpr hle)
    have hturns : turns (es++[.counted])=turns es+1 := turns_append ..
    have hticks : ticks (es++[.counted])=ticks es := ticks_append ..
    have hdiv : (turns es+1)/100000=turns es/100000 := by omega
    rw [loopCount_idle s ht]
    refine ⟨?_,?_,?_⟩
    · rw [hturns,hsucc]
      omega
    · rw [hticks,hturns,hdiv]
      exact h.periodic
    · rw [hturns,hdiv]
      exact h.now

theorem Timed.step (h : Timed s es) (a : LoopAction) :
    Timed (loopStep s a).1 (es++(loopStep s a).2) := by
  cases a with
  | nicReceive frame report =>
    simp only [loopStep]
    apply h.quiet
    · rfl
    · rfl
    · apply turns_rx
    · rw [ticks,calls_rx]
      rfl
  | nicTransmit =>
    simp only [loopStep]
    apply h.quiet
    · rfl
    · rfl
    · apply turns_tx
    · rw [ticks,calls_tx]
      rfl
  | nicDone i => exact h.quiet rfl rfl rfl rfl
  | cpu environment =>
    cases hpc : s.pc with
    | receiving =>
      simp only [loopStep,hpc]
      apply h.quiet
      · rfl
      · rfl
      · apply turns_rx
      · rw [loopReceive_events,ticks,calls_rx]
        rfl
    | dispatching frame =>
      simp only [loopStep,hpc]
      apply h.quiet
      · rfl
      · apply networkReceive_now
      · simp only [loopDispatch,turns_append,turns_logged]
        rfl
      · simp only [loopDispatch,ticks,calls_append,calls_logged]
        rfl
    | sending frames timer =>
      obtain ⟨-,hkernel,hlast⟩ := loopSend_others s frames timer
      simp only [loopStep,hpc]
      apply h.quiet hlast
      · rw [hkernel]
      · rw [(loopSend_tx s frames timer).2]
        apply turns_tx
      · rw [(loopSend_tx s frames timer).2,ticks,calls_tx]
        rfl
    | counting =>
      simp only [loopStep,hpc]
      exact h.count

end Timed

section Loop

variable (rxBuffers : Nat → Buffer rxBufferSize) (txBuffers : Nat → Buffer txBufferSize)
  (as : List LoopAction)

theorem timed_run : Timed (runState loopStep (loopInit rxBuffers txBuffers) as)
    (outputs loopStep (loopInit rxBuffers txBuffers) as) := by
  have hrun := history_along loopStep (fun s _ es => Timed s es) (P := fun _ _ => True)
    (fun s _ es a h _ => h.step a) (h := []) (o := [])
    (s := loopInit rxBuffers txBuffers) ⟨rfl,rfl,rfl⟩
    (along_of_forall _ (fun _ _ => trivial) _ as)
  simpa using hrun

/-- In every run tcp_periodic is called once in a hundred thousand turns of the loop, and its
counter and tcp_now say how many turns that have been, up to the width of tcp_now. -/
theorem loop_timed (rxBuffers : Nat → Buffer rxBufferSize)
    (txBuffers : Nat → Buffer txBufferSize) (as : List LoopAction) :
    let s := runState loopStep (loopInit rxBuffers txBuffers) as
    let es := outputs loopStep (loopInit rxBuffers txBuffers) as
    s.lastTcpTick.toNat=turns es%100000 ∧ ticks es=turns es/100000 ∧
      s.kernel.host.tcp.now=UInt32.ofNat (turns es/100000) := by
  intro s es
  obtain ⟨hcounter,hperiodic,hnow⟩ := timed_run rxBuffers txBuffers as
  exact ⟨hcounter,hperiodic,hnow⟩

end Loop

end Cllm.Unikernel
