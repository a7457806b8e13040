import Cllm.Unikernel.Frames

namespace Cllm.Unikernel

open Libc Network Http Tcp Api Machine

/-- The accesses that a call of e1000_receive_packet has left, at most. -/
def rxLeft : RxCall → Nat
  | .checking => 2054
  | .sizing => 2053
  | .copying length buffer => length-buffer.length+4
  | .clearing _ => 3
  | .advancing _ => 2
  | .returning _ => 1

/-- The fields from this one to the last. -/
def fieldsLeft : TxField → Nat
  | .length => 6
  | .cso => 5
  | .command => 4
  | .status => 3
  | .css => 2
  | .special => 1

/-- The accesses that a call of e1000_send_packet has left, at most. -/
def txLeft : TxCall → Nat
  | .idle => 0
  | .reading _ => 3060
  | .checking _ _ => 3059
  | .copying frame i => frame.1.length-i+1010
  | .describing _ field => fieldsLeft field+1003
  | .advancing _ => 1003
  | .queueing _ => 1002
  | .polling left => left+1

/-- The steps until the loop has counted its next turn, at most. -/
def stepsLeft (s : NetworkLoop) : Nat :=
  match s.pc with
  | .receiving => rxLeft s.rx.call+9186
  | .dispatching _ => 9186
  | .sending frames false => txLeft s.tx.call+3061*frames.length+2
  | .counting => 1
  | .sending frames true => txLeft s.tx.call+3061*frames.length+11241

/-- The most that one turn takes. -/
abbrev turnSteps : Nat := 20424

theorem turnSteps_eq : turnSteps=20424 := rfl

theorem rxLeft_pos (c : RxCall) : 1 ≤ rxLeft c := by
  cases c <;> simp only [rxLeft] <;> omega

/-- An access of a receiving call is one less to do, or the last. -/
theorem e1000ReceivePacket_left (s : Rx) :
    (returnedFrame (e1000ReceivePacket s).2=none ∧
      rxLeft (e1000ReceivePacket s).1.call+1 ≤ rxLeft s.call) ∨
    (returnedFrame (e1000ReceivePacket s).2≠none ∧ (e1000ReceivePacket s).1.call=.checking) := by
  cases hc : s.call with
  | checking =>
    simp only [e1000ReceivePacket,hc]
    split_ifs
    · exact .inl ⟨rfl,le_refl _⟩
    · exact .inr ⟨Option.some_ne_none _,hc⟩
  | sizing =>
    left
    refine ⟨by simp only [e1000ReceivePacket,hc]; rfl,?_⟩
    simp only [e1000ReceivePacket,hc,rxLeft,List.length_nil]
    have hsize := rx_sizes.2
    split_ifs <;> omega
  | copying length buffer =>
    left
    simp only [e1000ReceivePacket,hc]
    split_ifs with hlt
    · refine ⟨rfl,?_⟩
      simp only [rxLeft,List.length_append,List.length_singleton]
      omega
    · refine ⟨rfl,?_⟩
      simp only [rxLeft]
      omega
  | clearing frame =>
    left
    simp only [e1000ReceivePacket,hc]
    exact ⟨rfl,le_refl _⟩
  | advancing frame =>
    left
    simp only [e1000ReceivePacket,hc]
    exact ⟨rfl,le_refl _⟩
  | returning frame =>
    right
    simp only [e1000ReceivePacket,hc]
    exact ⟨Option.some_ne_none _,trivial⟩

/-- Whatever the NIC does, an access of a sending call is one less to do. -/
theorem e1000SendPacket_left (s : Tx) (h : s.call≠.idle) :
    txLeft (e1000SendPacket s).1.call+1 ≤ txLeft s.call := by
  have hsize := tx_sizes.2
  cases hc : s.call with
  | idle => exact absurd hc h
  | reading frame =>
    simp only [e1000SendPacket,hc]
    exact le_refl _
  | checking frame txHead =>
    have hframe := frame.2
    simp only [e1000SendPacket,hc]
    split_ifs
    · simp only [txLeft]
      omega
    · simp only [txLeft]
      omega
  | copying frame i =>
    simp only [e1000SendPacket,hc]
    split_ifs
    · simp only [txLeft]
      omega
    · simp only [txLeft,fieldsLeft]
      omega
  | describing frame field =>
    simp only [e1000SendPacket,hc]
    cases field <;> exact le_refl _
  | advancing frame =>
    simp only [e1000SendPacket,hc]
    exact le_refl _
  | queueing frame =>
    simp only [e1000SendPacket,hc]
    exact le_refl _
  | polling left =>
    simp only [e1000SendPacket,hc]
    split_ifs
    · simp only [txLeft]
      omega
    · simp only [txLeft]
      omega
    · simp only [txLeft]
      omega

/-- Calls of the driver end before the loop goes on. -/
structure Settled (s : NetworkLoop) : Prop where
  rx : s.pc≠.receiving → s.rx.call=.checking
  tx : s.tx.call≠.idle → ∃ frames timer,s.pc=.sending frames timer
  reachable : s.kernel.host.Reachable

theorem kernelCall_reachable {k : KernelState} (h : k.host.Reachable) (input : KernelInput) :
    (kernelCall k input).1.host.Reachable := by
  obtain ⟨as,has⟩ := h
  have hstep := tcpRefines.view_step k input
  refine ⟨as++tcpRefines.inputs k input,?_⟩
  rw [run,runState_append]
  show (kernelCall k input).1.host.tcp=_
  rw [← run,← has]
  exact hstep

theorem nic_calls (s : Rx) (frame : RxFrame) (report : RxDesc) :
    (nicReceive frame report s).1.call=s.call := by
  rw [nicReceive]
  split_ifs <;> rfl

theorem transmit_calls (s : Tx) : (nicTransmit s).1.call=s.call := by
  rw [nicTransmit]
  split_ifs <;> rfl

/-- What a step costs, and what its events pay when a turn is worth `n`. -/
def LoopAction.cost : LoopAction → Nat
  | .cpu _ => 1
  | _ => 0

def LoopEvent.pays (n : Nat) : LoopEvent → Nat
  | .counted => n
  | _ => 0

theorem txFrames_length (frames : List Frame) (hf : ∀ f∈frames,f.length ≤ txBufferSize) :
    (txFrames frames hf).length=frames.length := by
  simp [txFrames]

theorem pays_rx (n : Nat) (es : List RxEvent) :
    ((es.map LoopEvent.rx).map (LoopEvent.pays n)).sum=0 := by
  simp [Function.comp_def,LoopEvent.pays]

theorem pays_tx (n : Nat) (es : List TxEvent) :
    ((es.map LoopEvent.tx).map (LoopEvent.pays n)).sum=0 := by
  simp [Function.comp_def,LoopEvent.pays]

section Steps

variable {s : NetworkLoop}

/-- A step keeps the calls apart, and has been paid for. -/
def Pays (s : NetworkLoop) (a : LoopAction) (r : NetworkLoop × List LoopEvent) : Prop :=
  Settled r.1 ∧ a.cost+stepsLeft r.1 ≤ stepsLeft s+(r.2.map (LoopEvent.pays turnSteps)).sum

theorem Settled.receive (h : Settled s) (environment : Environment) (hpc : s.pc=.receiving) :
    Pays s (.cpu environment) (loopReceive s) := by
  have htx : s.tx.call=.idle := by
    by_contra hne
    obtain ⟨frames,timer,hs⟩ := h.tx hne
    rw [hpc] at hs
    cases hs
  have hleft : stepsLeft s=rxLeft s.rx.call+9186 := by rw [stepsLeft,hpc]
  have hpos := rxLeft_pos s.rx.call
  have hpays : ((loopReceive s).2.map (LoopEvent.pays turnSteps)).sum=0 := pays_rx _ _
  rw [Pays,hpays,hleft]
  show _ ∧ 1+_ ≤ _
  rcases e1000ReceivePacket_left s.rx with ⟨hnone,hless⟩|⟨hsome,hcall⟩
  · have hstep : (loopReceive s).1={s with rx := (e1000ReceivePacket s.rx).1,pc := .receiving} := by
      simp only [loopReceive,rxStep,hnone]
    rw [hstep]
    refine ⟨⟨fun hne => absurd rfl hne,fun hne => absurd htx hne,h.reachable⟩,?_⟩
    show 1+(rxLeft (e1000ReceivePacket s.rx).1.call+9186) ≤ _
    omega
  · obtain ⟨result,hr⟩ := Option.ne_none_iff_exists'.mp hsome
    cases result with
    | none =>
      have hstep : (loopReceive s).1={s with
          rx := (e1000ReceivePacket s.rx).1
          pc := .counting} := by simp only [loopReceive,rxStep,hr]
      rw [hstep]
      refine ⟨⟨fun _ => hcall,fun hne => absurd htx hne,h.reachable⟩,?_⟩
      show 1+1 ≤ _
      omega
    | some frame =>
      have hstep : (loopReceive s).1={s with
          rx := (e1000ReceivePacket s.rx).1
          pc := .dispatching frame} := by simp only [loopReceive,rxStep,hr]
      rw [hstep]
      refine ⟨⟨fun _ => hcall,fun hne => absurd htx hne,h.reachable⟩,?_⟩
      show 1+9186 ≤ _
      omega

theorem Settled.dispatch (h : Settled s) (environment : Environment) {frame : Frame}
    (hpc : s.pc=.dispatching frame) :
    Pays s (.cpu environment) (loopDispatch environment frame s) := by
  have hrx := h.rx (by simp [hpc])
  have htx : s.tx.call=.idle := by
    by_contra hne
    obtain ⟨frames,timer,hs⟩ := h.tx hne
    rw [hpc] at hs
    cases hs
  have hleft : stepsLeft s=9186 := by rw [stepsLeft,hpc]
  obtain ⟨-,hfew⟩ := kernelCall_frames h.reachable (.frame environment frame)
  have hlen := txFrames_length (kernelCall s.kernel (.frame environment frame)).2.frames
    fun _ h => kernelCall_fits h
  refine ⟨⟨fun _ => hrx,fun hne => absurd htx hne,kernelCall_reachable h.reachable _⟩,?_⟩
  rw [hleft]
  simp only [loopDispatch,stepsLeft,hlen,htx,txLeft,LoopAction.cost]
  omega

theorem Settled.send (h : Settled s) (environment : Environment) {frames : List TxFrame}
    {timer : Bool} (hpc : s.pc=.sending frames timer) :
    Pays s (.cpu environment) (loopSend frames timer s) := by
  have hrx := h.rx (by simp [hpc])
  by_cases hidle : s.tx.call=.idle
  · cases frames with
    | nil =>
      have hstep : loopSend [] timer s=
          ({s with pc := if timer then .receiving else .counting},[]) := by
        simp only [loopSend,hidle]
      rw [hstep]
      refine ⟨⟨fun _ => hrx,fun hne => absurd hidle hne,h.reachable⟩,?_⟩
      cases timer with
      | false =>
        simp only [stepsLeft,hpc,hidle,txLeft,LoopAction.cost]
        show 1+1 ≤ _
        omega
      | true =>
        simp only [stepsLeft,hpc,hidle,hrx,txLeft,LoopAction.cost]
        show 1+(2054+9186) ≤ _
        omega
    | cons frame frames =>
      have hstep : loopSend (frame::frames) timer s=
          ({s with tx := {s.tx with call := .reading frame},pc := .sending frames timer},[]) := by
        simp only [loopSend,hidle,txStep,List.map_nil]
      rw [hstep]
      refine ⟨⟨fun _ => hrx,fun _ => ⟨frames,timer,rfl⟩,h.reachable⟩,?_⟩
      cases timer <;>
        simp only [stepsLeft,hpc,hidle,txLeft,LoopAction.cost,List.length_cons] <;> omega
  · have hless := e1000SendPacket_left s.tx hidle
    have hstep : loopSend frames timer s=
        ({s with tx := (e1000SendPacket s.tx).1},(e1000SendPacket s.tx).2.map .tx) := by
      cases hc : s.tx.call with
      | idle => exact absurd hc hidle
      | _ => simp only [loopSend,hc,txStep]
    rw [hstep]
    refine ⟨⟨fun _ => hrx,fun _ => ⟨frames,timer,hpc⟩,h.reachable⟩,?_⟩
    rw [pays_tx]
    cases timer <;> simp only [stepsLeft,hpc,LoopAction.cost] <;> omega

theorem Settled.count (h : Settled s) (environment : Environment) (hpc : s.pc=.counting) :
    Pays s (.cpu environment) (loopCount s) := by
  have hrx := h.rx (by simp [hpc])
  have htx : s.tx.call=.idle := by
    by_contra hne
    obtain ⟨frames,timer,hs⟩ := h.tx hne
    rw [hpc] at hs
    cases hs
  have hleft : stepsLeft s=1 := by rw [stepsLeft,hpc]
  by_cases ht : s.lastTcpTick+1≥100000
  · obtain ⟨-,hfew⟩ := kernelCall_frames h.reachable .periodic
    have hlen := txFrames_length (kernelCall s.kernel .periodic).2.frames
      fun _ h => kernelCall_fits h
    have hturn := turnSteps_eq
    rw [loopCount_turn s ht]
    refine ⟨⟨fun _ => hrx,fun hne => absurd htx hne,kernelCall_reachable h.reachable _⟩,?_⟩
    rw [hleft]
    simp only [stepsLeft,hlen,htx,txLeft,LoopAction.cost,List.map_cons,List.map_nil,
      LoopEvent.pays,List.sum_cons,List.sum_nil]
    omega
  · have hturn := turnSteps_eq
    rw [loopCount_idle s ht]
    refine ⟨⟨fun hne => absurd rfl hne,fun hne => absurd htx hne,h.reachable⟩,?_⟩
    rw [hleft]
    simp only [stepsLeft,hrx,rxLeft,LoopAction.cost,List.map_cons,List.map_nil,
      LoopEvent.pays,List.sum_cons,List.sum_nil]
    omega

/-- The NIC costs the loop nothing. -/
theorem Settled.step (h : Settled s) (a : LoopAction) : Pays s a (loopStep s a) := by
  cases a with
  | nicReceive frame report =>
    have hcall := nic_calls s.rx frame report
    refine ⟨⟨fun hne => hcall.trans (h.rx hne),h.tx,h.reachable⟩,?_⟩
    simp only [loopStep,stepsLeft,rxStep,hcall,LoopAction.cost,pays_rx]
    omega
  | nicTransmit =>
    have hcall := transmit_calls s.tx
    refine ⟨⟨h.rx,fun hne => h.tx (hcall ▸ hne),h.reachable⟩,?_⟩
    simp only [loopStep,stepsLeft,txStep,hcall,LoopAction.cost,pays_tx]
    omega
  | nicDone i =>
    refine ⟨⟨h.rx,h.tx,h.reachable⟩,?_⟩
    simp only [loopStep,stepsLeft,txStep,nicDone,LoopAction.cost,pays_tx]
    omega
  | cpu environment =>
    cases hpc : s.pc with
    | receiving =>
      simp only [loopStep,hpc]
      exact h.receive environment hpc
    | dispatching frame =>
      simp only [loopStep,hpc]
      exact h.dispatch environment hpc
    | sending frames timer =>
      simp only [loopStep,hpc]
      exact h.send environment hpc
    | counting =>
      simp only [loopStep,hpc]
      exact h.count environment hpc

end Steps

section Loop

variable (rxBuffers : Nat → Buffer rxBufferSize) (txBuffers : Nat → Buffer txBufferSize)
  (as : List LoopAction)

theorem settled_init : Settled (loopInit rxBuffers txBuffers) :=
  ⟨fun hne => absurd rfl hne,fun hne => absurd rfl hne,[],rfl⟩

/-- The steps of the loop in a run. -/
def cpuSteps (as : List LoopAction) : Nat := (as.map LoopAction.cost).sum

theorem pays_turns (n : Nat) (es : List LoopEvent) :
    (es.map (LoopEvent.pays n)).sum=n*turns es := by
  induction es with
  | nil => rfl
  | cons e es ih =>
    have hcons : turns (e::es)=turns [e]+turns es := turns_append [e] es
    have hfirst : e.pays n=n*turns [e] := by
      cases e <;> simp [LoopEvent.pays,turns]
    rw [List.map_cons,List.sum_cons,ih,hcons,Nat.mul_add,hfirst]

/-- Whatever frames arrive and whether or not the NIC ever sends one, the loop goes round: in no
run does it take more than a fixed number of steps for each turn that it counts. -/
theorem loop_progress :
    cpuSteps as ≤ turnSteps*(turns (outputs loopStep (loopInit rxBuffers txBuffers) as)+1) := by
  have hrun := amortised Settled (fun s a h => (h.step a).1) (fun s a h => (h.step a).2)
    (settled_init rxBuffers txBuffers) as
  rw [pays_turns] at hrun
  have hfirst : stepsLeft (loopInit rxBuffers txBuffers)=11240 := by
    simp only [stepsLeft,loopInit,rxInit,rxLeft]
  have hturn := turnSteps_eq
  rw [hfirst] at hrun
  rw [cpuSteps,Nat.mul_add]
  omega

end Loop

end Cllm.Unikernel
