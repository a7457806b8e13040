import Cllm.Framework.Refinement
import Cllm.Unikernel.NetworkLoop

namespace Cllm.Unikernel

open Libc Network Http Tcp Api Machine

def rxInputs (s : NetworkLoop) : LoopAction → List RxAction
  | .nicReceive frame report => [.nic frame report]
  | .nicTransmit => []
  | .nicDone _ => []
  | .cpu _ =>
    match s.pc with
    | .receiving => [.driver]
    | _ => []

/-- What the driver of the transmit ring does while frames are to be sent. -/
def sendInputs (call : TxCall) (frames : List TxFrame) : List TxAction :=
  match call with
  | .idle =>
    match frames with
    | [] => []
    | frame::_ => [.call frame]
  | _ => [.driver]

def txInputs (s : NetworkLoop) : LoopAction → List TxAction
  | .nicReceive _ _ => []
  | .nicTransmit => [.transmit]
  | .nicDone i => [.done i]
  | .cpu _ =>
    match s.pc with
    | .sending frames _ => sendInputs s.tx.call frames
    | _ => []

def kernelInputs (s : NetworkLoop) : LoopAction → List KernelInput
  | .nicReceive _ _ => []
  | .nicTransmit => []
  | .nicDone _ => []
  | .cpu environment =>
    match s.pc with
    | .dispatching frame => [.frame environment frame]
    | .counting => if s.lastTcpTick+1≥100000 then [.periodic] else []
    | _ => []

section Steps

variable (s : NetworkLoop)

theorem loopReceive_events : (loopReceive s).2=(rxStep s.rx .driver).2.map .rx := rfl

theorem loopSend_tx (frames : List TxFrame) (timer : Bool) :
    (loopSend frames timer s).1.tx=runState txStep s.tx (sendInputs s.tx.call frames) ∧
      (loopSend frames timer s).2=(outputs txStep s.tx (sendInputs s.tx.call frames)).map .tx := by
  cases hc : s.tx.call with
  | idle =>
    cases frames with
    | nil => simp [loopSend,sendInputs,hc]
    | cons frame frames => simp [loopSend,sendInputs,hc]
  | _ => simp [loopSend,sendInputs,hc]

theorem loopSend_others (frames : List TxFrame) (timer : Bool) :
    (loopSend frames timer s).1.rx=s.rx ∧ (loopSend frames timer s).1.kernel=s.kernel ∧
      (loopSend frames timer s).1.lastTcpTick=s.lastTcpTick := by
  cases hc : s.tx.call with
  | idle => cases frames <;> simp [loopSend,hc]
  | _ => simp [loopSend,hc]

theorem loopCount_turn (h : s.lastTcpTick+1≥100000) : loopCount s=
    ({s with
      kernel := (kernelCall s.kernel .periodic).1
      lastTcpTick := 0
      pc := .sending (txFrames (kernelCall s.kernel .periodic).2.frames
        fun _ h => kernelCall_fits h) true},
      [.counted,.called .periodic (kernelCall s.kernel .periodic).2]) := if_pos h

theorem loopCount_idle (h : ¬s.lastTcpTick+1≥100000) : loopCount s=
    ({s with lastTcpTick := s.lastTcpTick+1,pc := .receiving},[.counted]) := if_neg h

end Steps

def rxRefines : Refines loopStep rxStep where
  view := NetworkLoop.rx
  inputs := rxInputs
  seen := rxEvents
  seen_nil := rfl
  seen_append := rxEvents_append
  view_step s a := by
    cases a with
    | nicReceive frame report => rfl
    | nicTransmit => rfl
    | nicDone i => rfl
    | cpu environment =>
      cases hpc : s.pc with
      | receiving => simp [loopStep,rxInputs,hpc,loopReceive]
      | dispatching frame => simp [loopStep,rxInputs,hpc,loopDispatch]
      | sending frames timer => simp [loopStep,rxInputs,hpc,(loopSend_others s frames timer).1]
      | counting =>
        simp only [loopStep,rxInputs,hpc,loopCount]
        split_ifs <;> rfl
  seen_step s a := by
    cases a with
    | nicReceive frame report => simp [loopStep,rxInputs]
    | nicTransmit => simp [loopStep,rxInputs]
    | nicDone i => simp [loopStep,rxInputs]
    | cpu environment =>
      cases hpc : s.pc with
      | receiving => simp [loopStep,rxInputs,hpc,loopReceive]
      | dispatching frame =>
        simp only [loopStep,rxInputs,hpc,loopDispatch,rxEvents_append,rxEvents_logged]
        rfl
      | sending frames timer =>
        simp [loopStep,rxInputs,hpc,(loopSend_tx s frames timer).2]
      | counting =>
        simp only [loopStep,rxInputs,hpc,loopCount]
        split_ifs <;> rfl

def txRefines : Refines loopStep txStep where
  view := NetworkLoop.tx
  inputs := txInputs
  seen := txEvents
  seen_nil := rfl
  seen_append := txEvents_append
  view_step s a := by
    cases a with
    | nicReceive frame report => rfl
    | nicTransmit => rfl
    | nicDone i => rfl
    | cpu environment =>
      cases hpc : s.pc with
      | receiving => simp [loopStep,txInputs,hpc,loopReceive]
      | dispatching frame => simp [loopStep,txInputs,hpc,loopDispatch]
      | sending frames timer => simp [loopStep,txInputs,hpc,(loopSend_tx s frames timer).1]
      | counting =>
        simp only [loopStep,txInputs,hpc,loopCount]
        split_ifs <;> rfl
  seen_step s a := by
    cases a with
    | nicReceive frame report => simp [loopStep,txInputs]
    | nicTransmit => simp [loopStep,txInputs]
    | nicDone i => simp [loopStep,txInputs]
    | cpu environment =>
      cases hpc : s.pc with
      | receiving => simp [loopStep,txInputs,hpc,loopReceive]
      | dispatching frame =>
        simp only [loopStep,txInputs,hpc,loopDispatch,txEvents_append,txEvents_logged]
        rfl
      | sending frames timer =>
        simp [loopStep,txInputs,hpc,(loopSend_tx s frames timer).2]
      | counting =>
        simp only [loopStep,txInputs,hpc,loopCount]
        split_ifs <;> rfl

/-- To the stack a run of the loop is its calls, each made in one step. -/
def kernelRefines : Refines loopStep kernelStep where
  view := NetworkLoop.kernel
  inputs := kernelInputs
  seen := outcomes
  seen_nil := rfl
  seen_append := outcomes_append
  view_step s a := by
    cases a with
    | nicReceive frame report => rfl
    | nicTransmit => rfl
    | nicDone i => rfl
    | cpu environment =>
      cases hpc : s.pc with
      | receiving => simp [loopStep,kernelInputs,hpc,loopReceive]
      | dispatching frame => simp [loopStep,kernelInputs,hpc,loopDispatch,kernelStep]
      | sending frames timer =>
        simp [loopStep,kernelInputs,hpc,(loopSend_others s frames timer).2.1]
      | counting =>
        simp only [loopStep,kernelInputs,hpc,loopCount]
        split_ifs <;> rfl
  seen_step s a := by
    cases a with
    | nicReceive frame report => simp [loopStep,kernelInputs]
    | nicTransmit => simp [loopStep,kernelInputs]
    | nicDone i => simp [loopStep,kernelInputs]
    | cpu environment =>
      cases hpc : s.pc with
      | receiving => simp [loopStep,kernelInputs,hpc,loopReceive]
      | dispatching frame =>
        simp only [loopStep,kernelInputs,hpc,loopDispatch,outcomes_append,outcomes_logged]
        rfl
      | sending frames timer =>
        simp [loopStep,kernelInputs,hpc,(loopSend_tx s frames timer).2]
      | counting =>
        simp only [loopStep,kernelInputs,hpc,loopCount]
        split_ifs <;> rfl

/-- The calls that stand in the output of a run are those the stack sees. -/
theorem calls_step (s : NetworkLoop) (a : LoopAction) :
    calls (loopStep s a).2=kernelInputs s a := by
  cases a with
  | nicReceive frame report => simp [loopStep,kernelInputs]
  | nicTransmit => simp [loopStep,kernelInputs]
  | nicDone i => simp [loopStep,kernelInputs]
  | cpu environment =>
    cases hpc : s.pc with
    | receiving => simp [loopStep,kernelInputs,hpc,loopReceive]
    | dispatching frame =>
      simp only [loopStep,kernelInputs,hpc,loopDispatch,calls_append,calls_logged]
      rfl
    | sending frames timer => simp [loopStep,kernelInputs,hpc,(loopSend_tx s frames timer).2]
    | counting =>
      simp only [loopStep,kernelInputs,hpc,loopCount]
      split_ifs <;> rfl

theorem calls_run (s : NetworkLoop) (as : List LoopAction) :
    calls (outputs loopStep s as)=kernelRefines.inputsOf s as := by
  induction as generalizing s with
  | nil => rfl
  | cons a as ih => rw [outputs_cons,calls_append,calls_step,ih]; rfl

/-- The calls into tcp.c among those into the stack. -/
def tcpRefines : Refines kernelStep tcpStep where
  view k := k.host.tcp
  inputs k
    | .frame environment frame =>
      match frameSegment frame with
      | some (src,seg) => [.receive (handler environment k.api) src seg.packet]
      | none => []
    | .periodic => [.periodic]
  seen := List.flatMap Outcome.events
  seen_nil := rfl
  seen_append _ _ := List.flatMap_append
  view_step k input := by
    cases input with
    | periodic => rfl
    | frame environment frame =>
      have ht := congrArg Prod.fst (networkReceive_tcp (handler environment k.api) frame k.host)
      simp only [kernelStep,kernelCall]
      cases hf : frameSegment frame with
      | none =>
        rw [hf] at ht
        exact ht
      | some r =>
        rw [hf] at ht
        simp only [runState_cons,runState_nil,tcpStep,tcpReceive,tcpSegment_packet]
        exact ht
  seen_step k input := by
    cases input with
    | periodic => simp [kernelStep,kernelCall,tcpStep]
    | frame environment frame =>
      have ht := congrArg Prod.snd (networkReceive_tcp (handler environment k.api) frame k.host)
      simp only [kernelStep,kernelCall,List.flatMap_cons,List.flatMap_nil,List.append_nil]
      cases hf : frameSegment frame with
      | none =>
        rw [hf] at ht
        exact ht
      | some r =>
        rw [hf] at ht
        simp only [outputs_cons,outputs_nil,tcpStep,tcpReceive,tcpSegment_packet,List.append_nil]
        exact ht

/-- In every state of the loop the socket table is one that calls into tcp.c lead to. -/
theorem kernel_reachable (inputs : List KernelInput) :
    (runState kernelStep kernelInit inputs).host.Reachable :=
  ⟨_,tcpRefines.view_run kernelInit inputs⟩

/-- The frame that has been received and not yet handed to the stack. -/
def LoopPc.received : LoopPc → List Frame
  | .dispatching frame => [frame]
  | _ => []

/-- The frames of the last call into the stack that the driver has not been given yet. -/
def LoopPc.unsent : LoopPc → List Frame
  | .sending frames _ => frames.map Subtype.val
  | _ => []

/-- The frame that a call of e1000_send_packet has not put into the ring yet. -/
def inHand : TxCall → List Frame
  | .reading frame => [frame.1]
  | .checking frame _ => [frame.1]
  | .copying frame _ => [frame.1]
  | .describing frame _ => [frame.1]
  | .advancing frame => [frame.1]
  | .queueing frame => [frame.1]
  | _ => []

/-- A call of the driver puts its frame into the ring or drops it. -/
theorem e1000SendPacket_inHand (s : Tx) :
    (queuedFrames (e1000SendPacket s).2++inHand (e1000SendPacket s).1.call).Sublist
      (inHand s.call) := by
  cases hc : s.call with
  | idle => simp [e1000SendPacket,hc,queuedFrames,inHand]
  | reading frame => simp [e1000SendPacket,hc,queuedFrames,inHand]
  | checking frame txHead =>
    simp only [e1000SendPacket,hc]
    split_ifs
    · exact List.nil_sublist _
    · exact List.Sublist.refl _
  | copying frame i =>
    simp only [e1000SendPacket,hc]
    split_ifs <;> exact List.Sublist.refl _
  | describing frame field =>
    cases hn : field.next <;> simp [e1000SendPacket,hc,hn,queuedFrames,inHand]
  | advancing frame => simp [e1000SendPacket,hc,queuedFrames,inHand]
  | queueing frame => simp [e1000SendPacket,hc,queuedFrames,inHand]
  | polling left =>
    simp only [e1000SendPacket,hc]
    split_ifs <;> exact List.Sublist.refl _

/-- What an access of e1000_receive_packet returns is what the loop goes on with. -/
theorem returnedFrame_received (s : Rx) :
    Network.received (rxStep s .driver).2=
      ((returnedFrame (rxStep s .driver).2).getD none).toList := by
  cases hc : s.call with
  | checking =>
    simp only [rxStep,e1000ReceivePacket,hc]
    split_ifs <;> rfl
  | sizing => simp [rxStep,e1000ReceivePacket,hc,Network.received,returnedFrame]
  | copying length buffer =>
    simp only [rxStep,e1000ReceivePacket,hc]
    split_ifs <;> rfl
  | clearing frame => simp [rxStep,e1000ReceivePacket,hc,Network.received,returnedFrame]
  | advancing frame => simp [rxStep,e1000ReceivePacket,hc,Network.received,returnedFrame]
  | returning frame => simp [rxStep,e1000ReceivePacket,hc,Network.received,returnedFrame]

/-- Between the rings and the stack nothing is made up, repeated or reordered: a frame that was
received is handed over once, and a frame that goes into the ring comes from the stack. -/
structure Linked (s : NetworkLoop) (es : List LoopEvent) : Prop where
  handed : Network.received (rxEvents es)=dispatched es++s.pc.received
  given : (queuedFrames (txEvents es)++(inHand s.tx.call++s.pc.unsent)).Sublist (output es)

section Linked

variable {s : NetworkLoop} {es : List LoopEvent}

/-- A step that moves nothing between the parts. -/
theorem Linked.quiet (h : Linked s es) {s' : NetworkLoop} {new : List LoopEvent}
    (hr : Network.received (rxEvents new)=[]) (hq : queuedFrames (txEvents new)=[])
    (hc : calls new=[]) (ho : output new=[]) (hcall : inHand s'.tx.call=inHand s.tx.call)
    (hpc : s'.pc.received=s.pc.received) (hun : s'.pc.unsent=s.pc.unsent) :
    Linked s' (es++new) := by
  have hd : dispatched new=[] := by rw [dispatched,hc]; rfl
  refine ⟨?_,?_⟩
  · rw [rxEvents_append,received_append,hr,dispatched_append,hd,List.append_nil,List.append_nil,
      hpc]
    exact h.handed
  · rw [txEvents_append,queuedFrames_append,hq,output_append,ho,List.append_nil,List.append_nil,
      hcall,hun]
    exact h.given

/-- A step of the receiving call hands over what it returns. -/
theorem Linked.receive (h : Linked s es) (hpc : s.pc=.receiving) :
    Linked (loopReceive s).1 (es++(loopReceive s).2) := by
  have hr := returnedFrame_received s.rx
  refine ⟨?_,?_⟩
  · rw [loopReceive_events,rxEvents_append,received_append,rxEvents_rx,hr,dispatched_append,
      h.handed,hpc]
    simp only [loopReceive,LoopPc.received,dispatched,calls_rx,List.flatMap_nil,List.append_nil]
    cases returnedFrame (rxStep s.rx .driver).2 with
    | none => rfl
    | some result => cases result <;> rfl
  · have hun : (loopReceive s).1.pc.unsent=[] := by
      simp only [loopReceive]
      cases returnedFrame (rxStep s.rx .driver).2 with
      | none => rfl
      | some result => cases result <;> rfl
    have hq : queuedFrames (txEvents (loopReceive s).2)=[] := by
      rw [loopReceive_events,txEvents_rx]
      rfl
    have ho : output (loopReceive s).2=[] := by
      rw [loopReceive_events,output,outcomes_rx]
      rfl
    have hg := h.given
    have hnone : s.pc.unsent=[] := by
      rw [hpc]
      rfl
    rw [hnone,List.append_nil] at hg
    rw [hun,txEvents_append,queuedFrames_append,hq,output_append,ho]
    simp only [List.append_nil]
    exact hg

/-- A call into the stack takes the frame that was received and leaves those to be sent. -/
theorem Linked.call (h : Linked s es) (hun : s.pc.unsent=[]) {s' : NetworkLoop}
    {new : List LoopEvent} (hr : Network.received (rxEvents new)=[])
    (hq : queuedFrames (txEvents new)=[]) (hd : dispatched new=s.pc.received)
    (hcall : s'.tx=s.tx) (hpc : s'.pc.received=[]) (ho : s'.pc.unsent=output new) :
    Linked s' (es++new) := by
  refine ⟨?_,?_⟩
  · rw [rxEvents_append,received_append,hr,List.append_nil,dispatched_append,hd,hpc,
      List.append_nil]
    exact h.handed
  · have hg := h.given
    rw [hun,List.append_nil] at hg
    rw [txEvents_append,queuedFrames_append,hq,List.append_nil,hcall,ho,output_append,
      ← List.append_assoc]
    exact hg.append (List.Sublist.refl _)

theorem Linked.dispatch (h : Linked s es) (environment : Environment) {frame : Frame}
    (hpc : s.pc=.dispatching frame) :
    Linked (loopDispatch environment frame s).1 (es++(loopDispatch environment frame s).2) := by
  apply h.call
  · rw [hpc]
    rfl
  · simp only [loopDispatch,rxEvents_append,rxEvents_logged]
    rfl
  · simp only [loopDispatch,txEvents_append,txEvents_logged]
    rfl
  · simp only [loopDispatch,dispatched,calls_append,calls_logged,hpc]
    rfl
  · rfl
  · rfl
  · simp only [loopDispatch,LoopPc.unsent,txFrames_val,output,outcomes_append,outcomes_logged]
    simp [outcomes]

theorem Linked.send (h : Linked s es) {frames : List TxFrame} {timer : Bool}
    (hpc : s.pc=.sending frames timer) :
    Linked (loopSend frames timer s).1 (es++(loopSend frames timer s).2) := by
  cases hc : s.tx.call with
  | idle =>
    cases frames with
    | nil =>
      simp only [loopSend,hc]
      apply h.quiet <;> try rfl
      · rw [hpc]
        cases timer <;> rfl
      · rw [hpc]
        cases timer <;> rfl
    | cons frame frames =>
      have hg := h.given
      have hs := h.handed
      rw [hpc,hc] at hg
      rw [hpc] at hs
      simp only [loopSend,hc,txStep,List.map_nil,List.append_nil]
      exact ⟨hs,hg⟩
  | _ =>
    have hg := h.given
    have hs := h.handed
    rw [hpc] at hg
    rw [hpc] at hs
    have hin := e1000SendPacket_inHand s.tx
    simp only [loopSend,hc,txStep]
    refine ⟨?_,?_⟩
    · rw [rxEvents_append,received_append,rxEvents_tx,dispatched_append,hpc]
      simpa [dispatched,Network.received] using hs
    · rw [txEvents_append,txEvents_tx,queuedFrames_append,output_append,hpc]
      simp only [output,outcomes_tx,List.flatMap_nil,List.append_nil,List.append_assoc]
      refine List.Sublist.trans ?_ hg
      rw [← List.append_assoc (queuedFrames (e1000SendPacket s.tx).2)]
      exact (List.Sublist.refl _).append (hin.append (List.Sublist.refl _))

theorem Linked.count (h : Linked s es) (hpc : s.pc=.counting) :
    Linked (loopCount s).1 (es++(loopCount s).2) := by
  by_cases ht : s.lastTcpTick+1≥100000
  · rw [loopCount_turn s ht]
    apply h.call <;> try rfl
    · rw [hpc]
      rfl
    · rw [hpc]
      rfl
    · simp only [LoopPc.unsent,txFrames_val]
      simp [output,outcomes]
  · rw [loopCount_idle s ht]
    apply h.quiet <;> try rfl
    · rw [hpc]
      rfl
    · rw [hpc]
      rfl

theorem Linked.step (h : Linked s es) (a : LoopAction) :
    Linked (loopStep s a).1 (es++(loopStep s a).2) := by
  cases a with
  | nicReceive frame report =>
    simp only [loopStep]
    apply h.quiet <;> try rfl
    · rw [rxEvents_rx]
      simp only [rxStep,nicReceive]
      split_ifs <;> rfl
    · simp [queuedFrames]
    · simp
    · simp [output]
  | nicTransmit =>
    simp only [loopStep]
    apply h.quiet <;> try rfl
    · simp [Network.received]
    · rw [txEvents_tx]
      simp only [txStep,nicTransmit]
      split_ifs <;> rfl
    · simp
    · simp [output]
    · simp only [txStep,nicTransmit]
      split_ifs <;> rfl
  | nicDone i =>
    simp only [loopStep]
    apply h.quiet <;> rfl
  | cpu environment =>
    cases hpc : s.pc with
    | receiving =>
      simp only [loopStep,hpc]
      exact h.receive hpc
    | dispatching frame =>
      simp only [loopStep,hpc]
      exact h.dispatch environment hpc
    | sending frames timer =>
      simp only [loopStep,hpc]
      exact h.send hpc
    | counting =>
      simp only [loopStep,hpc]
      exact h.count hpc

end Linked

section Init

variable (rxBuffers : Nat → Buffer rxBufferSize) (txBuffers : Nat → Buffer txBufferSize)
  (as : List LoopAction)

theorem linked_run : Linked (runState loopStep (loopInit rxBuffers txBuffers) as)
    (outputs loopStep (loopInit rxBuffers txBuffers) as) := by
  have hrun := history_along loopStep (fun s _ es => Linked s es) (P := fun _ _ => True)
    (fun s _ es a h _ => h.step a) (h := []) (o := [])
    (s := loopInit rxBuffers txBuffers) ⟨rfl,List.Sublist.refl _⟩
    (along_of_forall _ (fun _ _ => trivial) _ as)
  simpa using hrun

/-- The frames that the calls were made on are the first of those that the NIC wrote. -/
theorem dispatched_received :
    let es := outputs loopStep (loopInit rxBuffers txBuffers) as
    dispatched es <+: written (rxEvents es) := by
  intro es
  have hhanded := (linked_run rxBuffers txBuffers as).1
  have hrx : rxEvents es=outputs rxStep (rxInit rxBuffers)
      (rxRefines.inputsOf (loopInit rxBuffers txBuffers) as) := rxRefines.seen_run ..
  obtain ⟨queue,-,hw⟩ := run_rxFifo rxBuffers
    (rxRefines.inputsOf (loopInit rxBuffers txBuffers) as)
  rw [← hrx] at hw
  rw [hw]
  refine List.IsPrefix.trans ?_ (List.prefix_append _ _)
  rw [hhanded]
  apply List.prefix_append

/-- What is on the wire was given out by the calls. -/
theorem sentFrames_sublist :
    let es := outputs loopStep (loopInit rxBuffers txBuffers) as
    (sentFrames (txEvents es)).Sublist (output es) := by
  intro es
  have hgiven := (linked_run rxBuffers txBuffers as).2
  have htx : txEvents es=outputs txStep (txInit txBuffers)
      (txRefines.inputsOf (loopInit rxBuffers txBuffers) as) := txRefines.seen_run ..
  obtain ⟨queue,-,hq⟩ := run_txFifo txBuffers
    (txRefines.inputsOf (loopInit rxBuffers txBuffers) as)
  rw [← htx] at hq
  refine List.Sublist.trans ?_ hgiven
  rw [hq,List.append_assoc]
  apply List.sublist_append_left

/-- The calls are made one after the other. -/
theorem outcomes_calls :
    let es := outputs loopStep (loopInit rxBuffers txBuffers) as
    outcomes es=outputs kernelStep kernelInit (calls es) := by
  intro es
  have hcalls : calls es=kernelRefines.inputsOf (loopInit rxBuffers txBuffers) as := calls_run ..
  rw [hcalls]
  exact kernelRefines.seen_run ..

/-- Whatever the order in which the NIC and the loop move: the stack is in the state that the
calls made so far lead to one after the other, they were made on the frames that the NIC wrote, in
their order and each at most once, and what the NIC puts on the wire are frames that these calls
gave out, in their order and unmodified. -/
theorem loop_linearises (rxBuffers : Nat → Buffer rxBufferSize)
    (txBuffers : Nat → Buffer txBufferSize) (as : List LoopAction) :
    let s := runState loopStep (loopInit rxBuffers txBuffers) as
    let es := outputs loopStep (loopInit rxBuffers txBuffers) as
    s.kernel=runState kernelStep kernelInit (calls es) ∧
      outcomes es=outputs kernelStep kernelInit (calls es) ∧
      dispatched es <+: written (rxEvents es) ∧
      (sentFrames (txEvents es)).Sublist (output es) := by
  intro s es
  refine ⟨?_,outcomes_calls ..,dispatched_received ..,sentFrames_sublist ..⟩
  have hcalls : calls es=kernelRefines.inputsOf (loopInit rxBuffers txBuffers) as := calls_run ..
  rw [hcalls]
  exact kernelRefines.view_run ..

end Init

end Cllm.Unikernel
