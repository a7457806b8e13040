import Cllm.Api.Routes
import Cllm.Network.BringUp
import Cllm.Unikernel.Interleaving

namespace Cllm.Unikernel

open Libc Network Machine ByteMemory

/-- The variables of network_loop, and the stack. -/
structure Software where
  kernel : KernelState
  lastTcpTick : UInt32
  packetCounter : UInt32
  pc : LoopPc

/-- The memory and the registers that the driver and the NIC share, and the software above. -/
structure System where
  nic : E1000
  software : Software

def systemInit (m : Memory) (regs : UInt32 → UInt32) : System :=
  ⟨powerOn m regs,⟨kernelInit,0,0,.receiving⟩⟩

def loopEvent : RingEvent → LoopEvent
  | .rx e => .rx e
  | .tx e => .tx e

/-- The call into the stack for a frame. -/
def softwareDispatch (environment : Api.Environment) (frame : Frame) (v : Software) :
    Software × List LoopEvent :=
  let isPacket := frame.length≥ethHdrLen
  let packetCounter := if isPacket then v.packetCounter+1 else v.packetCounter
  let lines :=
    if isPacket ∧ packetCounter ≤ 10 then
      [packetLine packetCounter (be16 (load16 frame 12)) frame.length]
    else []
  let r := kernelCall v.kernel (.frame environment frame)
  let frames := txFrames r.2.frames fun _ h => kernelCall_fits h
  ({v with kernel := r.1,packetCounter := packetCounter,pc := .sending frames false},
    lines.map .logged++[.called (.frame environment frame) r.2])

def softwareCount (v : Software) : Software × List LoopEvent :=
  let lastTcpTick := v.lastTcpTick+1
  if lastTcpTick≥100000 then
    let r := kernelCall v.kernel .periodic
    let frames := txFrames r.2.frames fun _ h => kernelCall_fits h
    ({v with kernel := r.1,lastTcpTick := 0,pc := .sending frames true},
      [.counted,.called .periodic r.2])
  else ({v with lastTcpTick := lastTcpTick,pc := .receiving},[.counted])

section Steps

variable (A : Arrays) (s : System)

/-- One access of a call of e1000_receive_packet. -/
def systemReceive : System × List LoopEvent :=
  let r := driverStep A s.nic .receive
  let pc :=
    match returnedFrame (rxOnly r.2) with
    | none => .receiving
    | some none => .counting
    | some (some frame) => .dispatching frame
  (⟨r.1,{s.software with pc := pc}⟩,r.2.map loopEvent)

/-- One access of a call of e1000_send_packet, or the next call. -/
def systemSend (frames : List TxFrame) (timer : Bool) : System × List LoopEvent :=
  match s.nic.txCall with
  | .idle =>
    match frames with
    | [] =>
      ({s with software := {s.software with pc := if timer then .receiving else .counting}},[])
    | frame::frames =>
      let r := driverStep A s.nic (.call frame)
      (⟨r.1,{s.software with pc := .sending frames timer}⟩,r.2.map loopEvent)
  | _ =>
    let r := driverStep A s.nic .send
    ({s with nic := r.1},r.2.map loopEvent)

/-- A step of network_loop. -/
def systemLoop (environment : Api.Environment) : System × List LoopEvent :=
  match s.software.pc with
  | .receiving => systemReceive A s
  | .dispatching frame =>
    let r := softwareDispatch environment frame s.software
    ({s with software := r.1},r.2)
  | .sending frames timer => systemSend A s frames timer
  | .counting =>
    let r := softwareCount s.software
    ({s with software := r.1},r.2)

end Steps

/-- The NIC moves whenever it likes; the processor finishes e1000_init and enters the loop. -/
inductive MachineAction where
  | nicReceive (frame : RxFrame) (report : RxDesc)
  | nicTransmit
  | nicDone (i : Nat)
  | resetDone
  | cpu (environment : Api.Environment)

/-- What an action is before the loop. -/
def MachineAction.onBus : MachineAction → BusAction
  | .nicReceive frame report => .nicReceive frame report
  | .nicTransmit => .nicTransmit
  | .nicDone i => .nicDone i
  | .resetDone => .resetDone
  | .cpu _ => .cpu .receive

def systemStep (A : Arrays) (s : System) (a : MachineAction) : System × List LoopEvent :=
  match a,s.nic.pc with
  | .cpu environment,.returned => systemLoop A s environment
  | a,_ =>
    let r := busStep A s.nic a.onBus
    ({s with nic := r.1},r.2.map loopEvent)

/-- What an action is to the loop on the rings of the model. -/
def loopInputs (s : System) : MachineAction → List LoopAction
  | .nicReceive frame report => if s.nic.Receiving then [.nicReceive frame report] else []
  | .nicTransmit => if s.nic.Transmitting then [.nicTransmit] else []
  | .nicDone i => if s.nic.Transmitting ∧ i < txDescCount then [.nicDone i] else []
  | .resetDone => []
  | .cpu environment =>
    match s.nic.pc with
    | .returned => [.cpu environment]
    | _ => []

/-- The software over the rings of the model. -/
def Software.over (v : Software) (r : Rx × Tx) : NetworkLoop :=
  ⟨r.1,r.2,v.kernel,v.lastTcpTick,v.packetCounter,v.pc⟩

/-- The machine runs as the loop does on the rings of the model. -/
def Runs (P : Placement) (m : Memory) (s : System) (t : NetworkLoop) : Prop :=
  ∃ r,Brought P m s.nic r ∧ t=s.software.over r

section Run

variable {P : Placement} {m : Memory} {s : System} {v : Software} {r : Rx × Tx}

theorem live_of_returned {n : E1000} (h : Brought P m n r) (hpc : n.pc=.returned) :
    Live P m n r := by
  cases h with
  | resetting regs hrx htx => exact InitPc.noConfusion hpc
  | waiting left ctrl hctrl hleft => exact InitPc.noConfusion hpc
  | preparing done ops h => exact InitPc.noConfusion hpc
  | live h => exact h

@[simp] theorem loopEvent_rx (es : List RxEvent) :
    (es.map RingEvent.rx).map loopEvent=es.map .rx := by
  rw [List.map_map]
  rfl

@[simp] theorem loopEvent_tx (es : List TxEvent) :
    (es.map RingEvent.tx).map loopEvent=es.map .tx := by
  rw [List.map_map]
  rfl

/-- The NIC's moves, and those of e1000_init. -/
theorem step_below (a : MachineAction) (ha : ∀ e,a=.cpu e → s.nic.pc≠.returned) :
    systemStep P.toArrays s a=
        ({s with nic := (busStep P.toArrays s.nic a.onBus).1},
          (busStep P.toArrays s.nic a.onBus).2.map loopEvent) ∧
      outputs loopStep (v.over r) (loopInputs s a)=
        (outputs ringStep r (ringInputs s.nic a.onBus)).map loopEvent ∧
      runState loopStep (v.over r) (loopInputs s a)=
        v.over (runState ringStep r (ringInputs s.nic a.onBus)) := by
  cases a with
  | nicReceive frame report =>
    refine ⟨rfl,?_⟩
    simp only [loopInputs,ringInputs,MachineAction.onBus]
    split_ifs
    · simp [loopStep,ringStep,Software.over,loopEvent]
    · exact ⟨rfl,rfl⟩
  | nicTransmit =>
    refine ⟨rfl,?_⟩
    simp only [loopInputs,ringInputs,MachineAction.onBus]
    split_ifs
    · simp [loopStep,ringStep,Software.over,loopEvent]
    · exact ⟨rfl,rfl⟩
  | nicDone i =>
    refine ⟨rfl,?_⟩
    simp only [loopInputs,ringInputs,MachineAction.onBus]
    split_ifs
    · simp [loopStep,ringStep,Software.over,loopEvent]
    · exact ⟨rfl,rfl⟩
  | resetDone => exact ⟨rfl,rfl,rfl⟩
  | cpu environment =>
    have hpc := ha environment rfl
    cases hat : s.nic.pc with
    | returned => exact absurd hat hpc
    | _ =>
      simp only [systemStep,loopInputs,ringInputs,MachineAction.onBus,hat]
      exact ⟨trivial,rfl,rfl⟩

/-- A step of the loop, once the rings are up. -/
theorem loop_step (h : Live P m s.nic r) (environment : Api.Environment) :
    (systemLoop P.toArrays s environment).2=
        (loopStep (s.software.over r) (.cpu environment)).2 ∧
      Runs P m (systemLoop P.toArrays s environment).1
        (loopStep (s.software.over r) (.cpu environment)).1 := by
  have hover : (s.software.over r).pc=s.software.pc := rfl
  cases hat : s.software.pc with
  | receiving =>
    obtain ⟨hout,hnext⟩ := h.driver .receive
    have hevents : (driverStep P.toArrays s.nic .receive).2=(rxStep r.1 .driver).2.map .rx := hout
    simp only [systemLoop,loopStep,hover,hat,systemReceive,loopReceive,hevents,rxOnly_rx,
      loopEvent_rx]
    exact ⟨rfl,_,.live hnext,rfl⟩
  | dispatching frame =>
    simp only [systemLoop,loopStep,hover,hat]
    exact ⟨rfl,r,.live h,rfl⟩
  | sending frames timer =>
    simp only [systemLoop,loopStep,hover,hat]
    have hcall : s.nic.txCall=(s.software.over r).tx.call := h.tx.call
    cases hc : (s.software.over r).tx.call with
    | idle =>
      rw [hc] at hcall
      cases frames with
      | nil =>
        simp only [systemSend,loopSend,hcall,hc]
        exact ⟨trivial,r,.live h,rfl⟩
      | cons frame frames =>
        obtain ⟨hout,hnext⟩ := h.driver (.call frame)
        have hevents : (driverStep P.toArrays s.nic (.call frame)).2=
            (txStep r.2 (.call frame)).2.map .tx := hout
        simp only [systemSend,loopSend,hcall,hc,hevents,loopEvent_tx]
        exact ⟨rfl,_,.live hnext,rfl⟩
    | _ =>
      rw [hc] at hcall
      obtain ⟨hout,hnext⟩ := h.driver .send
      have hevents : (driverStep P.toArrays s.nic .send).2=(txStep r.2 .driver).2.map .tx := hout
      simp only [systemSend,loopSend,hcall,hc,hevents,loopEvent_tx]
      exact ⟨rfl,_,.live hnext,rfl⟩
  | counting =>
    have hlast : (s.software.over r).lastTcpTick=s.software.lastTcpTick := rfl
    simp only [systemLoop,loopStep,hover,hat,softwareCount,loopCount,hlast]
    split_ifs
    · exact ⟨rfl,r,.live h,rfl⟩
    · exact ⟨rfl,r,.live h,rfl⟩

theorem runs_step {t : NetworkLoop} {a : MachineAction} (h : Runs P m s t)
    (ha : ResetInTime s.nic a.onBus) :
    (systemStep P.toArrays s a).2=outputs loopStep t (loopInputs s a) ∧
      Runs P m (systemStep P.toArrays s a).1 (runState loopStep t (loopInputs s a)) := by
  obtain ⟨r,hr,rfl⟩ := h
  by_cases hloop : ∀ e,a=.cpu e → s.nic.pc≠.returned
  · obtain ⟨hstep,hout,hrun⟩ := @step_below P s s.software r a hloop
    obtain ⟨hevents,hnext⟩ := brought_step hr ha
    rw [hstep,hout,hrun,hevents]
    exact ⟨rfl,_,hnext,rfl⟩
  · push Not at hloop
    obtain ⟨environment,rfl,hpc⟩ := hloop
    have hstep : systemStep P.toArrays s (.cpu environment)=
        systemLoop P.toArrays s environment := by
      simp only [systemStep,hpc]
    have hinputs : loopInputs s (.cpu environment)=[.cpu environment] := by
      simp only [loopInputs,hpc]
    obtain ⟨hout,hnext⟩ := loop_step (live_of_returned hr hpc) environment
    rw [hstep,hinputs,outputs_cons,outputs_nil,List.append_nil]
    exact ⟨hout,hnext⟩

end Run

section PowerOn

variable (P : Placement) (m : Memory) (regs : UInt32 → UInt32)

/-- What the machine does from power-on is a run of the loop. -/
theorem powerOn_run (hrx : regs e1000Rctrl&&&e1000RctlEn=0) (htx : regs e1000Tctrl&&&e1000TctlEn=0)
    {as : List MachineAction}
    (has : Along (systemStep P.toArrays) (fun s a => ResetInTime s.nic a.onBus)
      (systemInit m regs) as) :
    let start := loopInit (ringsAt P.toArrays m).1.buffers (ringsAt P.toArrays m).2.buffers
    let bs := inputsAlong (systemStep P.toArrays) loopInputs (systemInit m regs) as
    outputs (systemStep P.toArrays) (systemInit m regs) as=outputs loopStep start bs ∧
      Runs P m (runState (systemStep P.toArrays) (systemInit m regs) as)
        (runState loopStep start bs) := by
  intro start bs
  have hstart : Runs P m (systemInit m regs) start := ⟨_,.resetting regs hrx htx,rfl⟩
  exact simulates (systemStep P.toArrays) loopStep (Runs P m) loopInputs
    (fun _ _ _ hs ha => runs_step hs ha) hstart has

end PowerOn

/-- From power-on, with the rings in memory that the NIC and the driver share: the stack is in the
state that its calls lead to one after the other, these were made on the frames that the NIC has
put into memory, in their order and each at most once, what the NIC fetches from memory are frames
that the calls gave out, in their order and unmodified, and the driver and the NIC write nothing
outside the arrays of e1000.c. -/
theorem powerOn_linearises (P : Placement) (m : Memory) (regs : UInt32 → UInt32)
    (hrx : regs e1000Rctrl&&&e1000RctlEn=0) (htx : regs e1000Tctrl&&&e1000TctlEn=0)
    (as : List MachineAction)
    (has : Along (systemStep P.toArrays) (fun s a => ResetInTime s.nic a.onBus)
      (systemInit m regs) as) :
    let s := runState (systemStep P.toArrays) (systemInit m regs) as
    let es := outputs (systemStep P.toArrays) (systemInit m regs) as
    s.software.kernel=runState kernelStep kernelInit (calls es) ∧
      outcomes es=outputs kernelStep kernelInit (calls es) ∧
      dispatched es <+: written (rxEvents es) ∧
      (sentFrames (txEvents es)).Sublist (output es) ∧
      ∀ x,¬P.Covers x → s.nic.mem x=m x := by
  intro s es
  obtain ⟨hout,r,hr,hlast⟩ := powerOn_run P m regs hrx htx has
  have hes : es=_ := hout
  have hkernel := congrArg NetworkLoop.kernel hlast
  rw [hes]
  refine ⟨?_,outcomes_calls ..,dispatched_received ..,sentFrames_sublist ..,fun x hx => hr.mem hx⟩
  rw [calls_run]
  exact hkernel.symm.trans (kernelRefines.view_run ..)

/-- Who has 10.0.2.15? Tell 10.0.2.2. -/
def whoHas : RxFrame :=
  ⟨[255,255,255,255,255,255,82,84,0,18,52,87,8,6,0,1,8,0,6,4,0,1,82,84,0,18,52,87,10,0,2,2,
    0,0,0,0,0,0,10,0,2,15],by decide⟩

/-- The NIC comes up, a request for the address of the host arrives, and the answer leaves. -/
def powerOnActions : List MachineAction :=
  [.cpu Api.anyEnvironment,.nicDone 3,.cpu Api.anyEnvironment,.resetDone]++
    List.replicate 435 (.cpu Api.anyEnvironment)++
    .nicReceive whoHas ⟨0,0,0,0,0⟩::List.replicate 105 (.cpu Api.anyEnvironment)++[.nicTransmit]

theorem powerOn_linearises_boot :
    let s := runState (systemStep lowPlacement.toArrays)
      (systemInit (fun _ => 0) fun _ => 0) powerOnActions
    let es := outputs (systemStep lowPlacement.toArrays)
      (systemInit (fun _ => 0) fun _ => 0) powerOnActions
    s.software.kernel=runState kernelStep kernelInit (calls es) ∧
      outcomes es=outputs kernelStep kernelInit (calls es) ∧
      dispatched es <+: written (rxEvents es) ∧
      (sentFrames (txEvents es)).Sublist (output es) ∧
      ∀ x,¬lowPlacement.Covers x → s.nic.mem x=0 :=
  powerOn_linearises lowPlacement (fun _ => 0) (fun _ => 0) (by decide) (by decide) powerOnActions
    (by decide +kernel)

end Cllm.Unikernel
