import Cllm.Api.Handlers
import Cllm.Api.Tokens
import Cllm.Network.Arp
import Cllm.Network.RxRing
import Cllm.Network.TxRing
import Cllm.Tcp.Ingress

namespace Cllm.Unikernel

open Libc Network Http Tcp Api Machine

/-- The static state behind the loop apart from the driver's: the stack, and g_api_ctx. -/
structure KernelState where
  host : Host
  api : ApiContext

/-- After arp_init and tcp_init; api_v1_init is never called, so g_api_ctx stays zero. -/
def kernelInit : KernelState where
  host := ⟨tcpInit,⟨arpInit,1⟩,1,0⟩
  api := ⟨false,0,0⟩

/-- The calls of route_request among the events of the stack. -/
def requestsOf (es : List Event) : List HttpRequest := es.filterMap fun e => e.effect.routed

/-- route_request on the zeroed response of tcp_receive. -/
def handler (environment : Environment) (api : ApiContext) (request : HttpRequest) :
    HttpResponse :=
  (routeRequest environment api request blankResponse).2

/-- What the calls of route_request leave of g_api_ctx. -/
def contextAfter (environment : Environment) (api : ApiContext) (requests : List HttpRequest) :
    ApiContext :=
  requests.foldl (fun api request => (routeRequest environment api request blankResponse).1) api

/-- The calls network_loop makes into the stack. -/
inductive KernelInput where
  | frame (environment : Environment) (frame : Frame)
  | periodic

/-- A call with its events and the frames that it gives to e1000_send_packet, in their order: the
stack does not look at what that returns. -/
def kernelCall (k : KernelState) : KernelInput → KernelState × Outcome
  | .frame environment frame =>
    let r := networkReceive (handler environment k.api) frame k.host
    (⟨r.1,contextAfter environment k.api (requestsOf r.2.events)⟩,r.2)
  | .periodic =>
    let r := tcpPeriodic k.host.tcp
    let sent := sendAll k.host.net (emitted r.2)
    ({k with host := {k.host with tcp := r.1,net := sent.1}},⟨r.2,sent.2⟩)

/-- The stack as a machine of its own. -/
def kernelStep (k : KernelState) (input : KernelInput) : KernelState × List Outcome :=
  ((kernelCall k input).1,[(kernelCall k input).2])

theorem netSendEth_fits {ethertype : UInt16} {mac : Mac} {payload : List UInt8} {f : Frame}
    (h : f∈(netSendEth ethertype mac payload).toList) : f.length ≤ txBufferSize := by
  have sizes := net_sizes
  rw [Option.mem_toList,netSendEth] at h
  split_ifs at h with hl
  obtain rfl := Option.some.inj h
  have hm := mac.size
  have ho := ourMac.size
  have he : ethAddrLen=6 := rfl
  simp only [List.length_append,store16_length]
  show _ ≤ 2048
  omega

theorem arpResolve_fits {table : ArpTable} {ip : UInt32} {mac : Option Mac} {frames : List Frame}
    (h : arpResolve table ip=(mac,frames)) {f : Frame} (hf : f∈frames) :
    f.length ≤ txBufferSize := by
  rw [arpResolve] at h
  split at h
  · obtain ⟨-,rfl⟩ := Prod.mk.inj h
    cases hf
  · obtain ⟨-,rfl⟩ := Prod.mk.inj h
    exact netSendEth_fits hf

theorem arpReceive_fits {frame : List UInt8} {table : ArpTable} {f : Frame}
    (h : f∈(arpReceive frame table).2) : f.length ≤ txBufferSize := by
  simp only [arpReceive] at h
  split_ifs at h
  · cases h
  · cases h
  · exact netSendEth_fits h
  · cases h

theorem netSendIp_fits {net : Net} {proto : UInt8} {ip : UInt32} {payload : List UInt8} {f : Frame}
    (h : f∈(netSendIp net proto ip payload).2.frames) : f.length ≤ txBufferSize := by
  simp only [netSendIp] at h
  split_ifs at h
  · cases h
  · split at h
    · next frames hr => exact arpResolve_fits hr h
    · next mac frames hr =>
      split at h
      · exact arpResolve_fits hr h
      · next g hg =>
        rcases List.mem_append.mp h with h|h
        · exact arpResolve_fits hr h
        · obtain rfl := List.mem_singleton.mp h
          exact netSendEth_fits (Option.mem_toList.mpr hg)

theorem sendAll_fits {net : Net} {os : List OutSegment} {f : Frame} (h : f∈(sendAll net os).2) :
    f.length ≤ txBufferSize := by
  induction os generalizing net with
  | nil => cases h
  | cons o os ih =>
    rcases List.mem_append.mp h with h|h
    · rw [netSendTcp] at h
      split_ifs at h
      · cases h
      · exact netSendIp_fits h
    · exact ih h

theorem ipReceive_fits {rr : HttpRequest → HttpResponse} {packet : List UInt8} {h : Host}
    {f : Frame} (hf : f∈(ipReceive rr packet h).2.frames) : f.length ≤ txBufferSize := by
  simp only [ipReceive] at hf
  split at hf
  · cases hf
  · split_ifs at hf
    · split at hf
      · next mac frames hr =>
        rcases List.mem_append.mp hf with hf|hf
        · exact arpResolve_fits hr hf
        · exact netSendEth_fits hf
      · next frames hr => exact arpResolve_fits hr hf
    · cases hf
  · exact sendAll_fits hf
  · cases hf

theorem kernelCall_fits {k : KernelState} {input : KernelInput} {f : Frame}
    (h : f∈(kernelCall k input).2.frames) : f.length ≤ txBufferSize := by
  cases input with
  | periodic => exact sendAll_fits h
  | frame environment frame =>
    simp only [kernelCall,networkReceive] at h
    split at h
    · cases h
    · exact arpReceive_fits h
    · exact ipReceive_fits h

/-- The frames of a call, for a driver that copies them into its buffers. -/
def txFrames (frames : List Frame) (h : ∀ f∈frames,f.length ≤ txBufferSize) : List TxFrame :=
  frames.attach.map fun f => ⟨f.1,h f.1 f.2⟩

theorem txFrames_val (frames : List Frame) (h : ∀ f∈frames,f.length ≤ txBufferSize) :
    (txFrames frames h).map Subtype.val=frames := by
  simp [txFrames]

/-- Where the loop stands: in network_receive_packet, with a frame that it got, at the calls of
e1000_send_packet that a call into the stack makes (`timer` when that was tcp_periodic), or at
the tick counter. -/
inductive LoopPc where
  | receiving
  | dispatching (frame : Frame)
  | sending (frames : List TxFrame) (timer : Bool)
  | counting

/-- The rings and the driver, the stack, and the variables of network_loop. -/
structure NetworkLoop where
  rx : Rx
  tx : Tx
  kernel : KernelState
  lastTcpTick : UInt32
  packetCounter : UInt32
  pc : LoopPc

/-- Entering network_loop after e1000_init. -/
def loopInit (rxBuffers : Nat → Buffer rxBufferSize) (txBuffers : Nat → Buffer txBufferSize) :
    NetworkLoop where
  rx := rxInit rxBuffers
  tx := txInit txBuffers
  kernel := kernelInit
  lastTcpTick := 0
  packetCounter := 0
  pc := .receiving

inductive LoopEvent where
  | rx (e : RxEvent)
  | tx (e : TxEvent)
  /-- a call into the stack and what it leads to -/
  | called (input : KernelInput) (outcome : Outcome)
  /-- the debug line of a packet -/
  | logged (line : List UInt8)
  /-- one turn of the loop past the tick counter -/
  | counted

/-- dbg after snprintf(dbg, sizeof(dbg), "NET: rx packet %u ethertype=%04x len=%zu\n", ...) -/
def packetLine (packetCounter : UInt32) (et : UInt16) (length : Nat) : List UInt8 :=
  cut (snprintf (List.replicate 64 0) 64 (cstr "NET: rx packet %u ethertype=%04x len=%zu\n")
    [.word packetCounter,.word et.toUInt32,.word (UInt32.ofNat length)]).1

/-- The frame that a call of e1000_receive_packet has returned, if it has returned. -/
def returnedFrame : List RxEvent → Option (Option Frame)
  | [] => none
  | .returned result::_ => some result
  | .wrote _::es => returnedFrame es

/-- One access of a call of e1000_receive_packet. -/
def loopReceive (s : NetworkLoop) : NetworkLoop × List LoopEvent :=
  let r := rxStep s.rx .driver
  let pc :=
    match returnedFrame r.2 with
    | none => .receiving
    | some none => .counting
    | some (some frame) => .dispatching frame
  ({s with rx := r.1,pc := pc},r.2.map .rx)

/-- The body of the `if (got_packet && length >= ETH_HDR_LEN)`: networkReceive ignores the frames
that are shorter. -/
def loopDispatch (environment : Environment) (frame : Frame) (s : NetworkLoop) :
    NetworkLoop × List LoopEvent :=
  let isPacket := frame.length≥ethHdrLen
  let packetCounter := if isPacket then s.packetCounter+1 else s.packetCounter
  let lines :=
    if isPacket ∧ packetCounter ≤ 10 then
      [packetLine packetCounter (be16 (load16 frame 12)) frame.length]
    else []
  let r := kernelCall s.kernel (.frame environment frame)
  let frames := txFrames r.2.frames fun _ h => kernelCall_fits h
  ({s with kernel := r.1,packetCounter := packetCounter,pc := .sending frames false},
    lines.map .logged++[.called (.frame environment frame) r.2])

/-- One access of a call of e1000_send_packet, or the next call. -/
def loopSend (frames : List TxFrame) (timer : Bool) (s : NetworkLoop) :
    NetworkLoop × List LoopEvent :=
  match s.tx.call with
  | .idle =>
    match frames with
    | [] => ({s with pc := if timer then .receiving else .counting},[])
    | frame::frames =>
      let r := txStep s.tx (.call frame)
      ({s with tx := r.1,pc := .sending frames timer},r.2.map .tx)
  | _ =>
    let r := txStep s.tx .driver
    ({s with tx := r.1},r.2.map .tx)

def loopCount (s : NetworkLoop) : NetworkLoop × List LoopEvent :=
  let lastTcpTick := s.lastTcpTick+1
  if lastTcpTick≥100000 then
    let r := kernelCall s.kernel .periodic
    let frames := txFrames r.2.frames fun _ h => kernelCall_fits h
    ({s with kernel := r.1,lastTcpTick := 0,pc := .sending frames true},
      [.counted,.called .periodic r.2])
  else ({s with lastTcpTick := lastTcpTick,pc := .receiving},[.counted])

/-- The NIC moves whenever it likes, the loop takes one step after the other. -/
inductive LoopAction where
  | nicReceive (frame : RxFrame) (report : RxDesc)
  | nicTransmit
  | nicDone (i : Nat)
  | cpu (environment : Environment)

def loopStep (s : NetworkLoop) : LoopAction → NetworkLoop × List LoopEvent
  | .nicReceive frame report =>
    let r := rxStep s.rx (.nic frame report)
    ({s with rx := r.1},r.2.map .rx)
  | .nicTransmit =>
    let r := txStep s.tx .transmit
    ({s with tx := r.1},r.2.map .tx)
  | .nicDone i =>
    let r := txStep s.tx (.done i)
    ({s with tx := r.1},r.2.map .tx)
  | .cpu environment =>
    match s.pc with
    | .receiving => loopReceive s
    | .dispatching frame => loopDispatch environment frame s
    | .sending frames timer => loopSend frames timer s
    | .counting => loopCount s

def rxEvents (es : List LoopEvent) : List RxEvent :=
  es.filterMap fun e => match e with
    | .rx e => some e
    | _ => none

def txEvents (es : List LoopEvent) : List TxEvent :=
  es.filterMap fun e => match e with
    | .tx e => some e
    | _ => none

/-- The calls into the stack. -/
def calls (es : List LoopEvent) : List KernelInput :=
  es.filterMap fun e => match e with
    | .called input _ => some input
    | _ => none

/-- What they led to. -/
def outcomes (es : List LoopEvent) : List Outcome :=
  es.filterMap fun e => match e with
    | .called _ outcome => some outcome
    | _ => none

/-- The frames that the stack gave to e1000_send_packet. -/
def output (es : List LoopEvent) : List Frame := (outcomes es).flatMap Outcome.frames

/-- How often the loop has passed its tick counter. -/
def turns (es : List LoopEvent) : Nat :=
  es.countP fun e => match e with
    | .counted => true
    | _ => false

def KernelInput.frames : KernelInput → List Frame
  | .frame _ f => [f]
  | .periodic => []

/-- The frames that the loop handed to the stack. -/
def dispatched (es : List LoopEvent) : List Frame := (calls es).flatMap KernelInput.frames

theorem rxEvents_append (x y : List LoopEvent) : rxEvents (x++y)=rxEvents x++rxEvents y :=
  List.filterMap_append

theorem txEvents_append (x y : List LoopEvent) : txEvents (x++y)=txEvents x++txEvents y :=
  List.filterMap_append

theorem calls_append (x y : List LoopEvent) : calls (x++y)=calls x++calls y :=
  List.filterMap_append

theorem outcomes_append (x y : List LoopEvent) : outcomes (x++y)=outcomes x++outcomes y :=
  List.filterMap_append

theorem output_append (x y : List LoopEvent) : output (x++y)=output x++output y := by
  rw [output,outcomes_append,List.flatMap_append]
  rfl

theorem dispatched_append (x y : List LoopEvent) :
    dispatched (x++y)=dispatched x++dispatched y := by
  rw [dispatched,calls_append,List.flatMap_append]
  rfl

theorem turns_append (x y : List LoopEvent) : turns (x++y)=turns x+turns y :=
  List.countP_append

section Maps

variable (rs : List RxEvent) (ts : List TxEvent) (lines : List (List UInt8))

@[simp] theorem rxEvents_rx : rxEvents (rs.map .rx)=rs := by
  simp [rxEvents,List.filterMap_map]

@[simp] theorem rxEvents_tx : rxEvents (ts.map .tx)=[] := by
  simp [rxEvents]

@[simp] theorem rxEvents_logged : rxEvents (lines.map .logged)=[] := by
  simp [rxEvents]

@[simp] theorem txEvents_rx : txEvents (rs.map .rx)=[] := by
  simp [txEvents]

@[simp] theorem txEvents_tx : txEvents (ts.map .tx)=ts := by
  simp [txEvents,List.filterMap_map]

@[simp] theorem txEvents_logged : txEvents (lines.map .logged)=[] := by
  simp [txEvents]

@[simp] theorem calls_rx : calls (rs.map .rx)=[] := by
  simp [calls]

@[simp] theorem calls_tx : calls (ts.map .tx)=[] := by
  simp [calls]

@[simp] theorem calls_logged : calls (lines.map .logged)=[] := by
  simp [calls]

@[simp] theorem outcomes_rx : outcomes (rs.map .rx)=[] := by
  simp [outcomes]

@[simp] theorem outcomes_tx : outcomes (ts.map .tx)=[] := by
  simp [outcomes]

@[simp] theorem outcomes_logged : outcomes (lines.map .logged)=[] := by
  simp [outcomes]

@[simp] theorem turns_rx : turns (rs.map .rx)=0 := by
  simp [turns]

@[simp] theorem turns_tx : turns (ts.map .tx)=0 := by
  simp [turns]

@[simp] theorem turns_logged : turns (lines.map .logged)=0 := by
  simp [turns]

end Maps

end Cllm.Unikernel
