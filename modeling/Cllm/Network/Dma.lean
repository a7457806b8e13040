import Cllm.Framework.ByteMemory
import Cllm.Network.RxRing
import Cllm.Network.TxRing

namespace Cllm.Network

open Libc Machine ByteMemory

abbrev e1000Ctrl : UInt32 := 0x00000
abbrev e1000Rctrl : UInt32 := 0x00100
abbrev e1000Rxdesclo : UInt32 := 0x02800
abbrev e1000Rxdeschi : UInt32 := 0x02804
abbrev e1000Rxdesclen : UInt32 := 0x02808
abbrev e1000Rxdeschead : UInt32 := 0x02810
abbrev e1000Rxdesctail : UInt32 := 0x02818
abbrev e1000Ral : UInt32 := 0x05400
abbrev e1000Rah : UInt32 := 0x05404
abbrev e1000Tctrl : UInt32 := 0x00400
abbrev e1000Txdesclo : UInt32 := 0x03800
abbrev e1000Txdeschi : UInt32 := 0x03804
abbrev e1000Txdesclen : UInt32 := 0x03808
abbrev e1000Txdeschead : UInt32 := 0x03810
abbrev e1000Txdesctail : UInt32 := 0x03818

abbrev e1000CtrlSlu : UInt32 := 0x00000040
abbrev e1000CtrlRst : UInt32 := 0x04000000
abbrev e1000RctlEn : UInt32 := 0x00000002
abbrev e1000RctlSbp : UInt32 := 0x00000004
abbrev e1000RctlUpe : UInt32 := 0x00000008
abbrev e1000RctlMpe : UInt32 := 0x00000010
abbrev e1000RctlLpe : UInt32 := 0x00000020
abbrev e1000RctlLbmNo : UInt32 := 0x00000000
abbrev e1000RctlRdmtsHalf : UInt32 := 0x00000000
abbrev e1000RctlMo36 : UInt32 := 0x00000000
abbrev e1000RctlBam : UInt32 := 0x00008000
abbrev e1000RctlSecrc : UInt32 := 0x04000000
abbrev e1000RctlBsize2048 : UInt32 := 0x00000000
abbrev e1000TctlEn : UInt32 := 0x00000002
abbrev e1000TctlPsp : UInt32 := 0x00000008
abbrev e1000TctlCt : UInt32 := 0x00000FF0
abbrev e1000TctlColdFullDuplex : UInt32 := 0x00040000
abbrev e1000RahAv : UInt32 := 0x80000000

/-- sizeof(e1000_rx_desc_t) and sizeof(e1000_tx_desc_t) -/
abbrev descSize : Nat := 16

/-- Where the static arrays of e1000.c are. -/
structure Arrays where
  rxDescRing : Nat
  txDescRing : Nat
  rxBuffers : Nat
  txBuffers : Nat

namespace Arrays

variable (A : Arrays)

/-- The arrays with their sizes. -/
def all : List (Nat × Nat) :=
  [(A.rxDescRing,rxDescCount*descSize),(A.txDescRing,txDescCount*descSize),
    (A.rxBuffers,rxDescCount*rxBufferSize),(A.txBuffers,txDescCount*txBufferSize)]

def rxDesc (i : Nat) : Nat := A.rxDescRing+descSize*i
def txDesc (i : Nat) : Nat := A.txDescRing+descSize*i
def rxBuffer (i : Nat) : Nat := A.rxBuffers+rxBufferSize*i
def txBuffer (i : Nat) : Nat := A.txBuffers+txBufferSize*i

/-- An address in one of the arrays. -/
def Covers (x : Nat) : Prop := ∃ a∈A.all,a.1 ≤ x ∧ x < a.1+a.2

end Arrays

/-- Arrays as the linker places them: below 4 GiB, and apart from each other. -/
structure Placement extends Arrays where
  fits : ∀ a∈toArrays.all,a.1+a.2 ≤ 2^32
  apart : toArrays.all.Pairwise fun a b => a.1+a.2 ≤ b.1 ∨ b.1+b.2 ≤ a.1

/-- The bytes of a descriptor behind the address of its buffer. -/
def RxDesc.fields (d : RxDesc) : List UInt8 :=
  store16 d.length++store16 d.checksum++[d.status,d.errors]++store16 d.special

def TxDesc.fields (d : TxDesc) : List UInt8 :=
  store16 d.length++[d.cso,d.command,d.status,d.css]++store16 d.special

/-- buffer_addr, a 64-bit field -/
def bufferAddr (a : Nat) : List UInt8 := store32 (UInt32.ofNat a)++store32 0

/-- The address that the NIC reads from a descriptor. -/
def loadAddress (m : Memory) (a : Nat) : Nat := loadWord m a+loadWord m (a+4)*2^32

/-- A 16-bit field in memory. -/
def loadHalf (m : Memory) (a : Nat) : UInt16 := load16 [m a,m (a+1)] 0

/-- A store or a register write of e1000_init after the reset. -/
inductive SetupOp where
  | store (a : Nat) (bytes : List UInt8)
  | write (reg value : UInt32)
  /-- rx_head = 0 -/
  | head
  deriving DecidableEq

/-- Where e1000_init stands: the access that comes next. -/
inductive InitPc where
  | resetting
  | waiting (left : Nat)
  | setup (ops : List SetupOp)
  | linking
  | linkingUp (ctrl : UInt32)
  | returned
  deriving DecidableEq

/-- Memory, the registers of the NIC, and the driver with a pending call of each kind. -/
structure E1000 where
  mem : Memory
  regs : UInt32 → UInt32
  rxHead : Nat
  txTail : Nat
  rxCall : RxCall
  txCall : TxCall
  pc : InitPc

/-- Before e1000_init, with anything in memory and in the registers. -/
def powerOn (mem : Memory) (regs : UInt32 → UInt32) : E1000 where
  mem := mem
  regs := regs
  rxHead := 0
  txTail := 0
  rxCall := .checking
  txCall := .idle
  pc := .resetting

namespace E1000

variable (s : E1000)

/-- The NIC is still in a reset. -/
def InReset : Prop := s.regs e1000Ctrl&&&e1000CtrlRst≠0

def Receiving : Prop := s.regs e1000Rctrl&&&e1000RctlEn≠0
def Transmitting : Prop := s.regs e1000Tctrl&&&e1000TctlEn≠0

instance : Decidable s.InReset := inferInstanceAs (Decidable (_≠_))
instance : Decidable s.Receiving := inferInstanceAs (Decidable (_≠_))
instance : Decidable s.Transmitting := inferInstanceAs (Decidable (_≠_))

/-- e1000_write_reg, to a NIC that is reset by a bit of CTRL and takes no other write until that
bit is clear again. -/
def writeReg (reg value : UInt32) : E1000 :=
  if reg=e1000Ctrl ∧ value&&&e1000CtrlRst≠0 then
    {s with regs := fun r => if r=e1000Ctrl then value else 0}
  else if s.InReset then s
  else {s with regs := Function.update s.regs reg value}

/-- A store of bytes to memory. -/
def put (a : Nat) (bytes : List UInt8) : E1000 :=
  {s with mem := storeBytes s.mem (byteStores a bytes)}

end E1000

def SetupOp.apply (s : E1000) : SetupOp → E1000
  | .store a bytes => s.put a bytes
  | .write reg value => s.writeReg reg value
  | .head => {s with rxHead := 0}

section Init

variable (A : Arrays)

/-- The body of the loop over the receive descriptors. -/
def rxDescSetup (i : Nat) : List SetupOp :=
  [.store (A.rxDesc i) (bufferAddr (A.rxBuffer i)),.store (A.rxDesc i+8) (store16 0),
    .store (A.rxDesc i+10) (store16 0),.store (A.rxDesc i+12) [0],.store (A.rxDesc i+13) [0],
    .store (A.rxDesc i+14) (store16 0)]

def txDescSetup (i : Nat) : List SetupOp :=
  [.store (A.txDesc i) (bufferAddr (A.txBuffer i)),.store (A.txDesc i+8) (store16 0),
    .store (A.txDesc i+10) [0],.store (A.txDesc i+11) [0],.store (A.txDesc i+12) [0],
    .store (A.txDesc i+13) [0],.store (A.txDesc i+14) (store16 0)]

/-- The addresses, sizes and ends of the rings, and the station address. -/
def ringSetup : List SetupOp :=
  [.write e1000Rxdesclo (UInt32.ofNat A.rxDescRing),.write e1000Rxdeschi 0,
    .write e1000Rxdesclen (UInt32.ofNat (rxDescCount*descSize)),.write e1000Rxdeschead 0,
    .write e1000Rxdesctail (UInt32.ofNat (rxDescCount-1)),.head,
    .write e1000Txdesclo (UInt32.ofNat A.txDescRing),.write e1000Txdeschi 0,
    .write e1000Txdesclen (UInt32.ofNat (txDescCount*descSize)),.write e1000Txdeschead 0,
    .write e1000Txdesctail 0,
    .write e1000Ral (load32 ourMac.bytes 0),
    .write e1000Rah ((load16 ourMac.bytes 4).toUInt32|||e1000RahAv)]

def prepareOps : List SetupOp :=
  (List.range rxDescCount).flatMap (rxDescSetup A)++
    (List.range txDescCount).flatMap (txDescSetup A)++ringSetup A

def enableOps : List SetupOp :=
  [.write e1000Rctrl (e1000RctlEn|||e1000RctlSbp|||e1000RctlUpe|||e1000RctlMpe|||e1000RctlLpe|||
      e1000RctlLbmNo|||e1000RctlRdmtsHalf|||e1000RctlMo36|||e1000RctlBam|||e1000RctlSecrc|||
      e1000RctlBsize2048),
    .write e1000Tctrl (e1000TctlEn|||e1000TctlPsp|||e1000TctlCt|||e1000TctlColdFullDuplex)]

/-- The next access of e1000_init, from the reset on. -/
def e1000Init (s : E1000) : E1000 :=
  match s.pc with
  | .resetting => {s.writeReg e1000Ctrl e1000CtrlRst with pc := .waiting 1000}
  | .waiting left =>
    if ¬s.InReset ∨ left ≤ 1 then {s with pc := .setup (prepareOps A++enableOps)}
    else {s with pc := .waiting (left-1)}
  | .setup [] => {s with pc := .linking}
  | .setup (op::ops) => {op.apply s with pc := .setup ops}
  | .linking => {s with pc := .linkingUp (s.regs e1000Ctrl)}
  | .linkingUp ctrl => {s.writeReg e1000Ctrl (ctrl|||e1000CtrlSlu) with pc := .returned}
  | .returned => s

end Init

/-- What the rings put out together. -/
inductive RingEvent where
  | rx (e : RxEvent)
  | tx (e : TxEvent)

section Calls

variable (A : Arrays) (s : E1000)

/-- The next access of e1000_receive_packet, to memory. -/
def receivePacket : E1000 × List RingEvent :=
  match s.rxCall with
  | .checking =>
    if s.mem (A.rxDesc s.rxHead+12)&&&rxdStatDd≠0 then ({s with rxCall := .sizing},[])
    else (s,[.rx (.returned none)])
  | .sizing =>
    let length := (loadHalf s.mem (A.rxDesc s.rxHead+8)).toNat
    let length := if length>rxBufferSize then rxBufferSize else length
    ({s with rxCall := .copying length []},[])
  | .copying length buffer =>
    if buffer.length < length then
      let byte := s.mem (A.rxBuffer s.rxHead+buffer.length)
      ({s with rxCall := .copying length (buffer++[byte])},[])
    else ({s with rxCall := .clearing buffer},[])
  | .clearing frame =>
    ({s.put (A.rxDesc s.rxHead+12) [0] with rxCall := .advancing frame},[])
  | .advancing frame =>
    ({s with rxHead := (s.rxHead+1)%rxDescCount,rxCall := .returning frame},[])
  | .returning frame =>
    let rdt := UInt32.ofNat ((s.rxHead+rxDescCount-1)%rxDescCount)
    ({s.writeReg e1000Rxdesctail rdt with rxCall := .checking},[.rx (.returned (some frame))])

/-- A field's place in its descriptor, and what e1000_send_packet writes there. -/
def TxField.offset : TxField → Nat
  | .length => 8
  | .cso => 10
  | .command => 11
  | .status => 12
  | .css => 13
  | .special => 14

def TxField.value (frame : TxFrame) : TxField → List UInt8
  | .length => store16 (UInt16.ofNat frame.1.length)
  | .command => [txdCmdEop|||txdCmdIfcs|||txdCmdRs]
  | .cso | .status | .css => [0]
  | .special => store16 0

/-- The next access of the pending e1000_send_packet call, to memory. -/
def sendPacket : E1000 × List RingEvent :=
  match s.txCall with
  | .idle => (s,[])
  | .reading frame =>
    ({s with txCall := .checking frame (s.regs e1000Txdeschead).toUInt16.toNat},[])
  | .checking frame txHead =>
    let nextTail := (s.txTail+1)%txDescCount
    if nextTail=txHead then ({s with txCall := .idle},[.tx (.returned false)])
    else ({s with txCall := .copying frame 0},[])
  | .copying frame i =>
    if i < frame.1.length then
      ({s.put (A.txBuffer s.txTail+i) [load8 frame.1 i] with txCall := .copying frame (i+1)},
        [.tx (.wrote s.txTail)])
    else ({s with txCall := .describing frame .length},[])
  | .describing frame field =>
    let call :=
      match field.next with
      | some field => .describing frame field
      | none => .advancing frame
    ({s.put (A.txDesc s.txTail+field.offset) (field.value frame) with txCall := call},
      [.tx (.wrote s.txTail)])
  | .advancing frame =>
    ({s with txTail := (s.txTail+1)%txDescCount,txCall := .queueing frame},[])
  | .queueing frame =>
    ({s.writeReg e1000Txdesctail (UInt32.ofNat s.txTail) with txCall := .polling txPolls},
      [.tx (.queued frame.1)])
  | .polling left =>
    let last := (s.txTail+txDescCount-1)%txDescCount
    if s.mem (A.txDesc last+12)&&&txdStatDd≠0 then
      ({s with txCall := .idle},[.tx (.returned true)])
    else if left ≤ 1 then ({s with txCall := .idle},[.tx (.returned false)])
    else ({s with txCall := .polling (left-1)},[])

end Calls

section Nic

variable (s : E1000)

/-- The descriptor of a ring that a head register points to. -/
def descAt (lo hi head : UInt32) : Nat :=
  (s.regs lo).toNat+(s.regs hi).toNat*2^32+descSize*(s.regs head).toNat

def nextHead (len head : UInt32) : UInt32 :=
  UInt32.ofNat (((s.regs head).toNat+1)%((s.regs len).toNat/descSize))

/-- The NIC follows the descriptor at RDH to a buffer, and reports in the descriptor. -/
def dmaReceive (frame : RxFrame) (report : RxDesc) : E1000 × List RingEvent :=
  if s.Receiving ∧ s.regs e1000Rxdeschead≠s.regs e1000Rxdesctail then
    let desc := descAt s e1000Rxdesclo e1000Rxdeschi e1000Rxdeschead
    let report : RxDesc :=
      {report with length := UInt16.ofNat frame.1.length,status := report.status|||rxdStatDd}
    let next := nextHead s e1000Rxdesclen e1000Rxdeschead
    let s := s.put (loadAddress s.mem desc) frame.1
    let s := s.put (desc+8) report.fields
    ({s with regs := Function.update s.regs e1000Rxdeschead next},[.rx (.wrote frame.1)])
  else (s,[])

/-- The NIC follows the descriptor at TDH to a frame. -/
def dmaTransmit : E1000 × List RingEvent :=
  if s.Transmitting ∧ s.regs e1000Txdeschead≠s.regs e1000Txdesctail then
    let desc := descAt s e1000Txdesclo e1000Txdeschi e1000Txdeschead
    let frame := bytesAt s.mem (loadAddress s.mem desc) (loadHalf s.mem (desc+8)).toNat
    let next := nextHead s e1000Txdesclen e1000Txdeschead
    ({s with regs := Function.update s.regs e1000Txdeschead next},[.tx (.sent frame)])
  else (s,[])

/-- The NIC sets the DD bit of a descriptor of its ring, whenever it likes. -/
def dmaDone (i : Nat) : E1000 × List RingEvent :=
  if s.Transmitting ∧ i < (s.regs e1000Txdesclen).toNat/descSize then
    let status := (s.regs e1000Txdesclo).toNat+(s.regs e1000Txdeschi).toNat*2^32+descSize*i+12
    (s.put status [s.mem status|||txdStatDd],[])
  else (s,[])

/-- The reset is over. -/
def resetDone : E1000 :=
  {s with regs := Function.update s.regs e1000Ctrl (s.regs e1000Ctrl&&&~~~e1000CtrlRst)}

end Nic

/-- The calls of the driver once e1000_init has returned: polling for a frame, sending one, and
going on with that. -/
inductive DriverAction where
  | receive
  | call (frame : TxFrame)
  | send

inductive BusAction where
  | nicReceive (frame : RxFrame) (report : RxDesc)
  | nicTransmit
  | nicDone (i : Nat)
  | resetDone
  | cpu (a : DriverAction)

def driverStep (A : Arrays) (s : E1000) : DriverAction → E1000 × List RingEvent
  | .receive => receivePacket A s
  | .call frame =>
    match s.txCall with
    | .idle => ({s with txCall := .reading frame},[])
    | _ => (s,[])
  | .send => sendPacket A s

/-- The NIC moves whenever it likes; the processor finishes e1000_init first. -/
def busStep (A : Arrays) (s : E1000) : BusAction → E1000 × List RingEvent
  | .nicReceive frame report => dmaReceive s frame report
  | .nicTransmit => dmaTransmit s
  | .nicDone i => dmaDone s i
  | .resetDone => (resetDone s,[])
  | .cpu a =>
    match s.pc with
    | .returned => driverStep A s a
    | _ => (e1000Init A s,[])

inductive RingAction where
  | rx (a : RxAction)
  | tx (a : TxAction)

def ringStep (r : Rx × Tx) : RingAction → (Rx × Tx) × List RingEvent
  | .rx a => (((rxStep r.1 a).1,r.2),(rxStep r.1 a).2.map .rx)
  | .tx a => ((r.1,(txStep r.2 a).1),(txStep r.2 a).2.map .tx)

def DriverAction.ring : DriverAction → RingAction
  | .receive => .rx .driver
  | .call frame => .tx (.call frame)
  | .send => .tx .driver

/-- What an action is to the rings: the NIC leaves them alone until it is enabled, and the
processor until e1000_init has returned. -/
def ringInputs (s : E1000) : BusAction → List RingAction
  | .nicReceive frame report => if s.Receiving then [.rx (.nic frame report)] else []
  | .nicTransmit => if s.Transmitting then [.tx .transmit] else []
  | .nicDone i => if s.Transmitting ∧ i < txDescCount then [.tx (.done i)] else []
  | .resetDone => []
  | .cpu a =>
    match s.pc with
    | .returned => [a.ring]
    | _ => []

end Cllm.Network
