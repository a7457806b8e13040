import Mathlib.Logic.Function.Basic
import Cllm.Framework.Machine
import Cllm.Framework.RingBuffer
import Cllm.Network.Wire

namespace Cllm.Network

open Libc Machine RingBuffer

abbrev rxDescCount : Nat := 32
abbrev rxBufferSize : Nat := 2048
abbrev rxdStatDd : UInt8 := 0x01

/-- e1000_rx_desc_t, less the address of its buffer, which e1000_init sets for good. -/
structure RxDesc where
  length : UInt16
  checksum : UInt16
  status : UInt8
  errors : UInt8
  special : UInt16

def RxDesc.done (d : RxDesc) : Bool := d.status&&&rxdStatDd≠0

/-- Where a call of e1000_receive_packet stands: the access to shared memory that comes next,
and what the call has read so far. -/
inductive RxCall where
  | checking
  | sizing
  | copying (length : Nat) (buffer : List UInt8)
  | clearing (frame : Frame)
  | advancing (frame : Frame)
  | returning (frame : Frame)

/-- The receive ring in memory, the registers RDH and RDT, and the driver. -/
structure Rx where
  ring : Nat → RxDesc
  buffers : Nat → Buffer rxBufferSize
  rxHead : Nat
  rdh : Nat
  rdt : Nat
  call : RxCall

/-- The ring after e1000_init, whatever the buffers hold. -/
def rxInit (buffers : Nat → Buffer rxBufferSize) : Rx where
  ring := fun _ => ⟨0,0,0,0,0⟩
  buffers := buffers
  rxHead := 0
  rdh := 0
  rdt := rxDescCount-1
  call := .checking

/-- A frame that a descriptor's buffer takes. -/
abbrev RxFrame := {f : Frame // f.length ≤ rxBufferSize}

theorem rxFrame_fits (frame : RxFrame) : 0+frame.1.length ≤ rxBufferSize := by
  rw [Nat.zero_add]
  exact frame.2

inductive RxEvent where
  | wrote (frame : Frame)
  | returned (result : Option Frame)

/-- The NIC as it is assumed to be: while RDH differs from RDT it writes a frame in one step, with
its length, the DD bit and whatever else it reports. -/
def nicReceive (frame : RxFrame) (report : RxDesc) (s : Rx) : Rx × List RxEvent :=
  if s.rdh=s.rdt then (s,[])
  else
    ({s with
      buffers := Function.update s.buffers s.rdh
        ((s.buffers s.rdh).write 0 frame.1 (rxFrame_fits frame))
      ring := Function.update s.ring s.rdh
        {report with length := UInt16.ofNat frame.1.length,status := report.status|||rxdStatDd}
      rdh := (s.rdh+1)%rxDescCount},[.wrote frame.1])

/-- The next access of e1000_receive_packet; a call that has returned is followed by another. -/
def e1000ReceivePacket (s : Rx) : Rx × List RxEvent :=
  match s.call with
  | .checking =>
    if (s.ring s.rxHead).done then ({s with call := .sizing},[])
    else (s,[.returned none])
  | .sizing =>
    let length := (s.ring s.rxHead).length.toNat
    let length := if length>rxBufferSize then rxBufferSize else length
    ({s with call := .copying length []},[])
  | .copying length buffer =>
    if buffer.length < length then
      let byte := load8 (s.buffers s.rxHead).bytes buffer.length
      ({s with call := .copying length (buffer++[byte])},[])
    else ({s with call := .clearing buffer},[])
  | .clearing frame =>
    ({s with
      ring := Function.update s.ring s.rxHead {s.ring s.rxHead with status := 0}
      call := .advancing frame},[])
  | .advancing frame =>
    ({s with rxHead := (s.rxHead+1)%rxDescCount,call := .returning frame},[])
  | .returning frame =>
    ({s with rdt := (s.rxHead+rxDescCount-1)%rxDescCount,call := .checking},
      [.returned (some frame)])

inductive RxAction where
  | nic (frame : RxFrame) (report : RxDesc)
  | driver

def rxStep (s : Rx) : RxAction → Rx × List RxEvent
  | .nic frame report => nicReceive frame report s
  | .driver => e1000ReceivePacket s

def written (es : List RxEvent) : List Frame :=
  es.filterMap fun e => match e with
    | .wrote f => some f
    | .returned _ => none

def received (es : List RxEvent) : List Frame :=
  es.filterMap fun e => match e with
    | .wrote _ => none
    | .returned r => r

/-- The frame a descriptor and its buffer hold. -/
def Rx.frame (s : Rx) (i : Nat) : Frame := (s.buffers i).bytes.take (s.ring i).length.toNat

namespace RxCall

/-- A frame taken off the ring that is yet to be returned. -/
def held : RxCall → List Frame
  | .returning f => [f]
  | _ => []

/-- How many descriptors of the queue are cleared already. -/
def cleared : RxCall → Nat
  | .advancing _ => 1
  | _ => 0

/-- How many descriptors the driver has freed without telling the NIC. -/
def behind : RxCall → Nat
  | .returning _ => 1
  | _ => 0

/-- A call works on the first frame of the queue. -/
def Reads (queue : List Frame) : RxCall → Prop
  | .checking | .returning _ => True
  | .sizing => ∃ f rest,queue=f::rest
  | .copying length buffer =>
    ∃ f rest,queue=f::rest ∧ length=f.length ∧ buffer.length ≤ f.length ∧
      buffer=f.take buffer.length
  | .clearing f | .advancing f => ∃ rest,queue=f::rest

theorem Reads.append {queue : List Frame} {c : RxCall} (h : c.Reads queue) (f : Frame) :
    c.Reads (queue++[f]) := by
  cases c with
  | checking => trivial
  | returning g => trivial
  | sizing =>
    obtain ⟨g,rest,rfl⟩ := h
    exact ⟨g,rest++[f],rfl⟩
  | copying length buffer =>
    obtain ⟨g,rest,rfl,hg⟩ := h
    exact ⟨g,rest++[f],rfl,hg⟩
  | clearing g =>
    obtain ⟨rest,rfl⟩ := h
    exact ⟨rest++[f],rfl⟩
  | advancing g =>
    obtain ⟨rest,rfl⟩ := h
    exact ⟨rest++[f],rfl⟩

theorem Reads.cleared_le {queue : List Frame} {c : RxCall} (h : c.Reads queue) :
    c.cleared ≤ queue.length := by
  cases c with
  | advancing g =>
    obtain ⟨rest,rfl⟩ := h
    simp [cleared]
  | checking => exact Nat.zero_le _
  | sizing => exact Nat.zero_le _
  | copying length buffer => exact Nat.zero_le _
  | clearing g => exact Nat.zero_le _
  | returning g => exact Nat.zero_le _

end RxCall

/-- The ring holds a queue of frames from the driver's head up to RDH, the DD bits mark it, and
RDT keeps the NIC one descriptor short of the driver's head. -/
structure RxInv (s : Rx) (queue : List Frame) : Prop where
  holds : Holds rxDescCount s.frame s.rxHead s.rdh queue
  done : ∀ j < rxDescCount,(s.ring ((s.rxHead+j)%rxDescCount)).done=true ↔
    s.call.cleared ≤ j ∧ j < queue.length
  room : queue.length+s.call.behind < rxDescCount
  limit : s.rdt=(s.rxHead+rxDescCount-1-s.call.behind)%rxDescCount
  reads : s.call.Reads queue

theorem rx_sizes : rxDescCount=32 ∧ rxBufferSize=2048 := ⟨rfl,rfl⟩

theorem rxInit_inv (buffers : Nat → Buffer rxBufferSize) : RxInv (rxInit buffers) [] where
  holds := holds_nil (by decide) _
  done j hj := by simp [rxInit,RxDesc.done]
  room := Nat.zero_lt_succ _
  limit := rfl
  reads := trivial

theorem RxDesc.done_report (report : RxDesc) (length : UInt16) :
    RxDesc.done {report with length := length,status := report.status|||rxdStatDd}=true := by
  have h : (report.status|||rxdStatDd)&&&rxdStatDd=rxdStatDd := by
    apply UInt8.eq_of_toBitVec_eq
    ext i hi
    simp only [UInt8.toBitVec_and,UInt8.toBitVec_or]
    interval_cases i <;> simp
  rw [RxDesc.done,h]
  rfl

theorem frame_length (s : Rx) (i : Nat) :
    (s.frame i).length=
      if (s.ring i).length.toNat>rxBufferSize then rxBufferSize else (s.ring i).length.toNat := by
  rw [Rx.frame,List.length_take,(s.buffers i).size]
  split_ifs <;> omega

/-- One more byte of a copy. -/
theorem frame_take_succ (s : Rx) {i k : Nat} (hk : k < (s.frame i).length) :
    (s.frame i).take k++[load8 (s.buffers i).bytes k]=(s.frame i).take (k+1) := by
  have hbyte : load8 (s.buffers i).bytes k=(s.frame i)[k] := by
    have hlen : k < (s.buffers i).bytes.length := by
      rw [Rx.frame,List.length_take] at hk
      omega
    rw [load8,List.getD_eq_getElem _ _ hlen]
    simp only [Rx.frame,List.getElem_take]
  rw [hbyte,List.take_append_getElem hk]

section NicStep

variable {s : Rx} {queue : List Frame}

theorem RxInv.has_room (h : RxInv s queue) (hne : s.rdh≠s.rdt) :
    queue.length+s.call.behind+1 < rxDescCount := by
  have hroom := h.room
  by_contra hfull
  apply hne
  rw [h.limit,h.holds.tail_eq]
  congr 1
  omega

/-- The state after a frame that the receiver takes. -/
def taken (frame : RxFrame) (report : RxDesc) (s : Rx) : Rx :=
  {s with
    buffers := Function.update s.buffers s.rdh
      ((s.buffers s.rdh).write 0 frame.1 (rxFrame_fits frame))
    ring := Function.update s.ring s.rdh
      {report with length := UInt16.ofNat frame.1.length,status := report.status|||rxdStatDd}
    rdh := (s.rdh+1)%rxDescCount}

theorem taken_frame (frame : RxFrame) (report : RxDesc) (s : Rx) :
    (taken frame report s).frame s.rdh=frame.1 := by
  have hlen : (UInt16.ofNat frame.1.length).toNat=frame.1.length := by
    have hf := frame.2
    have hsize := rx_sizes.2
    rw [UInt16.toNat_ofNat']
    omega
  have htake := Buffer.take_write (s.buffers s.rdh) 0 frame.1 (rxFrame_fits frame)
  rw [Nat.zero_add] at htake
  simp only [taken,Rx.frame,Function.update_self,hlen]
  simpa using htake

theorem taken_frame_ne (frame : RxFrame) (report : RxDesc) (s : Rx) {i : Nat} (hi : i≠s.rdh) :
    (taken frame report s).frame i=s.frame i := by
  simp only [taken,Rx.frame,Function.update_of_ne hi]

theorem RxInv.nic (h : RxInv s queue) (frame : RxFrame) (report : RxDesc) (hne : s.rdh≠s.rdt) :
    RxInv (nicReceive frame report s).1 (queue++[frame.1]) := by
  have hs : (nicReceive frame report s).1=taken frame report s := congrArg Prod.fst (if_neg hne)
  have hrdh := h.holds.tail_eq
  have hroom := h.has_room hne
  have hpush := (h.holds.frame fun i hi => taken_frame_ne frame report s hi).push (by omega)
  rw [taken_frame] at hpush
  rw [hs]
  refine ⟨hpush,?_,?_,h.limit,h.reads.append frame.1⟩
  · intro j hj
    change ((taken frame report s).ring ((s.rxHead+j)%rxDescCount)).done=true ↔
      s.call.cleared ≤ j ∧ _
    rw [List.length_append,List.length_singleton]
    by_cases hjq : j=queue.length
    · have hle := h.reads.cleared_le
      rw [hjq,← hrdh]
      simp only [taken,Function.update_self,RxDesc.done_report,true_iff]
      omega
    · have hi : (s.rxHead+j)%rxDescCount≠s.rdh := by
        rw [hrdh]
        intro he
        exact hjq (wrap_injective hj (by omega) he)
      have hring : (taken frame report s).ring ((s.rxHead+j)%rxDescCount)=
          s.ring ((s.rxHead+j)%rxDescCount) := Function.update_of_ne hi ..
      rw [hring,h.done j hj]
      omega
  · change (queue++[frame.1]).length+s.call.behind < rxDescCount
    rw [List.length_append,List.length_singleton]
    omega

end NicStep

section DriverStep

variable {s : Rx} {queue : List Frame}

theorem RxInv.front (h : RxInv s queue) {f : Frame} {rest : List Frame} (hq : queue=f::rest) :
    s.frame s.rxHead=f := by
  subst hq
  exact h.holds.front

theorem RxInv.headDone (h : RxInv s queue) :
    (s.ring s.rxHead).done=true ↔ s.call.cleared ≤ 0 ∧ 0 < queue.length := by
  have h0 := h.done 0 (by decide)
  rw [Nat.add_zero,Nat.mod_eq_of_lt h.holds.head_lt] at h0
  exact h0

/-- A step that only moves the call on. -/
theorem RxInv.move (h : RxInv s queue) {c : RxCall} (hcleared : c.cleared=s.call.cleared)
    (hbehind : c.behind=s.call.behind) (hr : c.Reads queue) :
    RxInv {s with call := c} queue where
  holds := h.holds
  done j hj := by
    rw [hcleared]
    exact h.done j hj
  room := by
    rw [hbehind]
    exact h.room
  limit := by
    rw [hbehind]
    exact h.limit
  reads := hr

theorem RxInv.clear (h : RxInv s queue) {f : Frame} (hc : s.call=.clearing f) :
    RxInv (e1000ReceivePacket s).1 queue := by
  have hr := h.reads
  have hdone := h.done
  have hroom := h.room
  have hlimit := h.limit
  rw [hc] at hr hdone hroom hlimit
  let ring := Function.update s.ring s.rxHead {s.ring s.rxHead with status := 0}
  have hstep : (e1000ReceivePacket s).1={s with ring := ring,call := .advancing f} := by
    simp only [e1000ReceivePacket,hc,ring]
  have hlength (i : Nat) : (ring i).length=(s.ring i).length := by
    by_cases hi : i=s.rxHead
    · subst hi
      simp only [ring,Function.update_self]
    · simp only [ring,Function.update_of_ne hi]
  rw [hstep]
  refine ⟨?_,?_,hroom,hlimit,hr⟩
  · have hframe : Rx.frame {s with ring := ring,call := .advancing f}=s.frame := by
      funext i
      simp only [Rx.frame,hlength]
    rw [hframe]
    exact h.holds
  · intro j hj
    by_cases hj0 : j=0
    · subst hj0
      have hcleared : (ring s.rxHead).done=false := by
        simp [ring,RxDesc.done]
      simp only [Nat.add_zero,Nat.mod_eq_of_lt h.holds.head_lt,hcleared,RxCall.cleared]
      simp
    · have hi : (s.rxHead+j)%rxDescCount≠s.rxHead := by
        intro he
        apply hj0
        have hw : (s.rxHead+j)%rxDescCount=(s.rxHead+0)%rxDescCount := by
          rw [he,Nat.add_zero,Nat.mod_eq_of_lt h.holds.head_lt]
        exact wrap_injective hj (by decide) hw
      have hd := hdone j hj
      simp only [ring,Function.update_of_ne hi]
      rw [hd]
      simp only [RxCall.cleared]
      omega

theorem RxInv.advance (h : RxInv s queue) {f : Frame} (hc : s.call=.advancing f) :
    ∃ rest,queue=f::rest ∧ RxInv (e1000ReceivePacket s).1 rest := by
  have hr := h.reads
  have hdone := h.done
  have hroom := h.room
  have hlimit := h.limit
  rw [hc] at hr hdone hroom hlimit
  obtain ⟨rest,rfl⟩ := hr
  simp only [List.length_cons,RxCall.behind,RxCall.cleared] at hdone hroom hlimit
  have hhead := h.holds.head_lt
  have hsize := rx_sizes.1
  have hstep : (e1000ReceivePacket s).1=
      {s with rxHead := (s.rxHead+1)%rxDescCount,call := .returning f} := by
    simp only [e1000ReceivePacket,hc]
  refine ⟨rest,rfl,?_⟩
  rw [hstep]
  refine ⟨h.holds.pop,?_,?_,?_,trivial⟩
  · intro j hj
    have hwrap : ((s.rxHead+1)%rxDescCount+j)%rxDescCount=(s.rxHead+(j+1))%rxDescCount := by
      rw [wrap_add]
      congr 1
      omega
    simp only [hwrap,RxCall.cleared]
    by_cases hlast : j+1=rxDescCount
    · have h0 := hdone 0 (by decide)
      have hturn : (s.rxHead+(j+1))%rxDescCount=(s.rxHead+0)%rxDescCount := by
        rw [hlast,Nat.add_mod_right,Nat.add_zero]
      rw [hturn,h0]
      omega
    · rw [hdone (j+1) (by omega)]
      omega
  · simp only [RxCall.behind]
    omega
  · have hlimit' : s.rdt=(s.rxHead+32-1-0)%32 := hlimit
    have hhead' : s.rxHead < 32 := hhead
    change s.rdt=((s.rxHead+1)%32+32-1-1)%32
    omega

/-- What the driver returns is what it takes off the queue. -/
theorem RxInv.driver (h : RxInv s queue) :
    ∃ queue',RxInv (e1000ReceivePacket s).1 queue' ∧
      received (e1000ReceivePacket s).2++((e1000ReceivePacket s).1.call.held++queue')=
        s.call.held++queue := by
  have hr := h.reads
  have hsize := rx_sizes
  cases hc : s.call with
  | checking =>
    simp only [e1000ReceivePacket,hc]
    split_ifs with hd
    · obtain ⟨-,hpos⟩ := h.headDone.mp hd
      obtain ⟨f,rest,hq⟩ := List.exists_cons_of_length_pos hpos
      exact ⟨queue,h.move (by rw [hc]; rfl) (by rw [hc]; rfl) ⟨f,rest,hq⟩,rfl⟩
    · refine ⟨queue,h,?_⟩
      simp [received,hc]
  | sizing =>
    rw [hc] at hr
    obtain ⟨f,rest,hq⟩ := hr
    have hlen := frame_length s s.rxHead
    rw [h.front hq] at hlen
    simp only [e1000ReceivePacket,hc]
    refine ⟨queue,h.move (by rw [hc]; rfl) (by rw [hc]; rfl) ?_,rfl⟩
    exact ⟨f,rest,hq,hlen.symm,Nat.zero_le _,by simp⟩
  | copying length buffer =>
    rw [hc] at hr
    obtain ⟨f,rest,hq,hl,hle,hb⟩ := hr
    have hf := h.front hq
    simp only [e1000ReceivePacket,hc]
    split_ifs with hlt
    · have hbyte := frame_take_succ s (i := s.rxHead) (k := buffer.length) (by rw [hf]; omega)
      rw [hf,← hb] at hbyte
      refine ⟨queue,h.move (by rw [hc]; rfl) (by rw [hc]; rfl) ⟨f,rest,hq,hl,?_,?_⟩,rfl⟩
      · rw [List.length_append,List.length_singleton]
        omega
      · rw [hbyte,List.length_take]
        congr 1
        omega
    · have hall : buffer=f := by
        rw [hb]
        exact List.take_of_length_le (by omega)
      exact ⟨queue,h.move (by rw [hc]; rfl) (by rw [hc]; rfl) ⟨rest,hall ▸ hq⟩,rfl⟩
  | clearing f =>
    refine ⟨queue,h.clear hc,?_⟩
    simp only [e1000ReceivePacket,hc]
    rfl
  | advancing f =>
    obtain ⟨rest,hq,hinv⟩ := h.advance hc
    refine ⟨rest,hinv,?_⟩
    simp only [e1000ReceivePacket,hc,hq]
    rfl
  | returning f =>
    refine ⟨queue,?_,?_⟩
    · have hdone := h.done
      have hroom := h.room
      rw [hc] at hdone hroom
      simp only [RxCall.behind,RxCall.cleared] at hdone hroom
      simp only [e1000ReceivePacket,hc]
      exact ⟨h.holds,hdone,by simp only [RxCall.behind]; omega,rfl,trivial⟩
    · simp only [e1000ReceivePacket,hc]
      rfl

end DriverStep

/-- In every interleaving, what the NIC wrote is what the calls have returned, then the frame of
a call about to return, then what the ring holds. -/
def RxFifo (s : Rx) (es : List RxEvent) : Prop :=
  ∃ queue,RxInv s queue ∧ written es=received es++(s.call.held++queue)

theorem written_append (x y : List RxEvent) : written (x++y)=written x++written y :=
  List.filterMap_append

theorem received_append (x y : List RxEvent) : received (x++y)=received x++received y :=
  List.filterMap_append

theorem e1000ReceivePacket_written (s : Rx) : written (e1000ReceivePacket s).2=[] := by
  cases hc : s.call <;> simp only [e1000ReceivePacket,hc]
  · split_ifs <;> rfl
  · rfl
  · split_ifs <;> rfl
  · rfl
  · rfl
  · rfl

theorem RxFifo.step {s : Rx} {es : List RxEvent} (h : RxFifo s es) (a : RxAction) :
    RxFifo (rxStep s a).1 (es++(rxStep s a).2) := by
  obtain ⟨queue,hinv,hw⟩ := h
  rw [RxFifo,written_append,received_append,hw]
  cases a with
  | nic frame report =>
    simp only [rxStep]
    by_cases hne : s.rdh=s.rdt
    · have hs : nicReceive frame report s=(s,[]) := if_pos hne
      rw [hs]
      exact ⟨queue,hinv,by simp [written,received]⟩
    · refine ⟨queue++[frame.1],hinv.nic frame report hne,?_⟩
      have hcall : (nicReceive frame report s).1.call=s.call := by simp [nicReceive,hne]
      have hout : (nicReceive frame report s).2=[.wrote frame.1] := by simp [nicReceive,hne]
      rw [hcall,hout]
      simp [written,received]
  | driver =>
    obtain ⟨queue',hinv',hr⟩ := hinv.driver
    refine ⟨queue',hinv',?_⟩
    simp only [rxStep]
    rw [e1000ReceivePacket_written,List.append_nil,List.append_assoc,hr]

theorem run_rxFifo (buffers : Nat → Buffer rxBufferSize) (as : List RxAction) :
    RxFifo (runState rxStep (rxInit buffers) as) (outputs rxStep (rxInit buffers) as) := by
  have hrun := history_along rxStep (fun s _ es => RxFifo s es) (P := fun _ _ => True)
    (fun s _ es a h _ => h.step a) (h := []) (o := []) ⟨[],rxInit_inv buffers,rfl⟩
    (along_of_forall _ (fun _ _ => trivial) _ as)
  simpa using hrun

/-- The frames the calls return are, in order and unmodified, a prefix of those the NIC wrote,
and all the others are on the ring or in the hands of a call. -/
theorem received_prefix (buffers : Nat → Buffer rxBufferSize) (as : List RxAction) :
    let s := runState rxStep (rxInit buffers) as
    let es := outputs rxStep (rxInit buffers) as
    received es <+: written es ∧
      ∃ queue,Holds rxDescCount s.frame s.rxHead s.rdh queue ∧
        written es=received es++(s.call.held++queue) := by
  obtain ⟨queue,hinv,hw⟩ := run_rxFifo buffers as
  refine ⟨?_,queue,hinv.holds,hw⟩
  rw [hw]
  apply List.prefix_append

end Cllm.Network
