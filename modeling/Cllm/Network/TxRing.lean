import Mathlib.Logic.Function.Basic
import Cllm.Framework.Machine
import Cllm.Framework.RingBuffer
import Cllm.Network.Wire

namespace Cllm.Network

open Libc Machine RingBuffer

abbrev txDescCount : Nat := 32
abbrev txBufferSize : Nat := 2048
abbrev txdCmdEop : UInt8 := 0x01
abbrev txdCmdIfcs : UInt8 := 0x02
abbrev txdCmdRs : UInt8 := 0x08
abbrev txdStatDd : UInt8 := 0x01

/-- The polls of a call before it gives up. -/
abbrev txPolls : Nat := 1000

/-- e1000_tx_desc_t, less the address of its buffer, which e1000_init sets for good. -/
structure TxDesc where
  length : UInt16
  cso : UInt8
  command : UInt8
  status : UInt8
  css : UInt8
  special : UInt16

def TxDesc.done (d : TxDesc) : Bool := d.status&&&txdStatDd≠0

/-- A frame that a descriptor's buffer takes. -/
abbrev TxFrame := {f : Frame // f.length ≤ txBufferSize}

/-- The fields of a descriptor in the order e1000_send_packet sets them. -/
inductive TxField where
  | length
  | cso
  | command
  | status
  | css
  | special

def TxField.next : TxField → Option TxField
  | .length => some .cso
  | .cso => some .command
  | .command => some .status
  | .status => some .css
  | .css => some .special
  | .special => none

def TxField.set (frame : TxFrame) (d : TxDesc) : TxField → TxDesc
  | .length => {d with length := UInt16.ofNat frame.1.length}
  | .cso => {d with cso := 0}
  | .command => {d with command := txdCmdEop|||txdCmdIfcs|||txdCmdRs}
  | .status => {d with status := 0}
  | .css => {d with css := 0}
  | .special => {d with special := 0}

/-- Where a call of e1000_send_packet stands: the access to shared memory that comes next. -/
inductive TxCall where
  | idle
  | reading (frame : TxFrame)
  | checking (frame : TxFrame) (txHead : Nat)
  | copying (frame : TxFrame) (i : Nat)
  | describing (frame : TxFrame) (field : TxField)
  | advancing (frame : TxFrame)
  | queueing (frame : TxFrame)
  | polling (left : Nat)

/-- The transmit ring in memory, the registers TDH and TDT, and the driver. -/
structure Tx where
  ring : Nat → TxDesc
  buffers : Nat → Buffer txBufferSize
  txTail : Nat
  tdh : Nat
  tdt : Nat
  call : TxCall

/-- The ring after e1000_init, whatever the buffers hold. -/
def txInit (buffers : Nat → Buffer txBufferSize) : Tx where
  ring := fun _ => ⟨0,0,0,0,0,0⟩
  buffers := buffers
  txTail := 0
  tdh := 0
  tdt := 0
  call := .idle

inductive TxEvent where
  /-- the driver writes to the descriptor or to the buffer `i` -/
  | wrote (i : Nat)
  /-- a call that did not find the ring full puts its frame into it -/
  | queued (frame : Frame)
  | returned (ok : Bool)
  /-- the NIC puts a frame on the wire -/
  | sent (frame : Frame)

/-- The frame a descriptor and its buffer hold. -/
def Tx.frame (s : Tx) (i : Nat) : Frame := (s.buffers i).bytes.take (s.ring i).length.toNat

/-- The NIC as it is assumed to be: while TDH differs from TDT it sends the frame at TDH. -/
def nicTransmit (s : Tx) : Tx × List TxEvent :=
  if s.tdh=s.tdt then (s,[])
  else ({s with tdh := (s.tdh+1)%txDescCount},[.sent (s.frame s.tdh)])

/-- The NIC sets the DD bit of a descriptor, whenever it likes. -/
def nicDone (i : Nat) (s : Tx) : Tx × List TxEvent :=
  ({s with
    ring := Function.update s.ring i
      {s.ring i with status := (s.ring i).status|||txdStatDd}},[])

/-- Writing one byte of memcpy, when there is one. -/
theorem txCopy_fits {frame : TxFrame} {i : Nat} (h : i < frame.1.length) :
    i+[load8 frame.1 i].length ≤ txBufferSize := by
  have hf := frame.2
  simp only [List.length_singleton]
  omega

/-- The next access of the pending e1000_send_packet call. -/
def e1000SendPacket (s : Tx) : Tx × List TxEvent :=
  match s.call with
  | .idle => (s,[])
  | .reading frame => ({s with call := .checking frame s.tdh},[])
  | .checking frame txHead =>
    let nextTail := (s.txTail+1)%txDescCount
    if nextTail=txHead then ({s with call := .idle},[.returned false])
    else ({s with call := .copying frame 0},[])
  | .copying frame i =>
    if h : i < frame.1.length then
      ({s with
        buffers := Function.update s.buffers s.txTail
          ((s.buffers s.txTail).write i [load8 frame.1 i] (txCopy_fits h))
        call := .copying frame (i+1)},[.wrote s.txTail])
    else ({s with call := .describing frame .length},[])
  | .describing frame field =>
    let call :=
      match field.next with
      | some field => .describing frame field
      | none => .advancing frame
    ({s with
      ring := Function.update s.ring s.txTail (field.set frame (s.ring s.txTail))
      call := call},[.wrote s.txTail])
  | .advancing frame =>
    ({s with txTail := (s.txTail+1)%txDescCount,call := .queueing frame},[])
  | .queueing frame =>
    ({s with tdt := s.txTail,call := .polling txPolls},[.queued frame.1])
  | .polling left =>
    if (s.ring ((s.txTail+txDescCount-1)%txDescCount)).done then
      ({s with call := .idle},[.returned true])
    else if left ≤ 1 then ({s with call := .idle},[.returned false])
    else ({s with call := .polling (left-1)},[])

inductive TxAction where
  | call (frame : TxFrame)
  | driver
  | transmit
  | done (i : Nat)

/-- The driver has one call at a time. -/
def txStep (s : Tx) : TxAction → Tx × List TxEvent
  | .call frame =>
    match s.call with
    | .idle => ({s with call := .reading frame},[])
    | _ => (s,[])
  | .driver => e1000SendPacket s
  | .transmit => nicTransmit s
  | .done i => nicDone i s

def queuedFrames (es : List TxEvent) : List Frame :=
  es.filterMap fun e => match e with
    | .queued f => some f
    | _ => none

def sentFrames (es : List TxEvent) : List Frame :=
  es.filterMap fun e => match e with
    | .sent f => some f
    | _ => none

/-- Whether the driver's tail is ahead of TDT. -/
def TxCall.ahead : TxCall → Nat
  | .queueing _ => 1
  | _ => 0

/-- What a call has done so far: the head it read is at most so far behind that the ring was not
full, and what it has written stands in the descriptor at TDT. -/
def Tx.Prepared (s : Tx) (queue : List Frame) : Prop :=
  match s.call with
  | .idle | .reading _ | .polling _ => True
  | .checking _ txHead =>
    txHead < txDescCount ∧ ∃ d,s.tdh=(txHead+d)%txDescCount ∧ d+queue.length < txDescCount
  | .copying frame i =>
    queue.length+1 < txDescCount ∧ i ≤ frame.1.length ∧
      (s.buffers s.tdt).bytes.take i=frame.1.take i
  | .describing frame field =>
    queue.length+1 < txDescCount ∧ (s.buffers s.tdt).bytes.take frame.1.length=frame.1 ∧
      (field≠.length → (s.ring s.tdt).length.toNat=frame.1.length)
  | .advancing frame | .queueing frame =>
    queue.length+1 < txDescCount ∧ s.frame s.tdt=frame.1

/-- The ring holds a queue of frames from TDH up to TDT. -/
structure TxInv (s : Tx) (queue : List Frame) : Prop where
  holds : Holds txDescCount s.frame s.tdh s.tdt queue
  tail : s.txTail=(s.tdt+s.call.ahead)%txDescCount
  prepared : s.Prepared queue

theorem tx_sizes : txDescCount=32 ∧ txBufferSize=2048 := ⟨rfl,rfl⟩

theorem txInit_inv (buffers : Nat → Buffer txBufferSize) : TxInv (txInit buffers) [] where
  holds := holds_nil (by decide) _
  tail := rfl
  prepared := trivial

/-- The driver writes to the descriptor and the buffer at its tail only. -/
theorem e1000SendPacket_frame (s : Tx) {i : Nat} (hi : i≠s.txTail) :
    (e1000SendPacket s).1.ring i=s.ring i ∧ (e1000SendPacket s).1.buffers i=s.buffers i := by
  cases hc : s.call with
  | idle => simp [e1000SendPacket,hc]
  | reading frame => simp [e1000SendPacket,hc]
  | checking frame txHead =>
    simp only [e1000SendPacket,hc]
    split_ifs <;> exact ⟨rfl,rfl⟩
  | copying frame k =>
    simp only [e1000SendPacket,hc]
    split_ifs
    · exact ⟨rfl,Function.update_of_ne hi ..⟩
    · exact ⟨rfl,rfl⟩
  | describing frame field =>
    simp only [e1000SendPacket,hc]
    exact ⟨Function.update_of_ne hi ..,trivial⟩
  | advancing frame => simp [e1000SendPacket,hc]
  | queueing frame => simp [e1000SendPacket,hc]
  | polling left =>
    simp only [e1000SendPacket,hc]
    split_ifs <;> exact ⟨rfl,rfl⟩

theorem e1000SendPacket_wrote (s : Tx) {i : Nat} (h : .wrote i∈(e1000SendPacket s).2) :
    i=s.txTail ∧ s.call.ahead=0 := by
  cases hc : s.call with
  | copying frame k =>
    simp only [e1000SendPacket,hc] at h
    split_ifs at h
    · simpa [TxCall.ahead] using h
    · simp at h
  | describing frame field =>
    simp only [e1000SendPacket,hc] at h
    simpa [TxCall.ahead] using h
  | idle => simp [e1000SendPacket,hc] at h
  | reading frame => simp [e1000SendPacket,hc] at h
  | checking frame txHead =>
    simp only [e1000SendPacket,hc] at h
    split_ifs at h <;> simp at h
  | advancing frame => simp [e1000SendPacket,hc] at h
  | queueing frame => simp [e1000SendPacket,hc] at h
  | polling left =>
    simp only [e1000SendPacket,hc] at h
    split_ifs at h <;> simp at h

section Steps

variable {s : Tx} {queue : List Frame}

theorem TxInv.tail_eq (h : TxInv s queue) (ha : s.call.ahead=0) : s.txTail=s.tdt := by
  have ht := h.tail
  rw [ha,Nat.add_zero,Nat.mod_eq_of_lt h.holds.tail_lt] at ht
  exact ht

/-- No write of the driver meets the range from TDH up to TDT. -/
theorem TxInv.apart (h : TxInv s queue) {i : Nat} (hi : .wrote i∈(e1000SendPacket s).2) :
    ¬Occupied txDescCount s.tdh s.tdt i := by
  obtain ⟨rfl,ha⟩ := e1000SendPacket_wrote s hi
  rw [h.tail_eq ha]
  exact h.holds.not_occupied

/-- A step of the NIC: the first frame of the queue is sent. -/
theorem TxInv.transmit (h : TxInv s queue) :
    ∃ queue',TxInv (nicTransmit s).1 queue' ∧ queue=sentFrames (nicTransmit s).2++queue' ∧
      queuedFrames (nicTransmit s).2=[] := by
  by_cases he : s.tdh=s.tdt
  · have hs : nicTransmit s=(s,[]) := if_pos he
    rw [hs]
    exact ⟨queue,h,rfl,rfl⟩
  · have hs : nicTransmit s=
        ({s with tdh := (s.tdh+1)%txDescCount},[.sent (s.frame s.tdh)]) := if_neg he
    have hne : queue≠[] := fun hq => he (h.holds.empty_iff.mpr hq)
    obtain ⟨f,rest,rfl⟩ := List.exists_cons_of_ne_nil hne
    rw [hs,h.holds.front]
    refine ⟨rest,⟨h.holds.pop,h.tail,?_⟩,rfl,rfl⟩
    have hp := h.prepared
    unfold Tx.Prepared at hp ⊢
    simp only [List.length_cons] at hp ⊢
    cases hc : s.call with
    | idle => trivial
    | reading frame => trivial
    | polling left => trivial
    | checking frame txHead =>
      simp only [hc] at hp ⊢
      obtain ⟨hlt,d,hd,hroom⟩ := hp
      refine ⟨hlt,d+1,?_,by omega⟩
      rw [hd,wrap_add,Nat.add_assoc]
    | copying frame i =>
      simp only [hc] at hp ⊢
      exact ⟨by omega,hp.2⟩
    | describing frame field =>
      simp only [hc] at hp ⊢
      exact ⟨by omega,hp.2⟩
    | advancing frame =>
      simp only [hc] at hp ⊢
      exact ⟨by omega,hp.2⟩
    | queueing frame =>
      simp only [hc] at hp ⊢
      exact ⟨by omega,hp.2⟩

/-- The DD bit of a descriptor is no part of its frame. -/
theorem TxInv.mark (h : TxInv s queue) (i : Nat) : TxInv (nicDone i s).1 queue := by
  have hlength (k : Nat) : ((nicDone i s).1.ring k).length=(s.ring k).length := by
    by_cases hk : k=i
    · subst hk
      simp [nicDone]
    · simp [nicDone,Function.update_of_ne hk]
  have hframe : (nicDone i s).1.frame=s.frame := by
    funext k
    rw [Tx.frame,Tx.frame,hlength]
    rfl
  refine ⟨?_,h.tail,?_⟩
  · rw [hframe]
    exact h.holds
  · have hp := h.prepared
    unfold Tx.Prepared at hp ⊢
    rw [hframe]
    simp only [hlength]
    exact hp

/-- What the driver writes leaves the queue as it is. -/
theorem TxInv.kept (h : TxInv s queue) (ha : s.call.ahead=0) :
    Holds txDescCount (e1000SendPacket s).1.frame s.tdh s.tdt queue := by
  apply h.holds.frame
  intro i hi
  rw [← h.tail_eq ha] at hi
  obtain ⟨hring,hbuffers⟩ := e1000SendPacket_frame s hi
  rw [Tx.frame,Tx.frame,hring,hbuffers]

/-- A step that only moves the call on. -/
theorem TxInv.move (h : TxInv s queue) (ha : s.call.ahead=0) {c : TxCall} (hc : c.ahead=0)
    (hp : Tx.Prepared {s with call := c} queue) : TxInv {s with call := c} queue where
  holds := h.holds
  tail := by
    rw [hc,← ha]
    exact h.tail
  prepared := hp

theorem TxInv.check (h : TxInv s queue) {frame : TxFrame} {txHead : Nat}
    (hc : s.call=.checking frame txHead) (hne : (s.txTail+1)%txDescCount≠txHead) :
    queue.length+1 < txDescCount := by
  have hp := h.prepared
  unfold Tx.Prepared at hp
  simp only [hc] at hp
  obtain ⟨hlt,d,hd,hroom⟩ := hp
  by_contra hfull
  apply hne
  have hd0 : d=0 := by omega
  have hlen : queue.length+1=txDescCount := by omega
  have htail := h.tail_eq (by rw [hc]; rfl)
  rw [htail,h.holds.tail_eq,wrap_add,Nat.add_assoc,hlen,Nat.add_mod_right,hd,hd0,Nat.add_zero,
    Nat.mod_mod,Nat.mod_eq_of_lt hlt]

theorem TxInv.copy (h : TxInv s queue) {frame : TxFrame} {i : Nat}
    (hc : s.call=.copying frame i) : TxInv (e1000SendPacket s).1 queue := by
  have hkept := h.kept (by rw [hc]; rfl)
  have htail := h.tail_eq (by rw [hc]; rfl)
  have hp := h.prepared
  unfold Tx.Prepared at hp
  simp only [hc] at hp
  obtain ⟨hroom,hi,htake⟩ := hp
  by_cases hlt : i < frame.1.length
  · have hs : (e1000SendPacket s).1={s with
        buffers := Function.update s.buffers s.txTail
          ((s.buffers s.txTail).write i [load8 frame.1 i] (txCopy_fits hlt))
        call := .copying frame (i+1)} := by
      simp only [e1000SendPacket,hc,dif_pos hlt]
    rw [hs] at hkept ⊢
    refine ⟨hkept,?_,hroom,hlt,?_⟩
    · simpa [TxCall.ahead,Nat.mod_eq_of_lt h.holds.tail_lt] using htail
    · have hw := Buffer.take_write (s.buffers s.txTail) i [load8 frame.1 i] (txCopy_fits hlt)
      rw [List.length_singleton] at hw
      simp only [htail,Function.update_self] at hw ⊢
      rw [hw,htake,load8,List.getD_eq_getElem _ _ hlt,List.take_append_getElem hlt]
  · have hall : i=frame.1.length := by omega
    have hs : (e1000SendPacket s).1={s with call := .describing frame .length} := by
      simp only [e1000SendPacket,hc,dif_neg hlt]
    rw [hs]
    refine h.move (by rw [hc]; rfl) rfl ⟨hroom,?_,fun hne => absurd rfl hne⟩
    rw [hall,List.take_length] at htake
    exact htake

theorem TxField.set_length (frame : TxFrame) (d : TxDesc) (field : TxField)
    (h : field≠.length → d.length.toNat=frame.1.length) :
    (field.set frame d).length.toNat=frame.1.length := by
  have hsize := tx_sizes.2
  have hf := frame.2
  cases field with
  | length =>
    simp only [TxField.set]
    rw [UInt16.toNat_ofNat']
    omega
  | cso => exact h nofun
  | command => exact h nofun
  | status => exact h nofun
  | css => exact h nofun
  | special => exact h nofun

theorem TxInv.describe (h : TxInv s queue) {frame : TxFrame} {field : TxField}
    (hc : s.call=.describing frame field) : TxInv (e1000SendPacket s).1 queue := by
  have hkept := h.kept (by rw [hc]; rfl)
  have htail := h.tail_eq (by rw [hc]; rfl)
  have hlt := h.holds.tail_lt
  have hp := h.prepared
  unfold Tx.Prepared at hp
  simp only [hc] at hp
  obtain ⟨hroom,htake,hlength⟩ := hp
  let ring := Function.update s.ring s.txTail (field.set frame (s.ring s.txTail))
  have hset : (ring s.tdt).length.toNat=frame.1.length := by
    simp only [ring,htail,Function.update_self]
    exact field.set_length frame _ hlength
  cases hn : field.next with
  | some field' =>
    have hs : (e1000SendPacket s).1={s with ring := ring,call := .describing frame field'} := by
      simp only [e1000SendPacket,hc,hn,ring]
    rw [hs] at hkept ⊢
    refine ⟨hkept,?_,hroom,htake,fun _ => hset⟩
    simpa [TxCall.ahead,Nat.mod_eq_of_lt hlt] using htail
  | none =>
    have hs : (e1000SendPacket s).1={s with ring := ring,call := .advancing frame} := by
      simp only [e1000SendPacket,hc,hn,ring]
    rw [hs] at hkept ⊢
    refine ⟨hkept,?_,hroom,?_⟩
    · simpa [TxCall.ahead,Nat.mod_eq_of_lt hlt] using htail
    · simp only [Tx.frame,hset]
      exact htake

/-- The frame that a call puts into the ring joins the end of the queue. -/
theorem TxInv.enqueue (h : TxInv s queue) {frame : TxFrame} (hc : s.call=.queueing frame) :
    TxInv (e1000SendPacket s).1 (queue++[frame.1]) := by
  have hp := h.prepared
  have htail := h.tail
  unfold Tx.Prepared at hp
  simp only [hc,TxCall.ahead] at hp htail
  obtain ⟨hroom,hframe⟩ := hp
  have hs : (e1000SendPacket s).1={s with tdt := s.txTail,call := .polling txPolls} := by
    simp only [e1000SendPacket,hc]
  have hpush := h.holds.push hroom
  rw [hframe,← htail] at hpush
  rw [hs]
  refine ⟨hpush,?_,trivial⟩
  exact (Nat.mod_eq_of_lt hpush.tail_lt).symm

/-- A step of the driver: its frame joins the queue when the call gets so far. -/
theorem TxInv.driver (h : TxInv s queue) :
    TxInv (e1000SendPacket s).1 (queue++queuedFrames (e1000SendPacket s).2) ∧
      sentFrames (e1000SendPacket s).2=[] := by
  have hnil (es : List TxEvent) (he : queuedFrames es=[]) : queue++queuedFrames es=queue := by
    rw [he,List.append_nil]
  have hp := h.prepared
  unfold Tx.Prepared at hp
  cases hc : s.call with
  | idle =>
    simp only [e1000SendPacket,hc]
    rw [hnil _ rfl]
    exact ⟨h,rfl⟩
  | reading frame =>
    simp only [e1000SendPacket,hc]
    rw [hnil _ rfl]
    refine ⟨h.move (by rw [hc]; rfl) rfl ⟨h.holds.head_lt,0,?_,?_⟩,rfl⟩
    · exact (Nat.mod_eq_of_lt h.holds.head_lt).symm
    · rw [Nat.zero_add]
      exact h.holds.room
  | checking frame txHead =>
    simp only [e1000SendPacket,hc]
    split_ifs with he
    · rw [hnil _ rfl]
      exact ⟨h.move (by rw [hc]; rfl) rfl trivial,rfl⟩
    · rw [hnil _ rfl]
      exact ⟨h.move (by rw [hc]; rfl) rfl ⟨h.check hc he,Nat.zero_le _,rfl⟩,rfl⟩
  | copying frame i =>
    have hout : queuedFrames (e1000SendPacket s).2=[] ∧ sentFrames (e1000SendPacket s).2=[] := by
      simp only [e1000SendPacket,hc]
      split_ifs <;> exact ⟨rfl,rfl⟩
    rw [hnil _ hout.1]
    exact ⟨h.copy hc,hout.2⟩
  | describing frame field =>
    have hout : queuedFrames (e1000SendPacket s).2=[] ∧ sentFrames (e1000SendPacket s).2=[] := by
      simp only [e1000SendPacket,hc]
      exact ⟨rfl,rfl⟩
    rw [hnil _ hout.1]
    exact ⟨h.describe hc,hout.2⟩
  | advancing frame =>
    simp only [hc] at hp
    have htail := h.tail_eq (by rw [hc]; rfl)
    simp only [e1000SendPacket,hc]
    rw [hnil _ rfl]
    refine ⟨⟨h.holds,?_,hp⟩,rfl⟩
    rw [htail]
    rfl
  | queueing frame =>
    have hout : queuedFrames (e1000SendPacket s).2=[frame.1] ∧
        sentFrames (e1000SendPacket s).2=[] := by
      simp only [e1000SendPacket,hc]
      exact ⟨rfl,rfl⟩
    rw [hout.1]
    exact ⟨h.enqueue hc,hout.2⟩
  | polling left =>
    simp only [e1000SendPacket,hc]
    split_ifs
    all_goals
      rw [hnil _ rfl]
      exact ⟨h.move (by rw [hc]; rfl) rfl trivial,rfl⟩

end Steps

/-- What has been queued is what has been sent, then what the ring holds. -/
def TxFifo (s : Tx) (es : List TxEvent) : Prop :=
  ∃ queue,TxInv s queue ∧ queuedFrames es=sentFrames es++queue

theorem queuedFrames_append (x y : List TxEvent) :
    queuedFrames (x++y)=queuedFrames x++queuedFrames y := List.filterMap_append

theorem sentFrames_append (x y : List TxEvent) : sentFrames (x++y)=sentFrames x++sentFrames y :=
  List.filterMap_append

theorem TxFifo.step {s : Tx} {es : List TxEvent} (h : TxFifo s es) (a : TxAction) :
    TxFifo (txStep s a).1 (es++(txStep s a).2) := by
  obtain ⟨queue,hinv,hq⟩ := h
  rw [TxFifo,queuedFrames_append,sentFrames_append,hq]
  cases a with
  | call frame =>
    simp only [txStep]
    cases hc : s.call with
    | idle =>
      refine ⟨queue,hinv.move (by rw [hc]; rfl) rfl trivial,?_⟩
      simp [queuedFrames,sentFrames]
    | _ => exact ⟨queue,hinv,by simp [queuedFrames,sentFrames]⟩
  | driver =>
    obtain ⟨hinv',hsent⟩ := hinv.driver
    refine ⟨_,hinv',?_⟩
    simp only [txStep]
    rw [hsent,List.append_nil,List.append_assoc]
  | transmit =>
    obtain ⟨queue',hinv',hsent,hqueued⟩ := hinv.transmit
    refine ⟨queue',hinv',?_⟩
    simp only [txStep]
    rw [hqueued,hsent,List.append_nil,List.append_assoc]
  | done i =>
    refine ⟨queue,hinv.mark i,?_⟩
    simp [txStep,nicDone,queuedFrames,sentFrames]

theorem run_txFifo (buffers : Nat → Buffer txBufferSize) (as : List TxAction) :
    TxFifo (runState txStep (txInit buffers) as) (outputs txStep (txInit buffers) as) := by
  have hrun := history_along txStep (fun s _ es => TxFifo s es) (P := fun _ _ => True)
    (fun s _ es a h _ => h.step a) (h := []) (o := []) ⟨[],txInit_inv buffers,rfl⟩
    (along_of_forall _ (fun _ _ => trivial) _ as)
  simpa using hrun

/-- The step is the check of a call that does not find the ring full. -/
def findsRoom (s : Tx) : TxAction → Bool
  | .driver =>
    match s.call with
    | .checking _ txHead => (s.txTail+1)%txDescCount≠txHead
    | _ => false
  | _ => false

/-- The frame that the call in progress was made with. -/
def callFrame (s : Tx) (given : List Frame) : TxAction → List Frame
  | .call frame =>
    match s.call with
    | .idle => [frame.1]
    | _ => given
  | _ => given

/-- The frames of the calls that do not find the ring full, in order. -/
def admittedFrames (s : Tx) (given : List Frame) : List TxAction → List Frame
  | [] => []
  | a::as =>
    (if findsRoom s a then given else [])++
      admittedFrames (txStep s a).1 (callFrame s given a) as

/-- The frame that a call has found room for and not put into the ring yet. -/
def TxCall.placing : TxCall → List Frame
  | .copying frame _ => [frame.1]
  | .describing frame _ => [frame.1]
  | .advancing frame => [frame.1]
  | .queueing frame => [frame.1]
  | _ => []

/-- A call works on the frame that it was made with. -/
def TxCall.Carries (given : List Frame) : TxCall → Prop
  | .idle => True
  | .reading frame => given=[frame.1]
  | .checking frame _ => given=[frame.1]
  | .copying frame _ => given=[frame.1]
  | .describing frame _ => given=[frame.1]
  | .advancing frame => given=[frame.1]
  | .queueing frame => given=[frame.1]
  | .polling _ => True

section Admitted

variable {s : Tx} {given : List Frame}

/-- A step of the driver puts the frame of its call into the ring, once there is room for it. -/
theorem driver_placing (h : s.call.Carries given) :
    queuedFrames (e1000SendPacket s).2++(e1000SendPacket s).1.call.placing=
      s.call.placing++(if findsRoom s .driver then given else []) ∧
    (e1000SendPacket s).1.call.Carries given := by
  cases hc : s.call with
  | idle => simp [e1000SendPacket,findsRoom,hc,queuedFrames,TxCall.placing,TxCall.Carries]
  | reading frame =>
    rw [hc] at h
    simp only [e1000SendPacket,findsRoom,hc]
    exact ⟨rfl,h⟩
  | checking frame txHead =>
    rw [hc] at h
    have hg : given=[frame.1] := h
    by_cases hfull : (s.txTail+1)%txDescCount=txHead
    · simp [e1000SendPacket,findsRoom,hc,hfull,queuedFrames,TxCall.placing,TxCall.Carries]
    · simp [e1000SendPacket,findsRoom,hc,hfull,hg,queuedFrames,TxCall.placing,TxCall.Carries]
  | copying frame i =>
    rw [hc] at h
    have hno : findsRoom s .driver=false := by simp only [findsRoom,hc]
    rw [hno]
    simp only [e1000SendPacket,hc]
    by_cases hi : i < frame.1.length
    · rw [dif_pos hi]
      exact ⟨rfl,h⟩
    · rw [dif_neg hi]
      exact ⟨rfl,h⟩
  | describing frame field =>
    rw [hc] at h
    simp only [e1000SendPacket,findsRoom,hc]
    cases field.next <;> exact ⟨rfl,h⟩
  | advancing frame =>
    rw [hc] at h
    simp only [e1000SendPacket,findsRoom,hc]
    exact ⟨rfl,h⟩
  | queueing frame => simp [e1000SendPacket,findsRoom,hc,queuedFrames,TxCall.placing,TxCall.Carries]
  | polling left =>
    have hno : findsRoom s .driver=false := by simp only [findsRoom,hc]
    rw [hno,if_neg Bool.false_ne_true]
    simp only [e1000SendPacket,hc]
    split_ifs <;> exact ⟨rfl,trivial⟩

theorem txStep_placing (h : s.call.Carries given) (a : TxAction) :
    queuedFrames (txStep s a).2++(txStep s a).1.call.placing=
      s.call.placing++(if findsRoom s a then given else []) ∧
    (txStep s a).1.call.Carries (callFrame s given a) := by
  cases a with
  | call frame =>
    cases hc : s.call with
    | idle =>
      simp only [txStep,callFrame,hc]
      exact ⟨rfl,rfl⟩
    | _ =>
      rw [hc] at h
      simp only [txStep,callFrame,hc]
      refine ⟨?_,h⟩
      have hno : findsRoom s (.call frame)=false := rfl
      rw [hno,if_neg Bool.false_ne_true,List.append_nil]
      rfl
  | driver => exact driver_placing h
  | transmit =>
    by_cases he : s.tdh=s.tdt
    · simp [txStep,nicTransmit,he,findsRoom,callFrame,queuedFrames,h]
    · simp [txStep,nicTransmit,he,findsRoom,callFrame,queuedFrames,h]
  | done i => simp [txStep,nicDone,findsRoom,callFrame,queuedFrames,h]

/-- Into the ring go the frames of the calls that do not find it full, and no others. -/
theorem admitted_run (as : List TxAction) (h : s.call.Carries given) :
    queuedFrames (outputs txStep s as)++(runState txStep s as).call.placing=
      s.call.placing++admittedFrames s given as := by
  induction as generalizing s given with
  | nil => simp [queuedFrames,admittedFrames]
  | cons a as ih =>
    obtain ⟨hplacing,hcarries⟩ := txStep_placing h a
    rw [outputs_cons,runState_cons,queuedFrames_append,List.append_assoc,ih hcarries,
      ← List.append_assoc,hplacing,List.append_assoc]
    rfl

end Admitted

/-- The driver does not write to a cell between TDH and TDT. -/
def WritesApart (s : Tx) (a : TxAction) : Prop :=
  ∀ i,.wrote i∈(txStep s a).2 → ¬Occupied txDescCount s.tdh s.tdt i

theorem TxInv.writesApart {s : Tx} {queue : List Frame} (h : TxInv s queue) (a : TxAction) :
    WritesApart s a := by
  intro i hi
  cases a with
  | driver => exact h.apart hi
  | call frame =>
    simp only [txStep] at hi
    split at hi <;> simp at hi
  | transmit =>
    simp only [txStep,nicTransmit] at hi
    split_ifs at hi <;> simp at hi
  | done k => simp [txStep,nicDone] at hi

/-- In every interleaving no write of the driver meets the range from TDH up to TDT, and the
frames on the wire are, in order and unmodified, the first of the frames of the calls that did not
find the ring full; the others stand in the ring, and the last one may be on its way there. -/
theorem sent_prefix (buffers : Nat → Buffer txBufferSize) (as : List TxAction) :
    let s := runState txStep (txInit buffers) as
    let es := outputs txStep (txInit buffers) as
    Along txStep WritesApart (txInit buffers) as ∧ sentFrames es <+: queuedFrames es ∧
      sentFrames es <+: admittedFrames (txInit buffers) [] as ∧
      ∃ queue,Holds txDescCount s.frame s.tdh s.tdt queue ∧
        queuedFrames es=sentFrames es++queue ∧
        admittedFrames (txInit buffers) [] as=sentFrames es++queue++s.call.placing := by
  obtain ⟨queue,hinv,hq⟩ := run_txFifo buffers as
  have hadmitted := @admitted_run (txInit buffers) [] as trivial
  have hsplit : admittedFrames (txInit buffers) [] as=
      sentFrames (outputs txStep (txInit buffers) as)++queue++
        (runState txStep (txInit buffers) as).call.placing := by
    rw [← hq]
    exact hadmitted.symm
  refine ⟨?_,?_,?_,queue,hinv.holds,hq,hsplit⟩
  · apply along_of_invariant txStep (fun s => ∃ es,TxFifo s es)
    · intro s a ⟨es,h⟩
      exact ⟨_,h.step a⟩
    · intro s a ⟨es,queue,h,_⟩
      exact h.writesApart a
    · exact ⟨[],[],txInit_inv buffers,rfl⟩
  · rw [hq]
    apply List.prefix_append
  · rw [hsplit,List.append_assoc]
    apply List.prefix_append

end Cllm.Network
