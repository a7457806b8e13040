import Mathlib.Data.Fintype.Basic
import Cllm.Network.Ip

namespace Cllm.Tcp

open Libc Network

abbrev tcpMaxSockets : Nat := 4
abbrev tcpRxBufSize : Nat := 2048
abbrev httpPort : UInt16 := 8080

inductive TcpState where
  | closed
  | listen
  | synSent
  | synReceived
  | established
  | finWait1
  | finWait2
  | closeWait
  | closing
  | lastAck
  | timeWait
  deriving DecidableEq

/-- tcp_socket_t without tx_buf, which nothing writes or reads. -/
structure TcpSocket where
  state : TcpState
  localIp : UInt32
  localPort : UInt16
  remoteIp : UInt32
  remotePort : UInt16
  seq : UInt32
  ack : UInt32
  rxBuf : Buffer tcpRxBufSize
  rxLen : Nat
  txLen : Nat
  lastActivity : UInt32

/-- rx_buf[0..rx_len) -/
def TcpSocket.received (s : TcpSocket) : List UInt8 := s.rxBuf.bytes.take s.rxLen

def TcpSocket.zero : TcpSocket :=
  ⟨.closed,0,0,0,0,0,0,Buffer.zero _,0,0,0⟩

abbrev Slot := Fin tcpMaxSockets
abbrev Sockets := Slot → TcpSocket

/-- The static state of tcp.c: the socket table and tcp_now. -/
structure TcpStack where
  sockets : Sockets
  now : UInt32

/-- The slot socket_alloc returns and the table with that slot zeroed. -/
def socketAlloc (sockets : Sockets) : Option (Slot × Sockets) :=
  ((List.finRange tcpMaxSockets).find? (fun i => (sockets i).state=.closed)).map
    fun i => (i,Function.update sockets i .zero)

/-- The tests of socket_lookup's loop body, none of which may `continue`. -/
def TcpSocket.matches (s : TcpSocket) (remoteIp : UInt32) (remotePort localPort : UInt16)
    (allowAnyRemoteIp : Bool) : Bool :=
  s.state≠.closed && s.localPort=localPort && s.remotePort=remotePort &&
    !(!allowAnyRemoteIp && s.remoteIp≠0 && s.remoteIp≠remoteIp)

def socketLookup (sockets : Sockets) (remoteIp : UInt32) (remotePort localPort : UInt16)
    (allowAnyRemoteIp : Bool) : Option Slot :=
  (List.finRange tcpMaxSockets).find? fun i =>
    (sockets i).matches remoteIp remotePort localPort allowAnyRemoteIp

def listenerLookup (sockets : Sockets) (localPort : UInt16) : Option Slot :=
  (List.finRange tcpMaxSockets).find? fun i =>
    (sockets i).state=.listen && (sockets i).localPort=localPort

def socketClose (s : TcpSocket) : TcpSocket :=
  {s with state := .closed,rxLen := 0,txLen := 0}

def tcpInit : TcpStack :=
  let sockets : Sockets := fun _ => .zero
  match socketAlloc sockets with
  | some (i,sockets) =>
    ⟨Function.update sockets i
      {sockets i with state := .listen,localPort := httpPort,localIp := netIpAddr},0⟩
  | none => ⟨sockets,0⟩

/-- The fields tcp_receive reads from a packet, and its payload. -/
structure Segment where
  srcPort : UInt16
  dstPort : UInt16
  seq : UInt32
  ack : UInt32
  flags : UInt8
  payload : List UInt8
  deriving DecidableEq

def Segment.has (seg : Segment) (flag : UInt8) : Bool := seg.flags&&&flag≠0

abbrev Segment.fin (seg : Segment) : Bool := seg.has tcpFlagFin
abbrev Segment.syn (seg : Segment) : Bool := seg.has tcpFlagSyn
abbrev Segment.rst (seg : Segment) : Bool := seg.has tcpFlagRst
abbrev Segment.acks (seg : Segment) : Bool := seg.has tcpFlagAck

/-- The header extraction of tcp_receive; `none` for packets shorter than a header. -/
def tcpSegment (packet : List UInt8) : Option Segment :=
  if packet.length<tcpHdrLen then none
  else some
    {srcPort := be16 (load16 packet 0)
     dstPort := be16 (load16 packet 2)
     seq := be32 (load32 packet 4)
     ack := be32 (load32 packet 8)
     flags := load8 packet 13
     payload := packet.drop ((load8 packet 12>>>4).toNat*4)}

/-- A packet that carries the segment under a header without options. -/
def Segment.packet (seg : Segment) : List UInt8 :=
  tcpHeader ⟨seg.srcPort,seg.dstPort,netIpAddr,seg.seq,seg.ack,seg.flags,seg.payload⟩ 0++
    seg.payload

/-- What net_send_tcp puts into a header, the extraction gets out. -/
theorem tcpSegment_header (o : OutSegment) (c : UInt16) :
    tcpSegment (tcpHeader o c++o.payload)=
      some ⟨o.srcPort,o.dstPort,o.seq,o.ack,o.flags,o.payload⟩ := by
  let packet := tcpHeader o c++o.payload
  have hl : ¬packet.length<tcpHdrLen := by simp [packet]
  have hs : load16 packet 0=be16 o.srcPort := join16 _
  have hd : load16 packet 2=be16 o.dstPort := join16 _
  have hq : load32 packet 4=be32 o.seq := join32 _
  have ha : load32 packet 8=be32 o.ack := join32 _
  have ho : (load8 packet 12>>>4).toNat*4=tcpHdrLen := by
    have h : load8 packet 12=0x50 := rfl
    rw [h]; decide
  change tcpSegment packet=_
  rw [tcpSegment,if_neg hl,hs,hd,hq,ha,ho,be16_be16,be16_be16,be32_be32,be32_be32]
  have hp : packet.drop tcpHdrLen=o.payload := List.drop_left' (tcpHeader_length _ _)
  rw [hp]
  rfl

theorem tcpSegment_packet (seg : Segment) : tcpSegment seg.packet=some seg :=
  tcpSegment_header _ 0

theorem matches_iff {s : TcpSocket} {ip : UInt32} {rp lp : UInt16} :
    s.matches ip rp lp false=true ↔
      s.state≠.closed ∧ s.localPort=lp ∧ s.remotePort=rp ∧ (s.remoteIp=0 ∨ s.remoteIp=ip) := by
  simp only [TcpSocket.matches,Bool.and_eq_true,decide_eq_true_eq,Bool.not_false,Bool.true_and,
    Bool.not_eq_true',Bool.and_eq_false_iff,decide_eq_false_iff_not,not_not,and_assoc]

theorem matches_notClosed {s : TcpSocket} {ip : UInt32} {rp lp : UInt16}
    (h : s.matches ip rp lp false=true) : s.state≠.closed := (matches_iff.mp h).1

theorem socketLookup_some {sockets : Sockets} {ip : UInt32} {rp lp : UInt16} {any : Bool}
    {i : Slot} (h : socketLookup sockets ip rp lp any=some i) :
    (sockets i).matches ip rp lp any=true := by
  simpa using List.find?_some h

theorem socketLookup_none {sockets : Sockets} {ip : UInt32} {rp lp : UInt16} {any : Bool}
    (h : socketLookup sockets ip rp lp any=none) (i : Slot) :
    (sockets i).matches ip rp lp any=false := by
  simpa using List.find?_eq_none.mp h i (List.mem_finRange i)

theorem socketAlloc_some {sockets table : Sockets} {i : Slot}
    (h : socketAlloc sockets=some (i,table)) :
    (sockets i).state=.closed ∧ table=Function.update sockets i .zero := by
  obtain ⟨j,hj,he⟩ := Option.map_eq_some_iff.mp h
  obtain ⟨rfl,rfl⟩ : j=i ∧ Function.update sockets j .zero=table := by simpa using he
  exact ⟨by simpa using List.find?_some hj,rfl⟩

/-- Slot 0 listens on HTTP_PORT and the others are closed. -/
theorem tcpInit_sockets (i : Slot) : (tcpInit.sockets i)=
    if i=0 then {TcpSocket.zero with state := .listen,localPort := httpPort,localIp := netIpAddr}
    else .zero := by
  have ha : socketAlloc (fun _ => .zero)=some (0,Function.update (fun _ => .zero) 0 .zero) := rfl
  simp only [tcpInit,ha]
  by_cases hi : i=0
  · subst hi; simp
  · simp [hi]

end Cllm.Tcp
