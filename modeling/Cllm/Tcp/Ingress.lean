import Cllm.Tcp.Answer
import Cllm.Tcp.Handshake
import Cllm.Tcp.Standing

namespace Cllm.Tcp

open Libc Network Http

abbrev ipProtoIcmp : UInt8 := 1

/-- What network_loop's dispatch makes of a frame. -/
inductive EthInput where
  | ignored
  | arp (payload : List UInt8)
  | ip (packet : List UInt8)
  deriving DecidableEq

def ethInput (frame : Frame) : EthInput :=
  if frame.length≥ethHdrLen then
    let et := be16 (load16 frame 12)
    if et=ethertypeArp then .arp (frame.drop ethHdrLen)
    else if et=ethertypeIp then .ip (frame.drop ethHdrLen)
    else .ignored
  else .ignored

/-- ihl -/
def ipHeaderLen (packet : List UInt8) : Nat := (load8 packet 0&&&(0x0F : UInt8)).toNat*4

/-- total_len, which ip_receive does not look at -/
def ipTotalLen (packet : List UInt8) : Nat := (be16 (load16 packet 2)).toNat

/-- hdr_len of the TCP segment in the packet -/
def tcpDataOffset (packet : List UInt8) : Nat :=
  (load8 (packet.drop (ipHeaderLen packet)) 12>>>4).toNat*4

/-- The tests of ip_receive and what it takes out of a packet that passes them. -/
inductive IpInput where
  | ignored
  | icmp (src : UInt32) (payload : List UInt8)
  | tcp (src : UInt32) (payload : List UInt8)
  | other (src : UInt32)
  deriving DecidableEq

def ipInput (packet : List UInt8) : IpInput :=
  if packet.length < ipHdrLen then .ignored
  else if load8 packet 0&&&(0xF0 : UInt8)≠0x40 then .ignored
  else if ipHeaderLen packet < ipHdrLen ∨ packet.length < ipHeaderLen packet then .ignored
  else if be32 (load32 packet 16)≠netIpAddr then .ignored
  else
    let proto := load8 packet 9
    let payload := packet.drop (ipHeaderLen packet)
    let src := be32 (load32 packet 12)
    if proto=ipProtoIcmp then .icmp src payload
    else if proto=ipProtoTcp then .tcp src payload
    else .other src

/-- The echo reply ip_receive builds. -/
def icmpReply (dstIp : UInt32) (id : UInt16) (payload : List UInt8) : List UInt8 :=
  let header := ipHeader ipProtoIcmp dstIp id payload.length
  let message (csum : UInt16) := [0,load8 payload 1]++store16 csum++payload.drop 4
  header (ipChecksum (header 0))++message (ipChecksum (message 0))

/-- The static state behind network_loop: the stack, the transmit path, the echo replies' id and
tcp_current_remote_ip. -/
structure Host where
  tcp : TcpStack
  net : Net
  icmpId : UInt16
  tcpCurrentRemoteIp : UInt32

/-- The segments a call of the stack gives to net_send_tcp, in order. -/
def emitted (es : List Event) : List OutSegment := es.filterMap fun e => e.effect.transmitted

/-- What a frame leads to: the events of the stack and the frames for the driver. -/
structure Outcome where
  events : List Event
  frames : List Frame

def ipReceive (routeRequest : HttpRequest → HttpResponse) (packet : List UInt8) (h : Host) :
    Host × Outcome :=
  match ipInput packet with
  | .ignored => (h,⟨[],[]⟩)
  | .icmp src payload =>
    let h := {h with tcpCurrentRemoteIp := src}
    if payload.length≥8 ∧ load8 payload 0=8 then
      let reply := icmpReply src h.icmpId payload
      let h := {h with icmpId := h.icmpId+1}
      match arpResolve h.net.arpTable src with
      | (some mac,frames) => (h,⟨[],frames++(netSendEth ethertypeIp mac reply).toList⟩)
      | (none,frames) => (h,⟨[],frames⟩)
    else (h,⟨[],[]⟩)
  | .tcp src payload =>
    let r := tcpReceive routeRequest src payload h.tcp
    let sent := sendAll h.net (emitted r.2)
    ({h with tcpCurrentRemoteIp := src,tcp := r.1,net := sent.1},⟨r.2,sent.2⟩)
  | .other src => ({h with tcpCurrentRemoteIp := src},⟨[],[]⟩)

/-- The body of network_loop for a received frame. -/
def networkReceive (routeRequest : HttpRequest → HttpResponse) (frame : Frame) (h : Host) :
    Host × Outcome :=
  match ethInput frame with
  | .ignored => (h,⟨[],[]⟩)
  | .arp payload =>
    let r := arpReceive payload h.net.arpTable
    ({h with net := {h.net with arpTable := r.1}},⟨[],r.2⟩)
  | .ip packet => ipReceive routeRequest packet h

/-- The segment a frame brings to tcp_receive, and the address it comes from. -/
def frameSegment (frame : Frame) : Option (UInt32 × Segment) :=
  match ethInput frame with
  | .ip packet =>
    match ipInput packet with
    | .tcp src payload => (tcpSegment payload).map fun seg => (src,seg)
    | _ => none
  | _ => none

/-- To the stack a frame is its segment. -/
theorem networkReceive_tcp (rr : HttpRequest → HttpResponse) (frame : Frame) (h : Host) :
    ((networkReceive rr frame h).1.tcp,(networkReceive rr frame h).2.events)=
      match frameSegment frame with
      | none => (h.tcp,[])
      | some (src,seg) => tcpInput rr src seg h.tcp := by
  rw [networkReceive,frameSegment]
  cases ethInput frame with
  | ignored => rfl
  | arp payload => rfl
  | ip packet =>
    simp only [ipReceive]
    cases ipInput packet with
    | ignored => rfl
    | other src => rfl
    | tcp src payload =>
      simp only [tcpReceive]
      cases tcpSegment payload with
      | none => rfl
      | some seg => rfl
    | icmp src payload =>
      simp only
      split_ifs
      · split <;> rfl
      · rfl

section Cut

variable {m : List UInt8} {i n : Nat}

theorem load8_take (h : i<n) : load8 (m.take n) i=load8 m i := by
  rw [load8,load8,List.getD,List.getD,List.getElem?_take_of_lt h]

theorem load16_take (h : i+1<n) : load16 (m.take n) i=load16 m i := by
  rw [load16,load16,load8_take (by omega),load8_take h]

theorem load32_take (h : i+3<n) : load32 (m.take n) i=load32 m i := by
  rw [load32,load32,load8_take (by omega),load8_take (by omega),load8_take (by omega),
    load8_take h]

/-- What is left of a cut packet. -/
def IpInput.cut (n : Nat) : IpInput → IpInput
  | .ignored => .ignored
  | .icmp src payload => .icmp src (payload.take n)
  | .tcp src payload => .tcp src (payload.take n)
  | .other src => .other src

/-- The tests of ip_receive are about the header only. -/
theorem ipInput_take {packet : List UInt8} (hn : ipHeaderLen packet≤n) (hl : n≤packet.length) :
    ipInput (packet.take n)=(ipInput packet).cut (n-ipHeaderLen packet) := by
  have hlen : (packet.take n).length=n := List.length_take_of_le hl
  have short {p : List UInt8} (hp : ipHeaderLen p < ipHdrLen) : ipInput p=.ignored := by
    rw [ipInput]
    split_ifs <;> simp_all
  have header : 0<n → ipHeaderLen (packet.take n)=ipHeaderLen packet := by
    intro h
    rw [ipHeaderLen,ipHeaderLen,load8_take h]
  by_cases h20 : ipHeaderLen packet < ipHdrLen
  · have hcut : ipInput (packet.take n)=.ignored := by
      rcases Nat.eq_zero_or_pos n with hz|hz
      · rw [hz]
        rfl
      · exact short (header hz ▸ h20)
    rw [hcut,short h20,IpInput.cut]
  · have hsize : ipHdrLen=20 := rfl
    have hpos : 0<n := by omega
    have hdrop : (packet.take n).drop (ipHeaderLen packet)=
        (packet.drop (ipHeaderLen packet)).take (n-ipHeaderLen packet) := List.drop_take
    have hshort : ¬n < ipHdrLen := by omega
    have hshort' : ¬packet.length < ipHdrLen := by omega
    have hihl : ¬(ipHeaderLen packet < ipHdrLen ∨ n < ipHeaderLen packet) := by omega
    have hihl' : ¬(ipHeaderLen packet < ipHdrLen ∨ packet.length < ipHeaderLen packet) := by omega
    rw [ipInput,ipInput,hlen,header hpos,load8_take hpos,load8_take (by omega : 9<n),
      load32_take (by omega : 12+3<n),load32_take (by omega : 16+3<n),hdrop]
    simp only [if_neg hshort,if_neg hshort',if_neg hihl,if_neg hihl']
    split_ifs <;> rfl

end Cut

/-- The length fields of a TCP packet fit each other and the bytes that arrived. -/
structure LengthsAgree (packet : List UInt8) : Prop where
  header : ipHeaderLen packet ≤ ipTotalLen packet
  arrived : ipTotalLen packet≤packet.length
  words : tcpHdrLen≤tcpDataOffset packet
  segment : ipHeaderLen packet+tcpDataOffset packet ≤ ipTotalLen packet

instance (packet : List UInt8) : Decidable (LengthsAgree packet) :=
  decidable_of_iff (ipHeaderLen packet ≤ ipTotalLen packet ∧ ipTotalLen packet≤packet.length ∧
      tcpHdrLen≤tcpDataOffset packet ∧
      ipHeaderLen packet+tcpDataOffset packet ≤ ipTotalLen packet)
    ⟨fun h => ⟨h.1,h.2.1,h.2.2.1,h.2.2.2⟩,fun h => ⟨h.header,h.arrived,h.words,h.segment⟩⟩

/-- The IP packet in a frame. -/
def framePacket (frame : Frame) : List UInt8 := frame.drop ethHdrLen

/-- The frame without what stands behind the IP total length. -/
def unpadded (frame : Frame) : Frame := frame.take (ethHdrLen+ipTotalLen (framePacket frame))

/-- The stack of the host is in a state that calls from tcp_init lead to. -/
def Host.Reachable (h : Host) : Prop := ∃ as,h.tcp=run tcpInit as

/-- The stack goes by the lengths in the frame: the payload ends where the packet does, a frame
whose lengths do not fit changes no socket, and padding is as if it were not there. -/
structure GoesByLengths (frame : Frame) : Prop where
  payload : ∀ src seg,frameSegment frame=some (src,seg) → LengthsAgree (framePacket frame) →
    seg.payload=((framePacket frame).take (ipTotalLen (framePacket frame))).drop
      (ipHeaderLen (framePacket frame)+tcpDataOffset (framePacket frame))
  malformed : ¬LengthsAgree (framePacket frame) → ∀ rr (h : Host),h.Reachable →
    (networkReceive rr frame h).1.tcp.sockets=h.tcp.sockets
  padding : ipHeaderLen (framePacket frame) ≤ ipTotalLen (framePacket frame) →
    ipTotalLen (framePacket frame)≤(framePacket frame).length → ∀ rr (h : Host),h.Reachable →
    (networkReceive rr frame h).1.tcp.sockets=(networkReceive rr (unpadded frame) h).1.tcp.sockets ∧
      emitted (networkReceive rr frame h).2.events=
        emitted (networkReceive rr (unpadded frame) h).2.events

/-- The frames with which that works out: those whose IP total length is all that arrived, and
malformed ones that no connection or listener can take, unless padding alone makes their segment
long enough for the RST that answers it. -/
def LengthsImmaterial (frame : Frame) : Prop :=
  ∀ src seg,frameSegment frame=some (src,seg) →
    LengthsAgree (framePacket frame) ∧ ipTotalLen (framePacket frame)=(framePacket frame).length ∨
    ¬LengthsAgree (framePacket frame) ∧ seg.dstPort≠httpPort ∧
      (seg.rst=true ∨
        ¬(ipHeaderLen (framePacket frame) ≤ ipTotalLen (framePacket frame) ∧
          ipTotalLen (framePacket frame) < ipHeaderLen (framePacket frame)+tcpHdrLen))

theorem ethInput_packet {frame : Frame} {packet : List UInt8} (h : ethInput frame=.ip packet) :
    packet=framePacket frame := by
  simp only [ethInput] at h
  split_ifs at h
  exact (EthInput.ip.inj h).symm

theorem frameSegment_some {frame : Frame} {src : UInt32} {seg : Segment}
    (h : frameSegment frame=some (src,seg)) :
    ethInput frame=.ip (framePacket frame) ∧
      ipInput (framePacket frame)=
        .tcp src ((framePacket frame).drop (ipHeaderLen (framePacket frame))) ∧
      tcpSegment ((framePacket frame).drop (ipHeaderLen (framePacket frame)))=some seg := by
  have hip {packet payload : List UInt8} {src : UInt32} (he : ipInput packet=.tcp src payload) :
      payload=packet.drop (ipHeaderLen packet) := by
    rw [ipInput] at he
    split_ifs at he
    simp only at he
    split_ifs at he
    exact (IpInput.tcp.inj he).2.symm
  rw [frameSegment] at h
  split at h
  · next packet hpacket =>
    obtain rfl := ethInput_packet hpacket
    split at h
    · next src' payload hpayload =>
      obtain rfl := hip hpayload
      obtain ⟨seg',hseg,he⟩ := Option.map_eq_some_iff.mp h
      obtain ⟨rfl,rfl⟩ := Prod.mk.inj he
      exact ⟨hpacket,hpayload,hseg⟩
    · cases h
  · cases h

theorem ethInput_unpadded (frame : Frame) :
    ethInput (unpadded frame)=match ethInput frame with
      | .ignored => .ignored
      | .arp payload => .arp (payload.take (ipTotalLen (framePacket frame)))
      | .ip packet => .ip (packet.take (ipTotalLen (framePacket frame))) := by
  have hsize : ethHdrLen=14 := rfl
  have htype : load16 (unpadded frame) 12=load16 frame 12 := load16_take (by omega)
  have hdrop : (unpadded frame).drop ethHdrLen=
      (frame.drop ethHdrLen).take (ipTotalLen (framePacket frame)) := by
    rw [unpadded,List.drop_take,Nat.add_sub_cancel_left]
  have hlen : (unpadded frame).length≥ethHdrLen ↔ frame.length≥ethHdrLen := by
    rw [unpadded,List.length_take]
    omega
  simp only [ethInput,htype,hdrop,hlen]
  split_ifs <;> rfl

/-- Without its padding a frame brings the same header and what the total length leaves. -/
theorem frameSegment_unpadded {frame : Frame}
    (hh : ipHeaderLen (framePacket frame) ≤ ipTotalLen (framePacket frame))
    (ht : ipTotalLen (framePacket frame)≤(framePacket frame).length) :
    frameSegment (unpadded frame)=match ethInput frame with
      | .ip _ => match ipInput (framePacket frame) with
        | .tcp src payload =>
          (tcpSegment (payload.take
            (ipTotalLen (framePacket frame)-ipHeaderLen (framePacket frame)))).map
              fun seg => (src,seg)
        | _ => none
      | _ => none := by
  have hcut := ipInput_take hh ht
  rw [frameSegment,ethInput_unpadded]
  cases heth : ethInput frame with
  | ignored => rfl
  | arp payload => rfl
  | ip packet =>
    simp only [ethInput_packet heth,hcut]
    cases ipInput (framePacket frame) <;> rfl

theorem tcpSegment_take {packet : List UInt8} {seg : Segment} {n : Nat}
    (h : tcpSegment packet=some seg) (hn : tcpHdrLen≤n) (hl : n≤packet.length) :
    ∃ payload,tcpSegment (packet.take n)=some {seg with payload := payload} := by
  have hsize : tcpHdrLen=20 := rfl
  have hlen : (packet.take n).length=n := List.length_take_of_le hl
  rw [tcpSegment] at h
  split_ifs at h
  obtain rfl := Option.some.inj h
  refine ⟨(packet.take n).drop ((load8 packet 12>>>4).toNat*4),?_⟩
  rw [tcpSegment,hlen,if_neg (by omega),load16_take (by omega),load16_take (by omega),
    load32_take (by omega),load32_take (by omega),load8_take (by omega),load8_take (by omega)]

theorem tcpSegment_short {packet : List UInt8} (h : packet.length<tcpHdrLen) :
    tcpSegment packet=none := by
  rw [tcpSegment,if_pos h]

/-- No slot takes a segment to another port than HTTP_PORT. -/
theorem Standing.nowhere {sockets : Sockets} (h : Standing sockets) (ip : UInt32) {seg : Segment}
    (hp : seg.dstPort≠httpPort) : target sockets ip seg=.nowhere := by
  cases ht : target sockets ip seg with
  | nowhere => rfl
  | found i =>
    obtain ⟨hopen,hport,-⟩ := matches_iff.mp (target_found ht)
    exact absurd (hport.symm.trans (h.ports i hopen)) hp
  | allocated i =>
    obtain ⟨j,hj,hport⟩ := target_listener ht
    have hopen : (sockets j).state≠.closed := by
      rw [hj]
      decide
    exact absurd (hport.symm.trans (h.ports j hopen)) hp

theorem Host.Reachable.standing {h : Host} (hr : h.Reachable) : Standing h.tcp.sockets := by
  obtain ⟨as,has⟩ := hr
  rw [has]
  exact Machine.invariant_run tcpStep (fun t => Standing t.sockets) (fun _ a h => h.step a)
    standing_init as

theorem tcpInput_nowhere {t : TcpStack} {ip : UInt32} {seg : Segment}
    (h : target t.sockets ip seg=.nowhere) (rr : HttpRequest → HttpResponse) :
    tcpInput rr ip seg t=(t,if seg.rst then [] else [⟨none,.transmit (rstSegment ip seg)⟩]) := by
  rw [tcpInput,h]

theorem Transition.lastActivity {rr : HttpRequest → HttpResponse} {s s' : TcpSocket}
    {seg : Segment} {es : List Effect} (h : Transition rr s seg s' es) :
    s'.lastActivity=s.lastActivity := by
  have stored : (s.stored seg).1.lastActivity=s.lastActivity := by
    rw [TcpSocket.stored,storePayload]
    split_ifs <;> rfl
  cases h with
  | pending => exact stored
  | answered n hs hd hr =>
    rw [← stored,answer]
    simp only [sendResponse,tcpSendData]
    split
    · split_ifs <;> rfl
    · rfl
  | _ => rfl

/-- A segment that a slot takes leaves its time in it. -/
theorem tcpInput_disturbs {t : TcpStack} {ip : UInt32} {seg : Segment} {i : Slot}
    (h : target t.sockets ip seg=.found i) (ht : (t.sockets i).lastActivity≠t.now)
    (rr : HttpRequest → HttpResponse) : (tcpInput rr ip seg t).1.sockets≠t.sockets := by
  intro he
  have hi := congrFun he i
  rw [tcpInput,h] at hi
  simp only [Function.update_self] at hi
  have hla := (socketReceive_transition rr ip t.now (t.sockets i) seg).lastActivity
  rw [hi] at hla
  exact ht hla

/-- A SYN to HTTP_PORT. -/
def synPacket (srcPort : UInt16) : Segment := ⟨srcPort,httpPort,0,0,tcpFlagSyn,[]⟩

/-- Calls after which some slot takes segments from the address, and has not been active in the
current period. -/
def opening (ip : UInt32) (srcPort : UInt16) : List Action :=
  if srcPort=0 then [.periodic]
  else [.receive (fun _ => badRequest) ip (synPacket srcPort).packet,.periodic]

/-- The socket of that SYN in a slot. -/
def opened (i : Slot) (ip : UInt32) (srcPort : UInt16) : TcpSocket :=
  {synSocket i 0 ip (synPacket srcPort) with ack := 1}

theorem opening_target (ip : UInt32) {srcPort : UInt16} (h : srcPort≠0) :
    target tcpInit.sockets ip (synPacket srcPort)=.allocated 1 := by
  have hnone : socketLookup tcpInit.sockets ip srcPort httpPort false=none := by
    apply List.find?_eq_none.mpr
    intro i _
    rw [tcpInit_sockets]
    split_ifs <;> simp [TcpSocket.matches,TcpSocket.zero,Ne.symm h]
  have hsyn : (synPacket srcPort).syn=true := 
    decide_eq_true (by decide : tcpFlagSyn&&&tcpFlagSyn≠0)
  have hlistener : listenerLookup tcpInit.sockets (synPacket srcPort).dstPort=some 0 := by
    simp only [synPacket]
    decide
  have halloc : (socketAlloc tcpInit.sockets).map Prod.fst=some 1 := by decide
  obtain ⟨⟨i,table⟩,hi,rfl⟩ := Option.map_eq_some_iff.mp halloc
  rw [target]
  simp only [synPacket] at hnone hsyn hlistener ⊢
  simp only [hnone,hsyn,hlistener,hi,if_true]

theorem opening_socket (ip : UInt32) (srcPort : UInt16) (rr : HttpRequest → HttpResponse) :
    (socketReceive rr ip 0 (synSocket 1 0 ip (synPacket srcPort)) (synPacket srcPort)).1=
      opened 1 ip srcPort := by
  have hacks : (synPacket srcPort).acks=false :=
    decide_eq_false (by decide : ¬tcpFlagSyn&&&tcpFlagAck≠0)
  have htouch : (synSocket 1 0 ip (synPacket srcPort)).touch ip 0=
      synSocket 1 0 ip (synPacket srcPort) := by
    simp [TcpSocket.touch,synSocket,TcpSocket.zero]
  have hst := socketReceive_transition rr ip 0 (synSocket 1 0 ip (synPacket srcPort))
    (synPacket srcPort)
  rw [htouch] at hst
  rcases hst.synReceived rfl with ⟨-,hs,-⟩|⟨ha,-,-⟩
  · rw [hs]
    rfl
  · exact absurd (hacks.symm.trans ha) (by decide)

theorem opening_run (ip : UInt32) {srcPort : UInt16} (h : srcPort≠0) :
    run tcpInit (opening ip srcPort)=
      ⟨Function.update tcpInit.sockets 1 (opened 1 ip srcPort),1⟩ := by
  have hquiet (i : Slot) : (socketPeriodic 1 (Function.update tcpInit.sockets 1
      (opened 1 ip srcPort) i)).1=Function.update tcpInit.sockets 1 (opened 1 ip srcPort) i := by
    by_cases hi : i=1
    · subst hi
      rw [Function.update_self,socketPeriodic,if_neg]
      rintro ⟨-,hlate⟩
      exact absurd hlate (by show ¬(1 : UInt32)-0>1; decide)
    · rw [Function.update_of_ne hi,socketPeriodic,if_neg]
      rintro ⟨hs,-⟩
      rw [tcpInit_sockets] at hs
      split_ifs at hs
      all_goals cases hs
  have hstep : tcpStep tcpInit (.receive (fun _ => badRequest) ip (synPacket srcPort).packet)=
      tcpInput (fun _ => badRequest) ip (synPacket srcPort) tcpInit := by
    rw [tcpStep,tcpReceive,tcpSegment_packet]
  have hnow : tcpInit.now=0 := rfl
  rw [opening,if_neg h,run,Machine.runState_cons,Machine.runState_cons,Machine.runState_nil,hstep,
    tcpInput,opening_target ip h]
  simp only [tcpStep,tcpPeriodic,hnow,opening_socket]
  exact congrArg (fun sockets => TcpStack.mk sockets 1) (funext hquiet)

theorem opening_takes (ip : UInt32) (srcPort : UInt16) :
    ∃ i,socketLookup (run tcpInit (opening ip srcPort)).sockets ip srcPort httpPort false=some i ∧
      ((run tcpInit (opening ip srcPort)).sockets i).lastActivity≠
        (run tcpInit (opening ip srcPort)).now := by
  by_cases h : srcPort=0
  · -- port 0 is what the listener has as its remote port
    subst h
    exact ⟨0,rfl,by show (0 : UInt32)≠1; decide⟩
  · rw [opening_run ip h]
    have hmatches : (opened 1 ip srcPort).matches ip srcPort httpPort false=true :=
      matches_iff.mpr ⟨by show TcpState.synReceived≠.closed; decide,rfl,rfl,.inr rfl⟩
    have hidle (i : Slot) :
        (Function.update tcpInit.sockets 1 (opened 1 ip srcPort) i).lastActivity=0 := by
      by_cases hi : i=1
      · rw [hi,Function.update_self]
        rfl
      · rw [Function.update_of_ne hi,tcpInit_sockets]
        split_ifs <;> rfl
    cases hl : socketLookup (Function.update tcpInit.sockets 1 (opened 1 ip srcPort)) ip srcPort
        httpPort false with
    | none =>
      have hno := socketLookup_none hl 1
      rw [Function.update_self,hmatches] at hno
      cases hno
    | some i => exact ⟨i,rfl,by rw [hidle i]; show (0 : UInt32)≠1; decide⟩

section Frames

variable {frame : Frame} {src : UInt32} {seg : Segment}

theorem networkReceive_none (h : frameSegment frame=none) (rr : HttpRequest → HttpResponse)
    (host : Host) : (networkReceive rr frame host).1.tcp=host.tcp ∧
      (networkReceive rr frame host).2.events=[] := by
  have ht := networkReceive_tcp rr frame host
  rw [h] at ht
  exact Prod.mk.inj ht

theorem networkReceive_some (h : frameSegment frame=some (src,seg))
    (rr : HttpRequest → HttpResponse) (host : Host) :
    (networkReceive rr frame host).1.tcp=(tcpInput rr src seg host.tcp).1 ∧
      (networkReceive rr frame host).2.events=(tcpInput rr src seg host.tcp).2 := by
  have ht := networkReceive_tcp rr frame host
  rw [h] at ht
  exact Prod.mk.inj ht

/-- A segment to another port changes nothing; at most it is answered with an RST. -/
theorem networkReceive_nowhere (h : frameSegment frame=some (src,seg))
    (hp : seg.dstPort≠httpPort) (rr : HttpRequest → HttpResponse) {host : Host}
    (hr : host.Reachable) :
    (networkReceive rr frame host).1.tcp=host.tcp ∧
      emitted (networkReceive rr frame host).2.events=
        if seg.rst then [] else [rstSegment src seg] := by
  obtain ⟨ht,he⟩ := networkReceive_some h rr host
  have hno := tcpInput_nowhere (hr.standing.nowhere src hp) rr
  rw [ht,he,hno]
  refine ⟨rfl,?_⟩
  simp only
  split_ifs <;> rfl

/-- The payload of a frame goes as far as the frame does. -/
theorem frameSegment_payload (h : frameSegment frame=some (src,seg)) :
    seg.payload=(framePacket frame).drop
      (ipHeaderLen (framePacket frame)+tcpDataOffset (framePacket frame)) := by
  obtain ⟨-,-,hs⟩ := frameSegment_some h
  rw [tcpSegment] at hs
  split_ifs at hs
  obtain rfl := Option.some.inj hs
  exact List.drop_drop

/-- A host in the state after some calls from tcp_init. -/
def hostAfter (as : List Action) : Host := ⟨run tcpInit as,⟨fun _ => ⟨0,.zero _,false⟩,1⟩,1,0⟩

theorem hostAfter_reachable (as : List Action) : (hostAfter as).Reachable := ⟨as,rfl⟩

/-- A malformed frame to HTTP_PORT changes a socket in some state. -/
theorem malformed_disturbs (h : frameSegment frame=some (src,seg)) (hp : seg.dstPort=httpPort)
    (rr : HttpRequest → HttpResponse) : ∃ host : Host,host.Reachable ∧
      (networkReceive rr frame host).1.tcp.sockets≠host.tcp.sockets := by
  obtain ⟨i,hl,hidle⟩ := opening_takes src seg.srcPort
  have htarget : target (run tcpInit (opening src seg.srcPort)).sockets src seg=.found i := by
    rw [target,hp,hl]
  have hd := tcpInput_disturbs htarget hidle rr
  refine ⟨hostAfter (opening src seg.srcPort),hostAfter_reachable _,?_⟩
  rw [(networkReceive_some h rr _).1]
  exact hd

theorem frameSegment_length (h : frameSegment frame=some (src,seg)) :
    ipHeaderLen (framePacket frame)+tcpHdrLen≤(framePacket frame).length := by
  obtain ⟨-,-,hs⟩ := frameSegment_some h
  rw [tcpSegment] at hs
  split_ifs at hs with hl
  rw [List.length_drop] at hl
  have hpos : tcpHdrLen=20 := rfl
  omega

/-- A segment that is shorter than a header without the padding is no segment then. -/
theorem unpadded_short (hh : ipHeaderLen (framePacket frame) ≤ ipTotalLen (framePacket frame))
    (ht : ipTotalLen (framePacket frame)≤(framePacket frame).length)
    (hs : ipTotalLen (framePacket frame) < ipHeaderLen (framePacket frame)+tcpHdrLen) :
    frameSegment (unpadded frame)=none := by
  rw [frameSegment_unpadded hh ht]
  cases ethInput frame with
  | ignored => rfl
  | arp payload => rfl
  | ip packet =>
    cases ipInput (framePacket frame) with
    | tcp src payload =>
      have hl : (payload.take (ipTotalLen (framePacket frame)-
          ipHeaderLen (framePacket frame))).length<tcpHdrLen := by
        rw [List.length_take]
        omega
      simp only [tcpSegment_short hl,Option.map_none]
    | _ => rfl

/-- A frame without a segment has none without its padding. -/
theorem unpadded_none (hh : ipHeaderLen (framePacket frame) ≤ ipTotalLen (framePacket frame))
    (ht : ipTotalLen (framePacket frame)≤(framePacket frame).length)
    (h : frameSegment frame=none) : frameSegment (unpadded frame)=none := by
  rw [frameSegment_unpadded hh ht]
  rw [frameSegment] at h
  cases heth : ethInput frame with
  | ignored => rfl
  | arp payload => rfl
  | ip packet =>
    simp only [heth,ethInput_packet heth] at h ⊢
    cases hip : ipInput (framePacket frame) with
    | tcp src payload =>
      simp only [hip,Option.map_eq_none_iff] at h ⊢
      rw [tcpSegment] at h
      split_ifs at h with hl
      have hcut := List.length_take_le' (ipTotalLen (framePacket frame)-
        ipHeaderLen (framePacket frame)) payload
      exact tcpSegment_short (hcut.trans_lt hl)
    | _ => rfl

theorem unpadded_some (hh : ipHeaderLen (framePacket frame) ≤ ipTotalLen (framePacket frame))
    (ht : ipTotalLen (framePacket frame)≤(framePacket frame).length)
    (hs : ¬ipTotalLen (framePacket frame) < ipHeaderLen (framePacket frame)+tcpHdrLen)
    (h : frameSegment frame=some (src,seg)) :
    ∃ payload,frameSegment (unpadded frame)=some (src,{seg with payload := payload}) := by
  obtain ⟨heth,hip,hseg⟩ := frameSegment_some h
  have hn : tcpHdrLen ≤ ipTotalLen (framePacket frame)-ipHeaderLen (framePacket frame) := by omega
  have hl : ipTotalLen (framePacket frame)-ipHeaderLen (framePacket frame)≤
      ((framePacket frame).drop (ipHeaderLen (framePacket frame))).length := by
    rw [List.length_drop]
    omega
  obtain ⟨payload,hp⟩ := tcpSegment_take hseg hn hl
  refine ⟨payload,?_⟩
  rw [frameSegment_unpadded hh ht,heth]
  simp only [hip,hp,Option.map_some]

theorem lengthsImmaterial_of_goesByLengths (hg : GoesByLengths frame) :
    LengthsImmaterial frame := by
  intro src seg h
  by_cases hw : LengthsAgree (framePacket frame)
  · left
    refine ⟨hw,?_⟩
    have hlen := congrArg List.length ((hg.payload src seg h hw).symm.trans
      (frameSegment_payload h))
    rw [List.length_drop,List.length_drop,List.length_take_of_le hw.arrived] at hlen
    have hseg := hw.segment
    have harr := hw.arrived
    omega
  · right
    have hp : seg.dstPort≠httpPort := by
      intro hp
      obtain ⟨host,hr,hne⟩ := malformed_disturbs h hp fun _ => badRequest
      exact hne (hg.malformed hw _ host hr)
    refine ⟨hw,hp,?_⟩
    by_contra hno
    rw [not_or,not_not] at hno
    obtain ⟨hrst,hh,hshort⟩ := hno
    have hr := hostAfter_reachable []
    have hl := frameSegment_length h
    have ht : ipTotalLen (framePacket frame)≤(framePacket frame).length := by omega
    obtain ⟨-,he⟩ := hg.padding hh ht (fun _ => badRequest) _ hr
    obtain ⟨-,hrsts⟩ := networkReceive_nowhere h hp (fun _ => badRequest) hr
    obtain ⟨-,hnone⟩ := networkReceive_none (unpadded_short hh ht hshort) (fun _ => badRequest)
      (hostAfter [])
    rw [hrsts,hnone,if_neg hrst] at he
    cases he

theorem goesByLengths_of_lengthsImmaterial (hi : LengthsImmaterial frame) :
    GoesByLengths frame := by
  refine ⟨fun src seg h hw => ?_,fun hw rr host hr => ?_,fun hh ht rr host hr => ?_⟩
  · rcases hi src seg h with ⟨-,htotal⟩|⟨hno,-⟩
    · rw [htotal,List.take_length]
      exact frameSegment_payload h
    · exact absurd hw hno
  · cases h : frameSegment frame with
    | none => rw [(networkReceive_none h rr host).1]
    | some r =>
      obtain ⟨src,seg⟩ := r
      rcases hi src seg h with ⟨hyes,-⟩|⟨-,hp,-⟩
      · exact absurd hyes hw
      · rw [(networkReceive_nowhere h hp rr hr).1]
  · cases h : frameSegment frame with
    | none =>
      have hu := unpadded_none hh ht h
      rw [(networkReceive_none h rr host).1,(networkReceive_none h rr host).2,
        (networkReceive_none hu rr host).1,(networkReceive_none hu rr host).2]
      exact ⟨rfl,rfl⟩
    | some r =>
      obtain ⟨src,seg⟩ := r
      rcases hi src seg h with ⟨-,htotal⟩|⟨-,hp,hrst⟩
      · have hsame : unpadded frame=frame := by
          rw [unpadded,htotal,framePacket,List.length_drop]
          exact List.take_of_length_le (by omega)
        rw [hsame]
        exact ⟨rfl,rfl⟩
      · obtain ⟨hsock,hemit⟩ := networkReceive_nowhere h hp rr hr
        rw [hsock,hemit]
        by_cases hs : ipTotalLen (framePacket frame) < ipHeaderLen (framePacket frame)+tcpHdrLen
        · have hu := networkReceive_none (unpadded_short hh ht hs) rr host
          have hset : seg.rst=true := hrst.resolve_right fun hno => hno ⟨hh,hs⟩
          rw [hu.1,hu.2,if_pos hset]
          exact ⟨rfl,rfl⟩
        · obtain ⟨payload,hu⟩ := unpadded_some hh ht hs h
          obtain ⟨hsock',hemit'⟩ := networkReceive_nowhere hu hp rr hr
          rw [hsock',hemit']
          exact ⟨rfl,rfl⟩

/-- Exactly with these frames the stack goes by the lengths in them: it takes a segment to end
where the frame does and believes its data offset. -/
theorem goesByLengths_iff (frame : Frame) : GoesByLengths frame ↔ LengthsImmaterial frame :=
  ⟨lengthsImmaterial_of_goesByLengths,goesByLengths_of_lengthsImmaterial⟩

end Frames

/-- A frame to the host from port 4000 of 10.0.2.2 whose IP packet has the given total length. -/
def clientFrame (totalLen : UInt16) (seg : Segment) : Frame :=
  ourMac.bytes++broadcastMac.bytes++store16 (be16 ethertypeIp)++
    [0x45,0]++store16 (be16 totalLen)++store16 0++store16 0++[64,ipProtoTcp]++store16 0++
    store32 (be32 0x0A000202)++store32 (be32 netIpAddr)++seg.packet

/-- An ACK without payload, padded to the 60 bytes of a minimal frame. -/
def paddedAck : Frame := clientFrame 40 ⟨4000,httpPort,51,1101,tcpFlagAck,[]⟩++[0,0,0,0,0,0]

/-- Its padding ends up in the receive buffer of the connection. -/
theorem paddedAck_counterexample : ¬∀ frame : Frame,frame.length≤2048 →
    be16 (load16 frame 12)=ethertypeIp → GoesByLengths frame := by
  intro h
  have hg := h paddedAck (by decide) (by decide)
  have hsame := (hg.padding (by decide) (by decide) (fun _ => badRequest) _
    (hostAfter_reachable handshake)).1
  have hpadded : ((networkReceive (fun _ => badRequest) paddedAck
      (hostAfter handshake)).1.tcp.sockets 1).rxLen=6 := by decide
  have hcut : ((networkReceive (fun _ => badRequest) (unpadded paddedAck)
      (hostAfter handshake)).1.tcp.sockets 1).rxLen=0 := by decide
  rw [hsame,hcut] at hpadded
  cases hpadded

end Cllm.Tcp
