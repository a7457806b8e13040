import Cllm.Tcp.Egress

namespace Cllm.Tcp

open Libc Network Http OnesComplement

/-- A packet that ip_receive takes for ICMP. -/
structure Icmp (packet : List UInt8) : Prop where
  version : load8 packet 0&&&(0xF0 : UInt8)=0x40
  words : 5 ≤ (load8 packet 0&&&(0x0F : UInt8)).toNat
  header : ipHeaderLen packet ≤ packet.length
  destination : ipDestination packet=netIpAddr
  proto : load8 packet 9=ipProtoIcmp

/-- The ICMP message of a packet. -/
def icmpMessage (packet : List UInt8) : List UInt8 := packet.drop (ipHeaderLen packet)

/-- An echo request from an address that the table knows. -/
structure EchoRequest (table : ArpTable) (packet : List UInt8) : Prop extends Icmp packet where
  message : 8 ≤ (icmpMessage packet).length
  type : load8 (icmpMessage packet) 0=8
  known : (arpResolve table (ipSource packet)).1≠none

/-- What a receiver finds in the frame that answers a request: its own address, both checksums
summing to all ones, and its own message but for the type and the checksum. -/
structure Answers (mac : Mac) (request : List UInt8) (frame : Frame) (reply : List UInt8) :
    Prop where
  frame_room : frame.length ≤ netBufSize
  reply_room : reply.length ≤ netBufSize
  to_requester : frame.take ethAddrLen=mac.bytes
  packet_eq : ethInput frame=.ip reply
  source : ipSource reply=netIpAddr
  destination : ipDestination reply=ipSource request
  total_len : ipTotalLen reply=reply.length
  ip_sum : onesSum (bigWords (reply.take (ipHeaderLen reply)))=0xFFFF
  icmp_sum : onesSum (bigWords (icmpMessage reply))=0xFFFF
  length : (icmpMessage reply).length=(icmpMessage request).length
  type : (icmpMessage reply)[0]?=some 0
  code : (icmpMessage reply)[1]?=(icmpMessage request)[1]?
  body : (icmpMessage reply).drop 4=(icmpMessage request).drop 4

/-- The frame of the ARP request for an address. -/
def arpRequestFrame (ip : UInt32) : Frame :=
  broadcastMac.bytes++ourMac.bytes++store16 (be16 ethertypeArp)++arpRequest ip

theorem ipInput_icmp {packet : List UInt8} (h : Icmp packet) :
    ipInput packet=.icmp (ipSource packet) (icmpMessage packet) := by
  have hwords := h.words
  have hheader := h.header
  have hihl : ipHeaderLen packet=(load8 packet 0&&&(0x0F : UInt8)).toNat*4 := rfl
  have hsize : ipHdrLen=20 := rfl
  have hshort : ¬packet.length < ipHdrLen := by omega
  have hrange : ¬(ipHeaderLen packet < ipHdrLen ∨ packet.length < ipHeaderLen packet) := by omega
  have hdst : be32 (load32 packet 16)=netIpAddr := h.destination
  rw [ipInput,if_neg hshort,if_neg (not_not.mpr h.version),if_neg hrange,
    if_neg (not_not.mpr hdst)]
  simp only
  rw [if_pos h.proto]
  rfl

theorem icmp_of_ipInput {packet payload : List UInt8} {src : UInt32}
    (h : ipInput packet=.icmp src payload) :
    Icmp packet ∧ src=ipSource packet ∧ payload=icmpMessage packet := by
  have hihl : ipHeaderLen packet=(load8 packet 0&&&(0x0F : UInt8)).toNat*4 := rfl
  have hsize : ipHdrLen=20 := rfl
  rw [ipInput] at h
  split at h
  · cases h
  split at h
  · cases h
  next hversion =>
  split at h
  · cases h
  next hrange =>
  split at h
  · cases h
  next hdst =>
  simp only at h
  split at h
  · next hproto =>
    obtain ⟨hsrc,hpayload⟩ := IpInput.icmp.inj h
    exact ⟨⟨not_not.mp hversion,by omega,by omega,not_not.mp hdst,hproto⟩,hsrc.symm,
      hpayload.symm⟩
  · split at h <;> cases h

theorem ipInput_ne_tcp {packet : List UInt8} (h : load8 packet 9=ipProtoIcmp) (src : UInt32)
    (payload : List UInt8) : ipInput packet≠.tcp src payload := by
  intro hin
  rw [ipInput] at hin
  simp only [h,if_true] at hin
  split_ifs at hin

/-- No data has a sum of zero together with its checksum: that of nothing is all ones. -/
theorem ipChecksum_sum_ne_zero (data : List UInt8) :
    (littleWords data).sum+(ipChecksum data).toNat≠0 := by
  intro hz
  have hzero : (0 : UInt32).toNat=0 := rfl
  have hword := wordSum_toNat data 0 (by omega)
  have hsum : wordSum data 0=0 := UInt32.toNat_inj.mp (by omega)
  have hcsum : ipChecksum data=0xFFFF := by
    rw [ipChecksum,hsum,foldCarry]
    rfl
  rw [hcsum] at hz
  have hones : (0xFFFF : UInt16).toNat=65535 := rfl
  omega

/-- The message of a reply with a checksum, zero while it is summed. -/
def replyMessage (payload : List UInt8) (csum : UInt16) : List UInt8 :=
  [0,load8 payload 1]++store16 csum++payload.drop 4

theorem replyMessage_length {payload : List UInt8} (h : 8 ≤ payload.length) (csum : UInt16) :
    (replyMessage payload csum).length=payload.length := by
  simp only [replyMessage,List.length_append,List.length_cons,List.length_nil,store16_length,
    List.length_drop]
  omega

theorem replyMessage_sum {payload : List UInt8} (h : 8 ≤ payload.length)
    (hl : payload.length ≤ netBufSize) :
    onesSum (bigWords (replyMessage payload (ipChecksum (replyMessage payload 0))))=0xFFFF := by
  have hlen : (replyMessage payload 0).length ≤ netBufSize := by rwa [replyMessage_length h]
  have hfill := ipChecksum_fills (replyMessage payload 0) hlen
  have hne := ipChecksum_sum_ne_zero (replyMessage payload 0)
  have hpre : ([0,load8 payload 1] : List UInt8).length%2=0 := by simp
  have hsum (csum : UInt16) : (littleWords (replyMessage payload csum)).sum=
      (littleWords (replyMessage payload 0)).sum+csum.toNat := by
    unfold replyMessage
    rw [List.append_assoc,List.append_assoc]
    exact littleWords_checksum hpre csum _
  apply onesSum_bigWords
  · rwa [hsum]
  · rwa [hsum]

section

variable {table : ArpTable} {packet : List UInt8}

/-- The reply to a request within the receive buffer, in its frame. -/
theorem icmpReply_answers (h : EchoRequest table packet) (hl : packet.length ≤ 2034) (mac : Mac)
    (id : UInt16) :
    ∃ frame,netSendEth ethertypeIp mac (icmpReply (ipSource packet) id (icmpMessage packet))=
        some frame ∧
      Answers mac packet frame (icmpReply (ipSource packet) id (icmpMessage packet)) := by
  have hwords := h.words
  have hmessage := h.message
  have hsize := net_sizes
  have hihl : ipHeaderLen packet=(load8 packet 0&&&(0x0F : UInt8)).toNat*4 := rfl
  have hpacket : (icmpMessage packet).length=packet.length-ipHeaderLen packet :=
    List.length_drop
  generalize hm : icmpMessage packet=message at *
  let header := ipHeader ipProtoIcmp (ipSource packet) id message.length
    (ipChecksum (ipHeader ipProtoIcmp (ipSource packet) id message.length 0))
  let csum := ipChecksum (replyMessage message 0)
  have hreply : icmpReply (ipSource packet) id message=header++replyMessage message csum := rfl
  have hbody : (replyMessage message csum).length=message.length := replyMessage_length hmessage _
  have hlen : (header++replyMessage message csum).length=ipHdrLen+message.length := by
    rw [List.length_append,hbody,ipHeader_length]
  obtain ⟨hihl',hsrc,hdst,hdrop⟩ := ipHeader_fields ipProtoIcmp (ipSource packet) id
    message.length (ipChecksum (ipHeader ipProtoIcmp (ipSource packet) id message.length 0))
    (replyMessage message csum)
  have hicmp : icmpMessage (header++replyMessage message csum)=replyMessage message csum := by
    rw [icmpMessage,hihl',hdrop]
  have hroom : ¬(header++replyMessage message csum).length > netBufSize-ethHdrLen := by omega
  rw [hreply]
  refine ⟨_,if_neg hroom,?_,?_,?_,ethInput_ip mac _,hsrc,hdst,?_,?_,?_,?_,?_,?_,?_⟩
  · rw [List.length_append,ethHeader_length,hlen]
    omega
  · omega
  · rw [List.append_assoc,List.append_assoc]
    exact List.take_left' mac.size
  · rw [hlen]
    exact ipHeader_totalLen _ _ _ _ _ (by omega)
  · have htake : (header++replyMessage message csum).take ipHdrLen=header := List.take_left' rfl
    rw [hihl',htake]
    exact ipHeader_sum ..
  · rw [hicmp]
    exact replyMessage_sum hmessage (by omega)
  · rw [hicmp,hm,hbody]
  · rw [hicmp]
    rfl
  · rw [hicmp,hm]
    have hcode : load8 message 1=message[1] := List.getD_eq_getElem _ _ _
    have hget : message[1]?=some message[1] := List.getElem?_eq_getElem _
    rw [hget,← hcode]
    rfl
  · rw [hicmp,hm]
    rfl

end

/-- An echo request within the receive buffer is answered by one frame; any other ICMP packet is
passed over, or leads to an ARP request. -/
theorem ipReceive_echo (rr : HttpRequest → HttpResponse) (h : Host) {packet : List UInt8}
    (hl : packet.length ≤ 2034) (hproto : load8 packet 9=ipProtoIcmp) :
    (EchoRequest h.net.arpTable packet → ∃ mac frame reply,
      (arpResolve h.net.arpTable (ipSource packet)).1=some mac ∧
      (ipReceive rr packet h).2=⟨[],[frame]⟩ ∧ Answers mac packet frame reply) ∧
    (¬EchoRequest h.net.arpTable packet → (ipReceive rr packet h).2=⟨[],[]⟩ ∨
      (ipReceive rr packet h).2=⟨[],[arpRequestFrame (ipSource packet)]⟩) := by
  constructor
  · intro he
    obtain ⟨mac,hmac⟩ := Option.ne_none_iff_exists'.mp he.known
    obtain ⟨i,hi,rfl⟩ := arpLookup_of_resolve hmac
    obtain ⟨frame,hframe,hanswers⟩ := icmpReply_answers he hl (h.net.arpTable i).mac h.icmpId
    refine ⟨_,frame,_,hmac,?_,hanswers⟩
    rw [ipReceive,ipInput_icmp he.toIcmp]
    simp only [he.message,he.type,and_self,if_true,arpResolve,hi,hframe,
      List.nil_append,Option.toList_some]
  · intro hne
    rw [ipReceive]
    cases hin : ipInput packet with
    | ignored => exact .inl rfl
    | other src => exact .inl rfl
    | tcp src payload => exact absurd hin (ipInput_ne_tcp hproto src payload)
    | icmp src payload =>
      obtain ⟨hicmp,rfl,rfl⟩ := icmp_of_ipInput hin
      simp only
      split
      · next hecho =>
        cases hlook : arpLookup h.net.arpTable (ipSource packet) with
        | none =>
          right
          simp only [arpResolve,hlook]
          rfl
        | some i =>
          exfalso
          apply hne
          refine ⟨hicmp,hecho.1,hecho.2,?_⟩
          simp [arpResolve,hlook]
      · exact .inl rfl

/-- A ping of the gateway with nine bytes of ICMP and four bytes of options. -/
def ping : List UInt8 :=
  [0x46,0,0,33,0,1,0,0,64,1,0,0,10,0,2,2,10,0,2,15,1,1,1,1,8,0,0xF7,0xFD,0,1,0,1,0]

theorem ping_request : EchoRequest (arpStore arpInit 0x0A000202 broadcastMac) ping where
  version := by decide
  words := by decide
  header := by decide
  destination := by decide
  proto := rfl
  message := by decide
  type := rfl
  known := by decide

/-- A host that knows the gateway. -/
def gatewayHost : Host := ⟨tcpInit,⟨arpStore arpInit 0x0A000202 broadcastMac,1⟩,1,0⟩

theorem ping_answered :
    ∃ mac frame reply,(arpResolve gatewayHost.net.arpTable (ipSource ping)).1=some mac ∧
      (ipReceive (fun _ => badRequest) ping gatewayHost).2=⟨[],[frame]⟩ ∧
      Answers mac ping frame reply :=
  (@ipReceive_echo (fun _ => badRequest) gatewayHost ping (by decide) rfl).1 ping_request

end Cllm.Tcp
