import Cllm.Network.Arp
import Cllm.Network.Checksum
import Cllm.Tcp.Ingress

namespace Cllm.Tcp

open Libc Network OnesComplement

/-- The addresses of an IP header. -/
def ipSource (packet : List UInt8) : UInt32 := be32 (load32 packet 12)
def ipDestination (packet : List UInt8) : UInt32 := be32 (load32 packet 16)

/-- What the TCP checksum of a packet also covers: the addresses and the protocol as they stand
in the IP header, and the length of the segment. -/
def pseudoHeaderOf (packet segment : List UInt8) : List UInt8 :=
  (packet.drop 12).take 8++[0,load8 packet 9]++
    [UInt8.ofNat (segment.length/256),UInt8.ofNat segment.length]

theorem store16_be16 (x : UInt16) : store16 (be16 x)=[(x>>>8).toUInt8,x.toUInt8] := by
  have hlow : (be16 x).toUInt8=(x>>>8).toUInt8 := by
    apply UInt8.eq_of_toBitVec_eq
    ext i hi
    simp only [be16,UInt16.toBitVec_toUInt8,UInt16.toBitVec_or,UInt16.toBitVec_shiftLeft,
      UInt16.toBitVec_shiftRight]
    interval_cases i <;> simp
  have hhigh : (be16 x>>>8).toUInt8=x.toUInt8 := by
    apply UInt8.eq_of_toBitVec_eq
    ext i hi
    simp only [be16,UInt16.toBitVec_toUInt8,UInt16.toBitVec_or,UInt16.toBitVec_shiftLeft,
      UInt16.toBitVec_shiftRight]
    interval_cases i <;> simp
  rw [store16,hlow,hhigh]

theorem store16_length_field {n : Nat} (h : n<65536) :
    store16 (be16 (UInt16.ofNat n))=[UInt8.ofNat (n/256),UInt8.ofNat n] := by
  rw [store16_be16]
  have hhigh : (UInt16.ofNat n>>>8).toUInt8=UInt8.ofNat (n/256) := by
    apply UInt8.toNat_inj.mp
    simp [Nat.shiftRight_eq_div_pow]
    omega
  have hlow : (UInt16.ofNat n).toUInt8=UInt8.ofNat n := by
    apply UInt8.toNat_inj.mp
    simp
  rw [hhigh,hlow]

/-- The fields behind which ip_receive and a receiver look. -/
theorem ipHeader_fields (proto : UInt8) (dstIp : UInt32) (id : UInt16) (n : Nat) (c : UInt16)
    (payload : List UInt8) :
    let packet := ipHeader proto dstIp id n c++payload
    ipHeaderLen packet=ipHdrLen ∧ ipSource packet=netIpAddr ∧ ipDestination packet=dstIp ∧
      packet.drop ipHdrLen=payload := by
  intro packet
  have hsrc : load32 packet 12=be32 netIpAddr := join32 _
  have hdst : load32 packet 16=be32 dstIp := join32 _
  refine ⟨?_,?_,?_,rfl⟩
  · have hver : load8 packet 0=0x45 := rfl
    rw [ipHeaderLen,hver]
    decide
  · rw [ipSource,hsrc,be32_be32]
  · rw [ipDestination,hdst,be32_be32]

theorem ipHeader_totalLen (proto : UInt8) (dstIp : UInt32) (id : UInt16) {n : Nat} (c : UInt16)
    (payload : List UInt8) (hn : ipHdrLen+n < 65536) :
    ipTotalLen (ipHeader proto dstIp id n c++payload)=ipHdrLen+n := by
  have hlen : load16 (ipHeader proto dstIp id n c++payload) 2=
      be16 (UInt16.ofNat (ipHdrLen+n)) := join16 _
  rw [ipTotalLen,hlen,be16_be16,UInt16.toNat_ofNat',Nat.mod_eq_of_lt hn]

/-- The dispatch finds the packet behind the Ethernet header that net_send_eth writes. -/
theorem ethInput_ip (mac : Mac) (packet : List UInt8) :
    ethInput (mac.bytes++ourMac.bytes++store16 (be16 ethertypeIp)++packet)=.ip packet := by
  let frame := mac.bytes++ourMac.bytes++store16 (be16 ethertypeIp)++packet
  have hpre : (mac.bytes++ourMac.bytes).length=12 := by
    rw [List.length_append,mac.size,ourMac.size]
    rfl
  have hlen : frame.length=ethHdrLen+packet.length := by
    rw [List.length_append,ethHeader_length]
  have htype : load16 frame 12=be16 ethertypeIp := by
    have hat (k : Nat) : load8 frame (12+k)=load8 (store16 (be16 ethertypeIp)++packet) k := by
      change (mac.bytes++ourMac.bytes++store16 (be16 ethertypeIp)++packet).getD (12+k) 0=_
      rw [load8,List.append_assoc,List.getD_append_right _ _ _ _ (by omega),hpre,
        Nat.add_sub_cancel_left]
    rw [load16]
    have h0 := hat 0
    have h1 := hat 1
    rw [Nat.add_zero] at h0
    rw [h0,h1]
    exact join16 _
  have hroom : frame.length ≥ ethHdrLen := by omega
  have harp : ¬be16 (load16 frame 12)=ethertypeArp := by
    rw [htype,be16_be16]
    decide
  have hip : be16 (load16 frame 12)=ethertypeIp := by rw [htype,be16_be16]
  have hdrop : frame.drop ethHdrLen=packet := List.drop_left' (ethHeader_length mac)
  change ethInput frame=.ip packet
  rw [ethInput,if_pos hroom]
  simp only
  rw [if_neg harp,if_pos hip,hdrop]

section Written

variable (id : UInt16) (o : OutSegment)

theorem ipWritten_fields :
    ipHeaderLen (ipWritten id o)=ipHdrLen ∧ ipSource (ipWritten id o)=netIpAddr ∧
      ipDestination (ipWritten id o)=o.dstIp ∧ load8 (ipWritten id o) 9=ipProtoTcp ∧
      (ipWritten id o).drop ipHdrLen=tcpWritten o := by
  obtain ⟨hihl,hsrc,hdst,hdrop⟩ := ipHeader_fields ipProtoTcp o.dstIp id (tcpWritten o).length
    (ipChecksum (ipHeader ipProtoTcp o.dstIp id (tcpWritten o).length 0)) (tcpWritten o)
  exact ⟨hihl,hsrc,hdst,rfl,hdrop⟩

theorem ipWritten_totalLen (hl : o.payload.length ≤ tcpPayloadMax) :
    ipTotalLen (ipWritten id o)=(ipWritten id o).length := by
  have hsize := net_sizes
  have hlen := tcpWritten_length o
  rw [ipWritten_length,← hlen]
  exact ipHeader_totalLen _ _ _ _ _ (by omega)

theorem pseudoHeader_written (hl : o.payload.length ≤ tcpPayloadMax) :
    pseudoHeaderOf (ipWritten id o) (tcpWritten o)=
      pseudoHeader netIpAddr o.dstIp (tcpWritten o).length := by
  have hsize := net_sizes
  have hlen : (tcpWritten o).length<65536 := by
    rw [tcpWritten_length]
    omega
  rw [pseudoHeader,store16_length_field hlen,pseudoHeaderOf]
  rfl

/-- ip_receive passes the segment on if the packet is its own. -/
theorem ipInput_written :
    ipInput (ipWritten id o)=
      if o.dstIp=netIpAddr then .tcp netIpAddr (tcpWritten o) else .ignored := by
  obtain ⟨hihl,hsrc,hdst,hproto,hdrop⟩ := ipWritten_fields id o
  have hsize := net_sizes
  have hlen := ipWritten_length id o
  have hshort : ¬(ipWritten id o).length < ipHdrLen := by omega
  have hver : ¬load8 (ipWritten id o) 0&&&(0xF0 : UInt8)≠0x40 := by
    have h : load8 (ipWritten id o) 0=0x45 := rfl
    rw [h]
    decide
  have hheader : ¬(ipHeaderLen (ipWritten id o) < ipHdrLen ∨
      (ipWritten id o).length < ipHeaderLen (ipWritten id o)) := by omega
  rw [ipSource] at hsrc
  rw [ipDestination] at hdst
  rw [ipInput,if_neg hshort,if_neg hver,if_neg hheader,hsrc,hdst,hproto,hihl,hdrop]
  by_cases h : o.dstIp=netIpAddr
  · have hicmp : ¬ipProtoTcp=ipProtoIcmp := by decide
    simp [h,hicmp]
  · simp [h]

theorem ethInput_written (mac : Mac) : ethInput (ethWritten mac id o)=.ip (ipWritten id o) :=
  ethInput_ip mac (ipWritten id o)

end Written

theorem arpLookup_of_resolve {table : ArpTable} {ip : UInt32} {mac : Mac}
    (h : (arpResolve table ip).1=some mac) :
    ∃ i,arpLookup table ip=some i ∧ (table i).mac=mac := by
  rw [arpResolve] at h
  cases hl : arpLookup table ip with
  | none => simp [hl] at h
  | some i => exact ⟨i,rfl,by simpa [hl] using h⟩

/-- What a receiver finds in a frame: both checksums sum to all ones, the length in the IP header
is the frame's, and the headers and the payload are the segment's. -/
structure Carries (frame : Frame) (o : OutSegment) (packet segment : List UInt8) : Prop where
  packet_eq : ethInput frame=.ip packet
  segment_eq : packet.drop (ipHeaderLen packet)=segment
  ip_sum : onesSum (bigWords (packet.take (ipHeaderLen packet)))=0xFFFF
  tcp_sum : onesSum (bigWords (pseudoHeaderOf packet segment++segment))=0xFFFF
  total_len : ipTotalLen packet=frame.length-14
  source : ipSource packet=netIpAddr
  destination : ipDestination packet=o.dstIp
  received : ipInput packet=
    if o.dstIp=netIpAddr then .tcp netIpAddr segment else .ignored
  fields : tcpSegment segment=some ⟨o.srcPort,o.dstPort,o.seq,o.ack,o.flags,o.payload⟩

theorem written_carries (mac : Mac) (id : UInt16) (o : OutSegment)
    (hl : o.payload.length ≤ tcpPayloadMax) :
    Carries (ethWritten mac id o) o (ipWritten id o) (tcpWritten o) := by
  obtain ⟨hihl,hsrc,hdst,-,hdrop⟩ := ipWritten_fields id o
  refine ⟨ethInput_written id o mac,?_,?_,?_,?_,hsrc,hdst,ipInput_written id o,
    tcpSegment_header o _⟩
  · rw [hihl,hdrop]
  · have htake : (ipWritten id o).take ipHdrLen=ipHeader ipProtoTcp o.dstIp id
        (tcpWritten o).length (ipChecksum (ipHeader ipProtoTcp o.dstIp id
          (tcpWritten o).length 0)) := List.take_left' rfl
    rw [hihl,htake]
    apply ipHeader_sum
  · rw [pseudoHeader_written id o hl]
    exact tcpWritten_sum o hl
  · rw [ipWritten_totalLen id o hl,ethWritten_length,Nat.add_sub_cancel_left]

/-- net_send_tcp gives the driver one frame that fits its buffers and carries the segment. -/
theorem netSendTcp_carries (net : Net) (o : OutSegment) (mac : Mac)
    (hm : (arpResolve net.arpTable o.dstIp).1=some mac)
    (hl : o.payload.length ≤ netBufSize-54) :
    ∃ frame packet segment,(netSendTcp net o).2=⟨[frame],true⟩ ∧ frame.length ≤ netBufSize ∧
      Carries frame o packet segment := by
  obtain ⟨i,hi,rfl⟩ := arpLookup_of_resolve hm
  have hsize := net_sizes
  have hl' : o.payload.length ≤ tcpPayloadMax := by omega
  refine ⟨ethWritten (net.arpTable i).mac net.ipId o,ipWritten net.ipId o,tcpWritten o,
    netSendTcp_written net o hi hl',?_,written_carries _ _ _ hl'⟩
  rw [ethWritten_length,ipWritten_length]
  omega

/-- A segment to a gateway that the table knows. -/
theorem netSendTcp_carries_gateway :
    ∃ frame packet segment,
      (netSendTcp ⟨arpStore arpInit 0x0A000202 broadcastMac,1⟩
        ⟨80,4000,0x0A000202,7,9,tcpFlagAck,[0x68,0x69,0x21]⟩).2=⟨[frame],true⟩ ∧
      frame.length ≤ netBufSize ∧
      Carries frame ⟨80,4000,0x0A000202,7,9,tcpFlagAck,[0x68,0x69,0x21]⟩ packet segment :=
  netSendTcp_carries _ _ broadcastMac rfl (by decide)

end Cllm.Tcp
