import Cllm.Network.Wire

namespace Cllm.Network

open Libc

abbrev arpTableSize : Nat := 4

structure ArpEntry where
  ip : UInt32
  mac : Mac
  valid : Bool

abbrev ArpTable := Fin arpTableSize → ArpEntry

/-- What a transmit helper does: the frames it gives to e1000_send_packet in order, and
whether it returns the driver's code for the last of them rather than -1. -/
structure Sent where
  frames : List Frame
  ok : Bool
  deriving DecidableEq

/-- The static state of the transmit path: the ARP table and net_send_ip's ip_id. -/
structure Net where
  arpTable : ArpTable
  ipId : UInt16

/-- The sum over 16-bit little-endian words, the odd last byte alone. -/
def wordSum : List UInt8 → UInt32 → UInt32
  | a::b::rest,sum => wordSum rest (sum+(a.toUInt32|||(b.toUInt32<<<8)))
  | [a],sum => sum+a.toUInt32
  | [],sum => sum

theorem highWord_toNat (sum : UInt32) : (sum>>>16).toNat=sum.toNat/65536 := by
  rw [UInt32.toNat_shiftRight]
  exact Nat.shiftRight_eq_div_pow sum.toNat 16

theorem foldCarry_step (sum : UInt32) :
    ((sum&&&(0xFFFF : UInt32))+(sum>>>16)).toNat=sum.toNat%65536+sum.toNat/65536 := by
  have hlt : sum.toNat<4294967296 := sum.toNat_lt
  have hand : (sum&&&(0xFFFF : UInt32)).toNat=sum.toNat%65536 := by
    rw [UInt32.toNat_and]
    exact Nat.and_two_pow_sub_one_eq_mod sum.toNat 16
  rw [UInt32.toNat_add,hand,highWord_toNat,Nat.mod_eq_of_lt (by omega)]

/-- while (sum >> 16) sum = (sum & 0xFFFF) + (sum >> 16) -/
def foldCarry (sum : UInt32) : UInt32 :=
  if sum>>>16=0 then sum else foldCarry ((sum&&&(0xFFFF : UInt32))+(sum>>>16))
termination_by sum.toNat
decreasing_by
  rename_i h
  have hpos : (sum>>>16).toNat≠0 := fun he => h (UInt32.toNat_inj.mp he)
  rw [highWord_toNat] at hpos
  rw [foldCarry_step]
  omega

def ipChecksum (data : List UInt8) : UInt16 := ~~~(foldCarry (wordSum data 0)).toUInt16

/-- net_send_eth: `none` is its -1, otherwise the frame it gives to e1000_send_packet. -/
def netSendEth (ethertype : UInt16) (dstMac : Mac) (payload : List UInt8) : Option Frame :=
  if payload.length>netBufSize-ethHdrLen then none
  else some (dstMac.bytes++ourMac.bytes++store16 (be16 ethertype)++payload)

def arpLookup (table : ArpTable) (ip : UInt32) : Option (Fin arpTableSize) :=
  (List.finRange arpTableSize).find? (fun i => (table i).valid && (table i).ip=ip)

def arpRequest (ip : UInt32) : List UInt8 :=
  store16 (be16 1)++store16 (be16 ethertypeIp)++[6,4]++store16 (be16 1)++
    ourMac.bytes++store32 (be32 netIpAddr)++broadcastMac.bytes++store32 (be32 ip)

/-- arp_resolve: the MAC, or the frame of the ARP request it sends instead. -/
def arpResolve (table : ArpTable) (ip : UInt32) : Option Mac × List Frame :=
  match arpLookup table ip with
  | some i => (some (table i).mac,[])
  | none => (none,(netSendEth ethertypeArp broadcastMac (arpRequest ip)).toList)

/-- sizeof(arp_packet_t) -/
abbrev arpPacketSize : Nat := 28

/-- arp_store: the entry of the address, else the first invalid one, else the first one. -/
def arpStore (table : ArpTable) (ip : UInt32) (mac : Mac) : ArpTable :=
  let free := (List.finRange arpTableSize).find? (fun i => !(table i).valid)
  let i := ((arpLookup table ip).or free).getD ⟨0,by decide⟩
  Function.update table i ⟨ip,mac,true⟩

def arpReply (ip : UInt32) (mac : Mac) : List UInt8 :=
  store16 (be16 1)++store16 (be16 ethertypeIp)++[6,4]++store16 (be16 2)++
    ourMac.bytes++store32 (be32 netIpAddr)++mac.bytes++store32 (be32 ip)

/-- The table after arp_receive and the frames it sends. -/
def arpReceive (frame : List UInt8) (table : ArpTable) : ArpTable × List Frame :=
  if h : frame.length<arpPacketSize then (table,[])
  else if be16 (load16 frame 0)≠1 ∨ be16 (load16 frame 2)≠ethertypeIp then (table,[])
  else
    let sha : Mac := ⟨(frame.drop 8).take ethAddrLen,by
      have hl : 28≤frame.length := Nat.le_of_not_lt h
      have he : ethAddrLen=6 := rfl
      rw [List.length_take,List.length_drop]
      omega⟩
    let senderIp := be32 (load32 frame 14)
    let table := arpStore table senderIp sha
    if be16 (load16 frame 6)=1 ∧ be32 (load32 frame 24)=netIpAddr then
      (table,(netSendEth ethertypeArp sha (arpReply senderIp sha)).toList)
    else (table,[])

def ipHeader (proto : UInt8) (dstIp : UInt32) (id : UInt16) (payloadLen : Nat)
    (checksum : UInt16) : List UInt8 :=
  [0x45,0]++store16 (be16 (UInt16.ofNat (ipHdrLen+payloadLen)))++store16 (be16 id)++
    store16 0++[64,proto]++store16 checksum++store32 (be32 netIpAddr)++store32 (be32 dstIp)

def netSendIp (net : Net) (proto : UInt8) (dstIp : UInt32) (payload : List UInt8) : Net × Sent :=
  if payload.length>netBufSize-ethHdrLen-ipHdrLen then (net,⟨[],false⟩)
  else
    let header := ipHeader proto dstIp net.ipId payload.length
    let packet := header (ipChecksum (header 0))++payload
    let net := {net with ipId := net.ipId+1}
    match arpResolve net.arpTable dstIp with
    | (none,frames) => (net,⟨frames,false⟩)
    | (some mac,frames) =>
      match netSendEth ethertypeIp mac packet with
      | none => (net,⟨frames,false⟩)
      | some frame => (net,⟨frames++[frame],true⟩)

def pseudoHeader (srcIp dstIp : UInt32) (segLen : Nat) : List UInt8 :=
  store32 (be32 srcIp)++store32 (be32 dstIp)++[0,ipProtoTcp]++
    store16 (be16 (UInt16.ofNat segLen))

def tcpChecksum (srcIp dstIp : UInt32) (seg : List UInt8) : UInt16 :=
  ~~~(foldCarry (wordSum seg (wordSum (pseudoHeader srcIp dstIp seg.length) 0))).toUInt16

/-- The arguments of a net_send_tcp call. -/
structure OutSegment where
  srcPort : UInt16
  dstPort : UInt16
  dstIp : UInt32
  seq : UInt32
  ack : UInt32
  flags : UInt8
  payload : List UInt8
  deriving DecidableEq

def tcpHeader (o : OutSegment) (checksum : UInt16) : List UInt8 :=
  store16 (be16 o.srcPort)++store16 (be16 o.dstPort)++store32 (be32 o.seq)++
    store32 (be32 o.ack)++[0x50,o.flags]++store16 (be16 4096)++store16 checksum++store16 0

def netSendTcp (net : Net) (o : OutSegment) : Net × Sent :=
  if o.payload.length>netBufSize-ethHdrLen-ipHdrLen-tcpHdrLen then (net,⟨[],false⟩)
  else
    let checksum := tcpChecksum netIpAddr o.dstIp (tcpHeader o 0++o.payload)
    netSendIp net ipProtoTcp o.dstIp (tcpHeader o checksum++o.payload)

/-- The frames a sequence of net_send_tcp calls gives to the driver. -/
def sendAll : Net → List OutSegment → Net × List Frame
  | net,[] => (net,[])
  | net,o::os =>
    let r := netSendTcp net o
    let t := sendAll r.1 os
    (t.1,r.2.frames++t.2)

/-- What the receiver of a frame finds in it, at the offsets of the packed headers. -/
def frameIpLength (f : Frame) : Nat := f.length-ethHdrLen
def frameSeq (f : Frame) : UInt32 := be32 (load32 f (ethHdrLen+ipHdrLen+4))
def frameFlags (f : Frame) : UInt8 := load8 f (ethHdrLen+ipHdrLen+13)
def framePayload (f : Frame) : List UInt8 := f.drop (ethHdrLen+ipHdrLen+tcpHdrLen)

@[simp] theorem ipHeader_length (proto : UInt8) (dstIp : UInt32) (id : UInt16) (n : Nat)
    (c : UInt16) : (ipHeader proto dstIp id n c).length=ipHdrLen := rfl

@[simp] theorem tcpHeader_length (o : OutSegment) (c : UInt16) :
    (tcpHeader o c).length=tcpHdrLen := rfl

/-- The largest payload net_send_tcp takes. -/
abbrev tcpPayloadMax : Nat := netBufSize-ethHdrLen-ipHdrLen-tcpHdrLen

theorem net_sizes : netBufSize=2048 ∧ ethHdrLen=14 ∧ ipHdrLen=20 ∧ tcpHdrLen=20 ∧ netMtu=1500 ∧
    tcpPayloadMax=1994 := ⟨rfl,rfl,rfl,rfl,rfl,rfl⟩

/-- The segment, the packet and the frame that net_send_tcp builds. -/
def tcpWritten (o : OutSegment) : List UInt8 :=
  tcpHeader o (tcpChecksum netIpAddr o.dstIp (tcpHeader o 0++o.payload))++o.payload

def ipWritten (id : UInt16) (o : OutSegment) : List UInt8 :=
  let header := ipHeader ipProtoTcp o.dstIp id (tcpWritten o).length
  header (ipChecksum (header 0))++tcpWritten o

def ethWritten (mac : Mac) (id : UInt16) (o : OutSegment) : Frame :=
  mac.bytes++ourMac.bytes++store16 (be16 ethertypeIp)++ipWritten id o

@[simp] theorem tcpWritten_length (o : OutSegment) :
    (tcpWritten o).length=tcpHdrLen+o.payload.length := by
  simp [tcpWritten]

@[simp] theorem ipWritten_length (id : UInt16) (o : OutSegment) :
    (ipWritten id o).length=ipHdrLen+(tcpHdrLen+o.payload.length) := by
  simp [ipWritten]

theorem ethHeader_length (mac : Mac) :
    (mac.bytes++ourMac.bytes++store16 (be16 ethertypeIp)).length=ethHdrLen := by
  simp only [List.length_append,mac.size,ourMac.size,store16_length]
  rfl

theorem ethWritten_length (mac : Mac) (id : UInt16) (o : OutSegment) :
    (ethWritten mac id o).length=ethHdrLen+(ipWritten id o).length := by
  rw [ethWritten,List.length_append,ethHeader_length]

theorem netSendTcp_written (net : Net) (o : OutSegment) {i : Fin arpTableSize}
    (hm : arpLookup net.arpTable o.dstIp=some i) (hl : o.payload.length≤tcpPayloadMax) :
    (netSendTcp net o).2=⟨[ethWritten (net.arpTable i).mac net.ipId o],true⟩ := by
  have sizes := net_sizes
  have h1 : ¬o.payload.length>netBufSize-ethHdrLen-ipHdrLen-tcpHdrLen := by omega
  have h2 : ¬(tcpWritten o).length>netBufSize-ethHdrLen-ipHdrLen := by
    rw [tcpWritten_length]
    omega
  have h3 : ¬(ipWritten net.ipId o).length>netBufSize-ethHdrLen := by
    rw [ipWritten_length]
    omega
  have hsend : netSendEth ethertypeIp (net.arpTable i).mac (ipWritten net.ipId o)=
      some (ethWritten (net.arpTable i).mac net.ipId o) := if_neg h3
  rw [netSendTcp,if_neg h1]
  change (netSendIp net ipProtoTcp o.dstIp (tcpWritten o)).2=_
  rw [netSendIp,if_neg h2]
  simp only [arpResolve,hm]
  rw [ipWritten] at hsend
  rw [hsend]
  rfl

/-- A segment that fits the buffers, to a resolved address, is one frame that carries it. -/
theorem netSendTcp_sent (net : Net) (o : OutSegment) {i : Fin arpTableSize}
    (hm : arpLookup net.arpTable o.dstIp=some i) (hl : o.payload.length≤tcpPayloadMax) :
    ∃ f,(netSendTcp net o).2=⟨[f],true⟩ ∧ frameIpLength f=ipHdrLen+tcpHdrLen+o.payload.length ∧
      frameSeq f=o.seq ∧ frameFlags f=o.flags ∧ framePayload f=o.payload := by
  let mac := (net.arpTable i).mac
  let c := tcpChecksum netIpAddr o.dstIp (tcpHeader o 0++o.payload)
  let h := ipHeader ipProtoTcp o.dstIp net.ipId (tcpWritten o).length
  let pre := mac.bytes++ourMac.bytes++store16 (be16 ethertypeIp)++h (ipChecksum (h 0))
  have hpre : pre.length=ethHdrLen+ipHdrLen := by
    rw [List.length_append,ethHeader_length,ipHeader_length]
  have hf : ethWritten mac net.ipId o=pre++(tcpHeader o c++o.payload) :=
    (List.append_assoc ..).symm
  refine ⟨ethWritten mac net.ipId o,netSendTcp_written net o hm hl,?_,?_,?_,?_⟩
  · rw [frameIpLength,ethWritten_length,ipWritten_length]
    omega
  · have e : pre++(tcpHeader o c++o.payload)=
        (pre++(store16 (be16 o.srcPort)++store16 (be16 o.dstPort)))++
          (store32 (be32 o.seq)++(store32 (be32 o.ack)++[0x50,o.flags]++store16 (be16 4096)++
            store16 c++store16 0++o.payload)) := by
      simp [tcpHeader]
    rw [frameSeq,hf,e,load32_store32 _ _ _ (by simp [hpre]),be32_be32]
  · have e : pre++(tcpHeader o c++o.payload)=
        (pre++(store16 (be16 o.srcPort)++store16 (be16 o.dstPort)++store32 (be32 o.seq)++
          store32 (be32 o.ack)++[0x50]))++
          o.flags::(store16 (be16 4096)++store16 c++store16 0++o.payload) := by
      simp [tcpHeader]
    have hlen : (pre++(store16 (be16 o.srcPort)++store16 (be16 o.dstPort)++
        store32 (be32 o.seq)++store32 (be32 o.ack)++[0x50])).length=
        ethHdrLen+ipHdrLen+13 := by simp [hpre]
    rw [frameFlags,hf,e,← hlen,load8_append]
  · rw [framePayload,hf,← List.append_assoc]
    exact List.drop_left' (by simp [hpre])

/-- A longer one is dropped before anything is sent. -/
theorem netSendTcp_dropped (net : Net) (o : OutSegment) (hl : tcpPayloadMax<o.payload.length) :
    netSendTcp net o=(net,⟨[],false⟩) := by
  have h : o.payload.length>netBufSize-ethHdrLen-ipHdrLen-tcpHdrLen := hl
  rw [netSendTcp,if_pos h]

theorem netSendTcp_arpTable (net : Net) (o : OutSegment) :
    (netSendTcp net o).1.arpTable=net.arpTable := by
  simp only [netSendTcp,netSendIp]
  split_ifs
  · rfl
  · rfl
  · split
    · rfl
    · split <;> rfl

end Cllm.Network
