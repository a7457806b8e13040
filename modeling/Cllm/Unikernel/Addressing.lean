import Cllm.Unikernel.Frames
import Cllm.Tcp.Delivery

namespace Cllm.Unikernel

open Libc Network Http Tcp Api Machine Cache

def arpPackets (frames : List Frame) : List (List UInt8) := frames.filterMap fun frame =>
  match ethInput frame with
  | .arp packet => some packet
  | _ => none

/-- The MACs that the ARP packets in these frames announce, in their order. -/
def heard (frames : List Frame) : List (UInt32 × Mac) := announced (arpPackets frames)

/-- An ARP request for everyone, or a frame for the MAC that was last heard of for the address in
the packet. -/
inductive Addressed (log : List (UInt32 × Mac)) (frame : Frame) : Prop
  | request (packet : List UInt8) (hp : ethInput frame=.arp packet)
      (hop : be16 (load16 packet 6)=1) (hd : frame.take ethAddrLen=broadcastMac.bytes)
  | reply (packet : List UInt8) (mac : Mac) (hp : ethInput frame=.arp packet)
      (hop : be16 (load16 packet 6)=2) (hm : latest (be32 (load32 packet 24)) log=some mac)
      (hd : frame.take ethAddrLen=mac.bytes)
  | ip (packet : List UInt8) (mac : Mac) (hp : ethInput frame=.ip packet)
      (hm : latest (ipDestination packet) log=some mac) (hd : frame.take ethAddrLen=mac.bytes)

theorem frame_destination (mac : Mac) (ethertype : UInt16) (packet : List UInt8) :
    (mac.bytes++ourMac.bytes++store16 (be16 ethertype)++packet).take ethAddrLen=mac.bytes := by
  rw [List.append_assoc,List.append_assoc]
  exact List.take_left' mac.size

section Sending

variable {table : ArpTable} {log : List (UInt32 × Mac)} {frame : Frame}

theorem addressed_ip {mac : Mac} {packet : List UInt8}
    (h : netSendEth ethertypeIp mac packet=some frame)
    (hm : latest (ipDestination packet) log=some mac) : Addressed log frame := by
  rw [netSendEth] at h
  split_ifs at h
  obtain rfl := Option.some.inj h
  exact .ip packet mac (ethInput_ip mac packet) hm (frame_destination mac _ packet)

/-- arp_resolve asks everyone, or gives the MAC heard last. -/
theorem arpResolve_addressed (hi : Informed table log) {ip : UInt32} {mac : Option Mac}
    {frames : List Frame} (h : arpResolve table ip=(mac,frames)) :
    (∀ f∈frames,Addressed log f) ∧ ∀ m,mac=some m → latest ip log=some m := by
  constructor
  · intro f hf
    rw [arpResolve] at h
    split at h
    · obtain ⟨-,rfl⟩ := Prod.mk.inj h
      cases hf
    · obtain ⟨-,rfl⟩ := Prod.mk.inj h
      have hsend := Option.mem_toList.mp hf
      rw [netSendEth] at hsend
      split_ifs at hsend
      obtain rfl := Option.some.inj hsend
      refine .request (arpRequest ip) (ethInput_arp _ _) ?_ (frame_destination _ _ _)
      have hop : load16 (arpRequest ip) 6=be16 1 := join16 _
      rw [hop,be16_be16]
  · rintro m rfl
    have hm : (arpResolve table ip).1=some m := by rw [h]
    obtain ⟨i,hslot⟩ := hi.resolve.mp hm
    exact hi.fresh i ip m hslot

theorem netSendTcp_addressed {net : Net} (hi : Informed net.arpTable log) (o : OutSegment) :
    ∀ f∈(netSendTcp net o).2.frames,Addressed log f := by
  have hsize := net_sizes
  by_cases hl : tcpPayloadMax<o.payload.length
  · rw [netSendTcp_dropped net o hl]
    exact List.forall_mem_nil _
  · have h1 : ¬o.payload.length>netBufSize-ethHdrLen-ipHdrLen-tcpHdrLen := hl
    have h2 : ¬(tcpWritten o).length>netBufSize-ethHdrLen-ipHdrLen := by
      rw [tcpWritten_length]
      omega
    rw [netSendTcp,if_neg h1]
    show ∀ f∈(netSendIp net ipProtoTcp o.dstIp (tcpWritten o)).2.frames,Addressed log f
    rw [netSendIp,if_neg h2]
    simp only
    split
    · next frames hr => exact (arpResolve_addressed hi hr).1
    · next mac frames hr =>
      obtain ⟨hrequests,hknown⟩ := arpResolve_addressed hi hr
      split
      · exact hrequests
      · next frame hf =>
        intro f hm
        rcases List.mem_append.mp hm with hm|hm
        · exact hrequests f hm
        · obtain rfl := List.mem_singleton.mp hm
          have hdst : ipDestination (ipWritten net.ipId o)=o.dstIp := (ipWritten_fields _ o).2.2.1
          apply addressed_ip hf
          show latest (ipDestination (ipWritten net.ipId o)) log=some mac
          rw [hdst]
          exact hknown mac rfl

theorem sendAll_addressed {net : Net} (hi : Informed net.arpTable log) (os : List OutSegment) :
    ∀ f∈(sendAll net os).2,Addressed log f := by
  induction os generalizing net with
  | nil => exact List.forall_mem_nil _
  | cons o os ih =>
    have hi' : Informed (netSendTcp net o).1.arpTable log := by rwa [netSendTcp_arpTable]
    intro f hf
    rcases List.mem_append.mp hf with hf|hf
    · exact netSendTcp_addressed hi o f hf
    · exact ih hi' f hf

/-- A reply goes to the sender of the request, whose MAC has just been stored. -/
theorem arpReceive_addressed {frames : List (List UInt8)} (packet : List UInt8) :
    ∀ f∈(arpReceive packet table).2,Addressed (announced (frames++[packet])) f := by
  intro f hf
  simp only [arpReceive] at hf
  split_ifs at hf with hshort hkind hasked
  · cases hf
  · cases hf
  · have hsender : arpSender packet=some (be32 (load32 packet 14),
        ⟨(packet.drop 8).take ethAddrLen,sha_length hshort⟩) := by
      rw [arpSender,dif_neg hshort,if_neg hkind]
    have hlog : announced (frames++[packet])=announced frames++[(be32 (load32 packet 14),
        ⟨(packet.drop 8).take ethAddrLen,sha_length hshort⟩)] := by simp [announced,hsender]
    rw [hlog]
    generalize be32 (load32 packet 14)=ip at *
    generalize (⟨(packet.drop 8).take ethAddrLen,sha_length hshort⟩ : Mac)=mac at *
    have hsend := Option.mem_toList.mp hf
    rw [netSendEth] at hsend
    split_ifs at hsend
    obtain rfl := Option.some.inj hsend
    refine .reply (arpReply ip mac) mac (ethInput_arp _ _) ?_ ?_ (frame_destination _ _ _)
    · have hop : load16 (arpReply ip mac) 6=be16 2 := join16 _
      rw [hop,be16_be16]
    · have hreply : arpReply ip mac=(store16 (be16 1)++store16 (be16 ethertypeIp)++[6,4]++
          store16 (be16 2)++ourMac.bytes++store32 (be32 netIpAddr)++mac.bytes)++
          (store32 (be32 ip)++[]) := by rw [List.append_nil,arpReply]
      have hpre : (store16 (be16 1)++store16 (be16 ethertypeIp)++[6,4]++store16 (be16 2)++
          ourMac.bytes++store32 (be32 netIpAddr)++mac.bytes).length=24 := by
        simp only [List.length_append,store16_length,store32_length,ourMac.size,mac.size]
        rfl
      rw [hreply,load32_store32 _ _ _ hpre,be32_be32]
      apply latest_concat_self
  · cases hf

end Sending

theorem heard_concat (frames : List Frame) (frame : Frame) : heard (frames++[frame])=
    match ethInput frame with
    | .arp packet => announced (arpPackets frames++[packet])
    | _ => heard frames := by
  rw [heard,arpPackets,List.filterMap_append]
  cases h : ethInput frame <;> simp [heard,arpPackets,h]

section Calls

variable {frames : List Frame} {h : Host}

/-- ip_receive does not touch the table. -/
theorem ipReceive_arpTable (rr : HttpRequest → HttpResponse) (packet : List UInt8) (h : Host) :
    (ipReceive rr packet h).1.net.arpTable=h.net.arpTable := by
  rw [ipReceive]
  split
  · rfl
  · simp only
    split_ifs
    · split <;> rfl
    · rfl
  · apply sendAll_arpTable
  · rfl

theorem ipReceive_addressed {log : List (UInt32 × Mac)} (hi : Informed h.net.arpTable log)
    (rr : HttpRequest → HttpResponse) (packet : List UInt8) :
    ∀ f∈(ipReceive rr packet h).2.frames,Addressed log f := by
  rw [ipReceive]
  split
  · exact List.forall_mem_nil _
  · next src payload hin =>
    simp only
    split_ifs
    · split
      · next mac frames hr =>
        obtain ⟨hrequests,hknown⟩ := arpResolve_addressed hi hr
        intro f hf
        rcases List.mem_append.mp hf with hf|hf
        · exact hrequests f hf
        · have hdst : ipDestination (icmpReply src h.icmpId payload)=src :=
            (ipHeader_fields ipProtoIcmp src h.icmpId payload.length _ _).2.2.1
          apply addressed_ip (Option.mem_toList.mp hf)
          rw [hdst]
          exact hknown mac rfl
      · next frames hr => exact (arpResolve_addressed hi hr).1
    · exact List.forall_mem_nil _
  · exact sendAll_addressed hi _
  · exact List.forall_mem_nil _

/-- The table knows what has been heard, the frame of the call included, and the frames that the
call gives out go where that says. -/
theorem networkReceive_addressed (hi : Informed h.net.arpTable (heard frames))
    (rr : HttpRequest → HttpResponse) (frame : Frame) :
    Informed (networkReceive rr frame h).1.net.arpTable (heard (frames++[frame])) ∧
      ∀ f∈(networkReceive rr frame h).2.frames,Addressed (heard (frames++[frame])) f := by
  rw [heard_concat,networkReceive]
  cases ethInput frame with
  | ignored => exact ⟨hi,List.forall_mem_nil _⟩
  | arp packet => exact ⟨hi.receive packet,arpReceive_addressed packet⟩
  | ip packet =>
    refine ⟨?_,ipReceive_addressed hi rr packet⟩
    show Informed (ipReceive rr packet h).1.net.arpTable _
    rwa [ipReceive_arpTable]

theorem kernelCall_addressed {k : KernelState} (hi : Informed k.host.net.arpTable (heard frames))
    (input : KernelInput) :
    Informed (kernelCall k input).1.host.net.arpTable (heard (frames++input.frames)) ∧
      ∀ f∈(kernelCall k input).2.frames,Addressed (heard (frames++input.frames)) f := by
  cases input with
  | frame environment frame => exact networkReceive_addressed hi (handler environment k.api) frame
  | periodic =>
    rw [KernelInput.frames,List.append_nil]
    refine ⟨?_,sendAll_addressed hi _⟩
    show Informed (sendAll k.host.net _).1.arpTable _
    rwa [sendAll_arpTable]

theorem kernel_informed (inputs : List KernelInput) :
    Informed (runState kernelStep kernelInit inputs).host.net.arpTable
      (heard (inputs.flatMap KernelInput.frames)) := by
  have hrun := history_along kernelStep
    (fun k inputs _ => Informed k.host.net.arpTable (heard (inputs.flatMap KernelInput.frames)))
    (P := fun _ _ => True) (fun k inputs _ input hi _ => by
      rw [List.flatMap_append,List.flatMap_singleton]
      exact (kernelCall_addressed hi input).1)
    (h := []) (o := []) (s := kernelInit) informed_init
    (along_of_forall _ (fun _ _ => trivial) _ inputs)
  simpa using hrun

end Calls

/-- Every frame that the NIC puts on the wire in any run comes from a call into the stack, and is
a broadcast ARP request or goes to the MAC that the frames received up to this call announced last
for the address that the frame is for. -/
theorem wire_addressed (rxBuffers : Nat → Buffer rxBufferSize)
    (txBuffers : Nat → Buffer txBufferSize) (as : List LoopAction) :
    let es := outputs loopStep (loopInit rxBuffers txBuffers) as
    ∀ f∈sentFrames (txEvents es),∃ before input,before++[input] <+: calls es ∧
      f∈(kernelCall (runState kernelStep kernelInit before) input).2.frames ∧
      (before++[input]).flatMap KernelInput.frames <+: written (rxEvents es) ∧
      Addressed (heard ((before++[input]).flatMap KernelInput.frames)) f := by
  intro es f hf
  have hdispatched : dispatched es <+: written (rxEvents es) := dispatched_received ..
  have hsent : (sentFrames (txEvents es)).Sublist (output es) := sentFrames_sublist ..
  obtain ⟨outcome,ho,hmem⟩ := List.mem_flatMap.mp (hsent.subset hf)
  have houtcomes : outcomes es=outputs kernelStep kernelInit (calls es) := outcomes_calls ..
  rw [houtcomes] at ho
  obtain ⟨before,input,after,hcalls,hin⟩ := mem_outputs ho
  obtain rfl := List.mem_singleton.mp hin
  have hmade : before++[input] <+: calls es := ⟨after,by simp [hcalls]⟩
  refine ⟨before,input,hmade,hmem,?_,?_⟩
  · obtain ⟨rest,hrest⟩ := hmade
    refine List.IsPrefix.trans ⟨rest.flatMap KernelInput.frames,?_⟩ hdispatched
    rw [← List.flatMap_append,hrest]
    rfl
  · rw [List.flatMap_append,List.flatMap_singleton]
    exact (kernelCall_addressed (kernel_informed before) input).2 f hmem

end Cllm.Unikernel
