import Mathlib.Algebra.Order.BigOperators.Group.List
import Cllm.Unikernel.Timer
import Cllm.Tcp.Echo

namespace Cllm.Unikernel

open Libc Network Http Tcp Api Machine OnesComplement

/-- An ARP packet that announces the host's own addresses and nothing else. -/
structure SoundArp (packet : List UInt8) : Prop where
  size : packet.length=arpPacketSize
  announces : arpSender packet=some (netIpAddr,ourMac)
  operation : be16 (load16 packet 6)=1 ∨ be16 (load16 packet 6)=2

/-- An IP packet of the host with checksums that sum to all ones: a TCP segment or an echo
reply. -/
structure SoundIp (packet : List UInt8) : Prop where
  source : ipSource packet=netIpAddr
  total_len : ipTotalLen packet=packet.length
  ip_sum : onesSum (bigWords (packet.take (ipHeaderLen packet)))=0xFFFF
  message :
    load8 packet 9=ipProtoTcp ∧ tcpSegment (packet.drop (ipHeaderLen packet))≠none ∧
      onesSum (bigWords (pseudoHeaderOf packet (packet.drop (ipHeaderLen packet))++
        packet.drop (ipHeaderLen packet)))=0xFFFF ∨
    load8 packet 9=ipProtoIcmp ∧ (icmpMessage packet)[0]?=some 0 ∧
      onesSum (bigWords (icmpMessage packet))=0xFFFF

structure Sound (frame : Frame) : Prop where
  fits : frame.length ≤ netBufSize
  source : (frame.drop ethAddrLen).take ethAddrLen=ourMac.bytes
  packet :
    (ethInput frame=.arp (frame.drop ethHdrLen) ∧ SoundArp (frame.drop ethHdrLen)) ∨
    (ethInput frame=.ip (frame.drop ethHdrLen) ∧ SoundIp (frame.drop ethHdrLen))

section Ethernet

variable (mac : Mac) (packet : List UInt8)

theorem frame_source (ethertype : UInt16) :
    ((mac.bytes++ourMac.bytes++store16 (be16 ethertype)++packet).drop ethAddrLen).take
      ethAddrLen=ourMac.bytes := by
  rw [List.append_assoc,List.append_assoc,List.drop_left' mac.size]
  exact List.take_left' ourMac.size

theorem frame_packet (ethertype : UInt16) :
    (mac.bytes++ourMac.bytes++store16 (be16 ethertype)++packet).drop ethHdrLen=packet := by
  apply List.drop_left'
  simp only [List.length_append,mac.size,ourMac.size,store16_length]
  rfl

/-- The dispatch finds an ARP packet behind the header of net_send_eth. -/
theorem ethInput_arp :
    ethInput (mac.bytes++ourMac.bytes++store16 (be16 ethertypeArp)++packet)=.arp packet := by
  let frame := mac.bytes++ourMac.bytes++store16 (be16 ethertypeArp)++packet
  have hpre : (mac.bytes++ourMac.bytes).length=12 := by
    rw [List.length_append,mac.size,ourMac.size]
    rfl
  have hlen : frame.length ≥ ethHdrLen := by
    simp only [frame,List.length_append,mac.size,ourMac.size,store16_length]
    show 6+6+2+packet.length ≥ 14
    omega
  have htype : load16 frame 12=be16 ethertypeArp := by
    have hat (k : Nat) : load8 frame (12+k)=load8 (store16 (be16 ethertypeArp)++packet) k := by
      show (mac.bytes++ourMac.bytes++store16 (be16 ethertypeArp)++packet).getD (12+k) 0=_
      rw [load8,List.append_assoc,List.getD_append_right _ _ _ _ (by omega),hpre,
        Nat.add_sub_cancel_left]
    have h0 := hat 0
    have h1 := hat 1
    rw [Nat.add_zero] at h0
    rw [load16,h0,h1]
    exact join16 _
  show ethInput frame=_
  rw [ethInput,if_pos hlen]
  simp only
  rw [htype,be16_be16,if_pos rfl]
  exact congrArg EthInput.arp (frame_packet mac packet ethertypeArp)

/-- A frame around a sound ARP packet. -/
theorem sound_arp {frame : Frame} (h : netSendEth ethertypeArp mac packet=some frame)
    (hp : SoundArp packet) : Sound frame := by
  rw [netSendEth] at h
  split_ifs at h
  obtain rfl := Option.some.inj h
  have hm := mac.size
  have ho := ourMac.size
  have hs := hp.size
  refine ⟨?_,frame_source mac packet _,.inl ⟨?_,?_⟩⟩
  · simp only [List.length_append,hm,ho,hs,store16_length]
    decide
  · rw [frame_packet]
    apply ethInput_arp
  · rwa [frame_packet]

/-- A frame around a sound IP packet. -/
theorem sound_ip {frame : Frame} (h : netSendEth ethertypeIp mac packet=some frame)
    (hp : SoundIp packet) : Sound frame := by
  have hsize := net_sizes
  rw [netSendEth] at h
  split_ifs at h with hl
  obtain rfl := Option.some.inj h
  refine ⟨?_,frame_source mac packet _,.inr ⟨?_,?_⟩⟩
  · rw [List.length_append,ethHeader_length]
    omega
  · rw [frame_packet]
    apply ethInput_ip
  · rwa [frame_packet]

end Ethernet

/-- The fields of an ARP packet that the host fills in. -/
theorem soundArp_of_fields {packet : List UInt8} (hl : packet.length=arpPacketSize)
    (hhardware : load16 packet 0=be16 1) (hprotocol : load16 packet 2=be16 ethertypeIp)
    (hsha : (packet.drop 8).take ethAddrLen=ourMac.bytes)
    (hip : load32 packet 14=be32 netIpAddr)
    (hop : load16 packet 6=be16 1 ∨ load16 packet 6=be16 2) : SoundArp packet := by
  refine ⟨hl,?_,?_⟩
  · have hlong : ¬packet.length < arpPacketSize := by omega
    have hmac : (⟨(packet.drop 8).take ethAddrLen,sha_length hlong⟩ : Mac)=ourMac := by
      rw [Buffer.mk.injEq]
      exact hsha
    rw [arpSender,dif_neg hlong,hhardware,hprotocol,hip,be16_be16,be16_be16,be32_be32,hmac]
    rfl
  · rcases hop with hop|hop
    · rw [hop,be16_be16]
      exact .inl rfl
    · rw [hop,be16_be16]
      exact .inr rfl

theorem arpRequest_sound (ip : UInt32) : SoundArp (arpRequest ip) :=
  soundArp_of_fields rfl (join16 _) (join16 _) rfl (join32 _) (.inl (join16 _))

theorem arpReply_sound (ip : UInt32) (mac : Mac) : SoundArp (arpReply ip mac) := by
  have hl : (arpReply ip mac).length=arpPacketSize := by
    simp only [arpReply,List.length_append,store16_length,store32_length,ourMac.size,mac.size]
    rfl
  exact soundArp_of_fields hl (join16 _) (join16 _) rfl (join32 _) (.inr (join16 _))

theorem ipWritten_sound (id : UInt16) (o : OutSegment) (hl : o.payload.length ≤ tcpPayloadMax) :
    SoundIp (ipWritten id o) := by
  obtain ⟨hihl,hsrc,-,hproto,hdrop⟩ := ipWritten_fields id o
  have hc := written_carries broadcastMac id o hl
  refine ⟨hsrc,ipWritten_totalLen id o hl,hc.ip_sum,.inl ⟨hproto,?_,?_⟩⟩
  · rw [hc.segment_eq,hc.fields]
    exact Option.some_ne_none _
  · rw [hc.segment_eq]
    exact hc.tcp_sum

theorem icmpReply_sound {table : ArpTable} {packet : List UInt8} (h : EchoRequest table packet)
    (hl : packet.length ≤ 2034) (id : UInt16) :
    SoundIp (icmpReply (ipSource packet) id (icmpMessage packet)) := by
  obtain ⟨frame,-,ha⟩ := icmpReply_answers h hl broadcastMac id
  exact ⟨ha.source,ha.total_len,ha.ip_sum,.inr ⟨rfl,ha.type,ha.icmp_sum⟩⟩

/-- What arp_resolve sends is one request, and only without an entry. -/
theorem arpResolve_frames {table : ArpTable} {ip : UInt32} {mac : Option Mac} {frames : List Frame}
    (h : arpResolve table ip=(mac,frames)) :
    (∀ f∈frames,Sound f) ∧ (mac≠none → frames=[]) ∧ frames.length ≤ 1 := by
  rw [arpResolve] at h
  split at h
  · obtain ⟨rfl,rfl⟩ := Prod.mk.inj h
    exact ⟨List.forall_mem_nil _,fun _ => rfl,Nat.zero_le _⟩
  · obtain ⟨rfl,rfl⟩ := Prod.mk.inj h
    refine ⟨?_,fun hne => absurd rfl hne,?_⟩
    · intro f hf
      exact sound_arp _ _ (Option.mem_toList.mp hf) (arpRequest_sound ip)
    · exact Option.length_toList_le

theorem netSendTcp_frames (net : Net) (o : OutSegment) :
    (∀ f∈(netSendTcp net o).2.frames,Sound f) ∧ (netSendTcp net o).2.frames.length ≤ 1 := by
  have hsize := net_sizes
  by_cases hl : tcpPayloadMax<o.payload.length
  · rw [netSendTcp_dropped net o hl]
    exact ⟨List.forall_mem_nil _,Nat.zero_le _⟩
  · have h1 : ¬o.payload.length>netBufSize-ethHdrLen-ipHdrLen-tcpHdrLen := hl
    have h2 : ¬(tcpWritten o).length>netBufSize-ethHdrLen-ipHdrLen := by
      rw [tcpWritten_length]
      omega
    rw [netSendTcp,if_neg h1]
    show (∀ f∈(netSendIp net ipProtoTcp o.dstIp (tcpWritten o)).2.frames,Sound f) ∧
      (netSendIp net ipProtoTcp o.dstIp (tcpWritten o)).2.frames.length ≤ 1
    rw [netSendIp,if_neg h2]
    simp only
    split
    · next frames hr =>
      obtain ⟨hsound,-,hone⟩ := arpResolve_frames hr
      exact ⟨hsound,hone⟩
    · next mac frames hr =>
      obtain ⟨-,hnone,-⟩ := arpResolve_frames hr
      obtain rfl := hnone (Option.some_ne_none _)
      split
      · exact ⟨List.forall_mem_nil _,Nat.zero_le _⟩
      · next frame hf =>
        refine ⟨?_,le_refl 1⟩
        intro f hm
        obtain rfl := List.mem_singleton.mp hm
        exact sound_ip mac _ hf (ipWritten_sound net.ipId o (by omega))

theorem sendAll_frames (net : Net) (os : List OutSegment) :
    (∀ f∈(sendAll net os).2,Sound f) ∧ (sendAll net os).2.length ≤ os.length := by
  induction os generalizing net with
  | nil => exact ⟨List.forall_mem_nil _,le_refl 0⟩
  | cons o os ih =>
    obtain ⟨hfirst,hone⟩ := netSendTcp_frames net o
    obtain ⟨hrest,hlen⟩ := ih (netSendTcp net o).1
    refine ⟨?_,?_⟩
    · intro f hf
      rcases List.mem_append.mp hf with hf|hf
      · exact hfirst f hf
      · exact hrest f hf
    · simp only [sendAll,List.length_append,List.length_cons]
      omega

theorem arpReceive_frames (packet : List UInt8) (table : ArpTable) :
    (∀ f∈(arpReceive packet table).2,Sound f) ∧ (arpReceive packet table).2.length ≤ 1 := by
  simp only [arpReceive]
  split_ifs
  · exact ⟨List.forall_mem_nil _,Nat.zero_le _⟩
  · exact ⟨List.forall_mem_nil _,Nat.zero_le _⟩
  · refine ⟨?_,Option.length_toList_le⟩
    intro f hf
    exact sound_arp _ _ (Option.mem_toList.mp hf) (arpReply_sound _ _)
  · exact ⟨List.forall_mem_nil _,Nat.zero_le _⟩

section Segments

variable {rr : HttpRequest → HttpResponse} {s s' : TcpSocket} {seg : Segment} {es : List Effect}

theorem answer_transmits (rr : HttpRequest → HttpResponse) (s : TcpSocket) (n : Nat) :
    (transmits (answer rr s n).2).length ≤ 2 := by
  have hr : transmits (respond rr s n).2=[] := by
    rcases respond_effects rr s n with h|⟨req,-,h⟩ <;> rw [h] <;> rfl
  have hs : (transmits (sendResponse s (respond rr s n).1).2).length ≤ 1 := by
    rcases sendResponse_eq s (respond rr s n).1 with ⟨data,hd⟩|hd
    · rw [hd]
      exact le_refl 1
    · rw [hd]
      exact Nat.zero_le _
  simp only [answer,transmits_append,hr,List.nil_append,List.length_append]
  show _+1 ≤ 2
  omega

theorem dataAck_transmits (s : TcpSocket) (seg : Segment) :
    (transmits (dataAck s seg)).length ≤ 1 := by
  rw [dataAck]
  split_ifs
  · exact le_refl 1
  · exact Nat.zero_le _

theorem stored_transmits (s : TcpSocket) (seg : Segment) : transmits (s.stored seg).2=[] := by
  rcases storePayload_effects (s.ackPayload seg) seg.payload with h|h <;> rw [h] <;> rfl

/-- A segment is answered by an ACK, the response and a FIN at most. -/
theorem transition_transmits (h : Transition rr s seg s' es) : (transmits es).length ≤ 3 := by
  have hack := dataAck_transmits (s.stored seg).1 seg
  have hstored := stored_transmits s seg
  cases h with
  | pending hs hd hr =>
    simp only [transmits_append,hstored,List.nil_append,List.length_append]
    split_ifs
    · show _+0 ≤ 3
      omega
    · show _+1 ≤ 3
      omega
  | answered n hs hd hr =>
    have hanswer := answer_transmits rr (s.stored seg).1 n
    simp only [transmits_append,hstored,List.nil_append,List.length_append]
    omega
  | synAck => exact Nat.le_of_ble_eq_true rfl
  | handshake => exact Nat.le_of_ble_eq_true rfl
  | fin => exact Nat.le_of_ble_eq_true rfl
  | secondFin => exact Nat.le_of_ble_eq_true rfl
  | closed => exact Nat.le_of_ble_eq_true rfl
  | _ => exact Nat.zero_le _

theorem emitted_map (slot : Option Slot) (es : List Effect) :
    emitted (es.map (⟨slot,·⟩))=transmits es := by
  rw [emitted,transmits,List.filterMap_map]
  rfl

theorem tcpInput_emits (rr : HttpRequest → HttpResponse) (ip : UInt32) (seg : Segment)
    (t : TcpStack) : (emitted (tcpInput rr ip seg t).2).length ≤ 3 := by
  simp only [tcpInput]
  split
  · rw [emitted_map]
    exact transition_transmits (socketReceive_transition ..)
  · rw [emitted_map]
    exact transition_transmits (socketReceive_transition ..)
  · split_ifs
    · exact Nat.zero_le _
    · exact Nat.le_of_ble_eq_true rfl

theorem socketPeriodic_transmits (now : UInt32) (s : TcpSocket) :
    (transmits (socketPeriodic now s).2).length ≤ 1 := by
  rw [socketPeriodic]
  split_ifs
  · exact le_refl 1
  · exact Nat.zero_le _

/-- The listener has no SYN-ACK to retransmit. -/
theorem tcpPeriodic_emits {t : TcpStack} (h : Standing t.sockets) :
    (emitted (tcpPeriodic t).2).length ≤ 3 := by
  have hlistener : (socketPeriodic (t.now+1) (t.sockets 0)).2=[] := by
    rw [socketPeriodic,if_neg]
    rw [h.listener.1]
    rintro ⟨hs,-⟩
    cases hs
  have h1 := socketPeriodic_transmits (t.now+1) (t.sockets 1)
  have h2 := socketPeriodic_transmits (t.now+1) (t.sockets 2)
  have h3 := socketPeriodic_transmits (t.now+1) (t.sockets 3)
  have hslots : List.finRange tcpMaxSockets=[0,1,2,3] := rfl
  have happend (x y : List Event) : emitted (x++y)=emitted x++emitted y :=
    List.filterMap_append
  simp only [tcpPeriodic,hslots,List.flatMap_cons,List.flatMap_nil,happend,emitted_map,
    hlistener,List.length_append]
  show 0+(_+(_+(_+0))) ≤ 3
  omega

end Segments

/-- A frame leads to three frames at most, and one within the receive buffer to sound ones. -/
theorem networkReceive_frames (rr : HttpRequest → HttpResponse) (frame : Frame) (h : Host) :
    (frame.length ≤ netBufSize → ∀ f∈(networkReceive rr frame h).2.frames,Sound f) ∧
      (networkReceive rr frame h).2.frames.length ≤ 3 := by
  have hsize := net_sizes
  simp only [networkReceive]
  split
  · exact ⟨fun _ => List.forall_mem_nil _,Nat.zero_le _⟩
  · next payload _ =>
    obtain ⟨hsound,hone⟩ := arpReceive_frames payload h.net.arpTable
    exact ⟨fun _ => hsound,hone.trans (by decide)⟩
  next packet hp =>
  have hpacket : frame.length ≤ netBufSize → packet.length ≤ 2034 := by
    intro hl
    rw [ethInput_packet hp,framePacket,List.length_drop]
    omega
  simp only [ipReceive]
  split
  · exact ⟨fun _ => List.forall_mem_nil _,Nat.zero_le _⟩
  · next src payload hin =>
    obtain ⟨hicmp,rfl,rfl⟩ := icmp_of_ipInput hin
    split_ifs with hecho
    · split
      · next mac frames hr =>
        obtain ⟨-,hnone,-⟩ := arpResolve_frames hr
        obtain rfl := hnone (Option.some_ne_none _)
        have hknown : (arpResolve h.net.arpTable (ipSource packet)).1≠none := by
          rw [hr]
          exact Option.some_ne_none _
        refine ⟨?_,Option.length_toList_le.trans (by decide)⟩
        intro hl f hf
        exact sound_ip mac _ (Option.mem_toList.mp hf)
          (icmpReply_sound ⟨hicmp,hecho.1,hecho.2,hknown⟩ (hpacket hl) h.icmpId)
      · next frames hr =>
        obtain ⟨hsound,-,hone⟩ := arpResolve_frames hr
        exact ⟨fun _ => hsound,hone.trans (by decide)⟩
    · exact ⟨fun _ => List.forall_mem_nil _,Nat.zero_le _⟩
  · next src payload hin =>
    obtain ⟨hsound,hlen⟩ := sendAll_frames h.net (emitted (tcpReceive rr src payload h.tcp).2)
    refine ⟨fun _ => hsound,hlen.trans ?_⟩
    rw [tcpReceive]
    split
    · exact Nat.zero_le _
    · apply tcpInput_emits
  · exact ⟨fun _ => List.forall_mem_nil _,Nat.zero_le _⟩

theorem kernelCall_frames {k : KernelState} (hk : k.host.Reachable) (input : KernelInput) :
    ((∀ f∈input.frames,f.length ≤ netBufSize) → ∀ f∈(kernelCall k input).2.frames,Sound f) ∧
      (kernelCall k input).2.frames.length ≤ 3 := by
  cases input with
  | frame environment frame =>
    obtain ⟨hsound,hlen⟩ := networkReceive_frames (handler environment k.api) frame k.host
    exact ⟨fun hl => hsound (hl frame (List.mem_singleton.mpr rfl)),hlen⟩
  | periodic =>
    obtain ⟨hsound,hlen⟩ := sendAll_frames k.host.net (emitted (tcpPeriodic k.host.tcp).2)
    exact ⟨fun _ => hsound,hlen.trans (tcpPeriodic_emits hk.standing)⟩

/-- What a run of the stack from boot leads to. -/
theorem kernel_outcomes {inputs : List KernelInput}
    (hl : ∀ input∈inputs,∀ f∈input.frames,f.length ≤ netBufSize) :
    ∀ outcome∈outputs kernelStep kernelInit inputs,
      (∀ f∈outcome.frames,Sound f) ∧ outcome.frames.length ≤ 3 := by
  intro outcome ho
  obtain ⟨pre,input,post,rfl,hin⟩ := mem_outputs ho
  obtain rfl := List.mem_singleton.mp hin
  obtain ⟨hsound,hlen⟩ := kernelCall_frames (kernel_reachable pre) input
  exact ⟨hsound (hl input (List.mem_append_right _ List.mem_cons_self)),hlen⟩

/-- What the NIC writes fits its buffer. -/
theorem written_fits (s : Rx) (as : List RxAction) :
    ∀ f∈written (outputs rxStep s as),f.length ≤ netBufSize := by
  intro f hf
  obtain ⟨e,he,hw⟩ := List.mem_filterMap.mp hf
  obtain ⟨pre,a,post,-,hin⟩ := mem_outputs he
  cases a with
  | nic frame report =>
    simp only [rxStep,nicReceive] at hin
    split_ifs at hin
    · cases hin
    · obtain rfl := List.mem_singleton.mp hin
      obtain rfl := Option.some.inj hw
      exact frame.2
  | driver =>
    have hnone := e1000ReceivePacket_written (runState rxStep s pre)
    have hmem : f∈written (e1000ReceivePacket (runState rxStep s pre)).2 :=
      List.mem_filterMap.mpr ⟨e,hin,hw⟩
    rw [hnone] at hmem
    cases hmem

/-- The calls of a run are one for each frame handed over and one for each tick. -/
theorem calls_length (inputs : List KernelInput) :
    inputs.length=(inputs.flatMap KernelInput.frames).length+
      inputs.countP fun input => match input with
        | .periodic => true
        | _ => false := by
  induction inputs with
  | nil => rfl
  | cons input inputs ih =>
    cases input with
    | frame environment frame =>
      simp only [List.length_cons,List.flatMap_cons,KernelInput.frames,List.length_append,
        List.countP_cons,List.length_nil]
      simp only [ih]
      show _=0+1+_+(_+0)
      omega
    | periodic =>
      simp only [List.length_cons,List.flatMap_cons,KernelInput.frames,List.length_append,
        List.countP_cons,List.length_nil]
      simp only [ih]
      show _=0+_+(_+1)
      omega

theorem kernel_outputs_length (k : KernelState) (inputs : List KernelInput) :
    (outputs kernelStep k inputs).length=inputs.length := by
  induction inputs generalizing k with
  | nil => rfl
  | cons input inputs ih => simp [kernelStep,ih]

/-- Every frame that the NIC puts on the wire in any run carries the host's own addresses and
checksums that hold, and there are at most three for each frame received and each tick. -/
theorem wire_sound (rxBuffers : Nat → Buffer rxBufferSize)
    (txBuffers : Nat → Buffer txBufferSize) (as : List LoopAction) :
    let es := outputs loopStep (loopInit rxBuffers txBuffers) as
    (∀ f∈sentFrames (txEvents es),Sound f) ∧
      (sentFrames (txEvents es)).length ≤
        3*((written (rxEvents es)).length+turns es/100000) := by
  intro es
  have houtcomes := outcomes_calls rxBuffers txBuffers as
  have hdispatched : dispatched es <+: written (rxEvents es) := dispatched_received ..
  have hsent : (sentFrames (txEvents es)).Sublist (output es) := sentFrames_sublist ..
  have hticks := (timed_run rxBuffers txBuffers as).periodic
  have hrx : rxEvents es=outputs rxStep (rxInit rxBuffers)
      (rxRefines.inputsOf (loopInit rxBuffers txBuffers) as) := rxRefines.seen_run ..
  have hfits : ∀ input∈calls es,∀ f∈input.frames,f.length ≤ netBufSize := by
    intro input hi f hf
    have hmem : f∈dispatched es := List.mem_flatMap.mpr ⟨input,hi,hf⟩
    have hwritten := hdispatched.subset hmem
    rw [hrx] at hwritten
    exact written_fits _ _ f hwritten
  have hall := kernel_outcomes hfits
  rw [← houtcomes] at hall
  refine ⟨?_,?_⟩
  · intro f hf
    obtain ⟨outcome,ho,hmem⟩ := List.mem_flatMap.mp (hsent.subset hf)
    exact (hall outcome ho).1 f hmem
  · have hcalls : (calls es).length=(dispatched es).length+ticks es := calls_length _
    have hone : (outcomes es).length=(calls es).length := by
      rw [houtcomes]
      apply kernel_outputs_length
    have hbound : (output es).length ≤ (outcomes es).length*3 := by
      rw [output,List.length_flatMap,← List.length_map (fun o => o.frames.length)]
      apply List.sum_le_card_nsmul
      intro n hn
      obtain ⟨outcome,ho,rfl⟩ := List.mem_map.mp hn
      exact (hall outcome ho).2
    have hreceived : (dispatched es).length ≤ (written (rxEvents es)).length :=
      hdispatched.length_le
    have hsublist : (sentFrames (txEvents es)).length ≤ (output es).length := hsent.length_le
    have hperiodic : ticks es=turns es/100000 := hticks
    omega

end Cllm.Unikernel
