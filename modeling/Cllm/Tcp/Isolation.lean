import Cllm.Tcp.Lifecycle

namespace Cllm.Tcp

open Libc Network Http

/-- The triple a connection is known by. -/
def TcpSocket.endpoint (s : TcpSocket) : UInt32 × UInt16 × UInt16 :=
  (s.remoteIp,s.remotePort,s.localPort)

/-- Neither CLOSED nor LISTEN. -/
structure TcpSocket.Connected (s : TcpSocket) : Prop where
  notClosed : s.state≠.closed
  notListen : s.state≠.listen

theorem stored_endpoint (s : TcpSocket) (seg : Segment) :
    (s.stored seg).1.endpoint=s.endpoint := by
  obtain ⟨b,n,h⟩ := storePayload_eq (s.ackPayload seg) seg.payload
  rw [TcpSocket.stored,h]
  rfl

theorem answer_endpoint (rr : HttpRequest → HttpResponse) (s : TcpSocket) (n : Nat) :
    (answer rr s n).1.endpoint=s.endpoint := by
  simp only [answer]
  rcases sendResponse_eq s (respond rr s n).1 with ⟨data,h⟩|h <;> rw [h] <;> rfl

namespace Transition

variable {rr : HttpRequest → HttpResponse} {s s' : TcpSocket} {seg : Segment} {es : List Effect}

/-- No segment changes whom a socket talks to. -/
theorem endpoint (h : Transition rr s seg s' es) : s'.endpoint=s.endpoint := by
  cases h with
  | pending => exact stored_endpoint s seg
  | answered n => exact (answer_endpoint rr _ n).trans (stored_endpoint s seg)
  | _ => rfl

/-- The listener keeps listening, and ignores what comes. -/
theorem listening (h : Transition rr s seg s' es) (hs : s.state=.listen) : s'=s := by
  cases h with
  | listen => rfl
  | default => rfl
  | _ => simp_all [TcpState.Serving]

end Transition

theorem touch_endpoint {s : TcpSocket} {ip now : UInt32} (h : s.remoteIp≠0) :
    (s.touch ip now).endpoint=s.endpoint := by
  simp [TcpSocket.endpoint,TcpSocket.touch,h]

/-- The endpoint of the connection a segment opens. -/
theorem accept_endpoint (rr : HttpRequest → HttpResponse) (i : Slot) (s : TcpSocket)
    (ip now : UInt32) (seg : Segment) :
    (slotStep i s (.accept rr ip now seg)).1.endpoint=(ip,seg.srcPort,seg.dstPort) := by
  have ht := (socketReceive_transition rr ip now (synSocket i now ip seg) seg).endpoint
  rw [slotStep,ht]
  exact congrArg (fun a => (a,seg.srcPort,seg.dstPort)) (ite_self ip)

theorem socketPeriodic_endpoint (now : UInt32) (s : TcpSocket) :
    (socketPeriodic now s).1.endpoint=s.endpoint := by
  rw [socketPeriodic]
  split_ifs <;> rfl

/-- A connection that is not opened by this input was there before, with the same endpoint. -/
theorem slotStep_endpoint (i : Slot) (s : TcpSocket) (x : SlotInput) (hx : Receives s x)
    (hna : ∀ rr ip now seg,x≠.accept rr ip now seg) (hnz : s.Connected → s.remoteIp≠0)
    (hc : (slotStep i s x).1.Connected) :
    s.Connected ∧ (slotStep i s x).1.endpoint=s.endpoint := by
  cases x with
  | idle => exact ⟨hc,rfl⟩
  | deliver rr ip now seg =>
    have ht := socketReceive_transition rr ip now s seg
    have hs : s.Connected := ⟨matches_notClosed hx,fun hl => hc.notListen (by
      rw [slotStep,ht.listening hl]; exact hl)⟩
    exact ⟨hs,ht.endpoint.trans (touch_endpoint (hnz hs))⟩
  | accept rr ip now seg => exact absurd rfl (hna rr ip now seg)
  | tick now =>
    have hst := socketPeriodic_state now s
    exact ⟨⟨fun h => hc.notClosed (hst.trans h),fun h => hc.notListen (hst.trans h)⟩,
      socketPeriodic_endpoint now s⟩

/-- The sources of the segments of an action have an address. -/
def Action.FromHost (a : Action) : Prop :=
  ∀ rr ip packet,a=.receive rr ip packet → ip≠0

/-- Connections have different endpoints, and each has its peer's address. -/
structure Isolated (sockets : Sockets) : Prop where
  address : ∀ i,(sockets i).Connected → (sockets i).remoteIp≠0
  unique : ∀ i j,i≠j → (sockets i).Connected → (sockets j).Connected →
    (sockets i).endpoint≠(sockets j).endpoint

/-- A slot is allocated for a segment when no connection has its endpoint. -/
theorem slotInput_accept {i : Slot} {t : TcpStack} {a : Action} {rr : HttpRequest → HttpResponse}
    {ip now : UInt32} {seg : Segment} (h : slotInput i t a=.accept rr ip now seg) :
    (∃ packet,a=.receive rr ip packet) ∧
      socketLookup t.sockets ip seg.srcPort seg.dstPort false=none ∧
      ∀ j,j≠i → slotInput j t a=.idle := by
  cases a with
  | periodic => cases h
  | receive rr' ip' packet =>
    simp only [slotInput] at h ⊢
    cases hseg : tcpSegment packet with
    | none => simp [hseg] at h
    | some seg' =>
      simp only [hseg] at h ⊢
      cases ht : target t.sockets ip' seg' with
      | found k =>
        rw [ht,segmentInput] at h
        split_ifs at h
      | allocated k =>
        rw [ht,segmentInput] at h
        split_ifs at h with hk
        obtain ⟨rfl,rfl,-,rfl⟩ := SlotInput.accept.inj h
        exact ⟨⟨packet,rfl⟩,(target_allocated ht).1,fun j hj => if_neg (hk ▸ hj.symm)⟩
      | nowhere =>
        rw [ht] at h
        cases h

theorem Isolated.step {t : TcpStack} (h : Isolated t.sockets) (a : Action) (ha : a.FromHost) :
    Isolated (tcpStep t a).1.sockets := by
  have kept (i : Slot) (hna : ∀ rr ip now seg,slotInput i t a≠.accept rr ip now seg)
      (hc : ((tcpStep t a).1.sockets i).Connected) :
      (t.sockets i).Connected ∧ ((tcpStep t a).1.sockets i).endpoint=(t.sockets i).endpoint := by
    rw [tcpStep_sockets] at hc ⊢
    exact slotStep_endpoint i _ _ (slotInput_receives i t a) hna (h.address i) hc
  -- a connection that is opened differs from all that are kept
  have opened (i j : Slot) (hij : j≠i) {rr ip now seg}
      (hi : slotInput i t a=.accept rr ip now seg)
      (hj : ((tcpStep t a).1.sockets j).Connected) :
      ((tcpStep t a).1.sockets i).endpoint≠((tcpStep t a).1.sockets j).endpoint := by
    obtain ⟨-,hnone,hidle⟩ := slotInput_accept hi
    have hsame : (tcpStep t a).1.sockets j=t.sockets j := by
      rw [tcpStep_sockets,hidle j hij]
      rfl
    rw [hsame] at hj ⊢
    rw [tcpStep_sockets,hi,accept_endpoint]
    intro he
    obtain ⟨h1,h2,h3⟩ : ip=(t.sockets j).remoteIp ∧ seg.srcPort=(t.sockets j).remotePort ∧
        seg.dstPort=(t.sockets j).localPort := by simpa [TcpSocket.endpoint] using he
    have hm := matches_iff.mpr ⟨hj.notClosed,h3.symm,h2.symm,.inr h1.symm⟩
    rw [socketLookup_none hnone j] at hm
    cases hm
  refine ⟨fun i hc => ?_,fun i j hij hi hj => ?_⟩
  · by_cases hacc : ∃ rr ip now seg,slotInput i t a=.accept rr ip now seg
    · obtain ⟨rr,ip,now,seg,hacc⟩ := hacc
      obtain ⟨⟨packet,rfl⟩,-⟩ := slotInput_accept hacc
      have he := accept_endpoint rr i (t.sockets i) ip now seg
      rw [← hacc,← tcpStep_sockets] at he
      rw [(Prod.mk.inj he).1]
      exact ha rr ip packet rfl
    · simp only [not_exists] at hacc
      obtain ⟨hs,he⟩ := kept i hacc hc
      rw [(Prod.mk.inj he).1]
      exact h.address i hs
  · by_cases hacc : ∃ rr ip now seg,slotInput i t a=.accept rr ip now seg
    · obtain ⟨rr,ip,now,seg,hacc⟩ := hacc
      exact opened i j hij.symm hacc hj
    by_cases hacc' : ∃ rr ip now seg,slotInput j t a=.accept rr ip now seg
    · obtain ⟨rr,ip,now,seg,hacc'⟩ := hacc'
      exact (opened j i hij hacc' hi).symm
    · simp only [not_exists] at hacc hacc'
      obtain ⟨hsi,hei⟩ := kept i hacc hi
      obtain ⟨hsj,hej⟩ := kept j hacc' hj
      rw [hei,hej]
      exact h.unique i j hij hsi hsj

theorem isolated_run (as : List Action) (ha : ∀ a∈as,a.FromHost) :
    Isolated (run tcpInit as).sockets := by
  have h0 : Isolated tcpInit.sockets := by
    have hno (i : Slot) : ¬(tcpInit.sockets i).Connected := by
      intro hc
      rw [tcpInit_sockets] at hc
      split_ifs at hc
      · exact hc.notListen rfl
      · exact hc.notClosed rfl
    exact ⟨fun i hc => absurd hc (hno i),fun i _ _ hc => absurd hc (hno i)⟩
  exact Machine.invariant_along tcpStep (fun t => Isolated t.sockets)
    (fun t a h ha => h.step a ha) h0 (Machine.along_of_mem tcpStep ha tcpInit)

/-- A listening slot was listening before, for the same remote port. -/
theorem slotStep_listen (i : Slot) (s : TcpSocket) (x : SlotInput) (hl : s.state≠.lastAck)
    (h : (slotStep i s x).1.state=.listen) :
    s.state=.listen ∧ (slotStep i s x).1.remotePort=s.remotePort := by
  have hnever {a : TcpState} : ¬a.Before .listen := by cases a <;> decide
  cases x with
  | idle => exact ⟨h,rfl⟩
  | deliver rr ip now seg =>
    have ht := socketReceive_transition rr ip now s seg
    rcases ht.forward hl with he|hb
    · exact ⟨he.symm.trans h,(Prod.mk.inj (Prod.mk.inj ht.endpoint).2).1⟩
    · exact absurd (h ▸ hb) hnever
  | accept rr ip now seg =>
    have hs : ((synSocket i now ip seg).touch ip now).state=.synReceived := rfl
    have ht := socketReceive_transition rr ip now (synSocket i now ip seg) seg
    rcases ht.forward (by rw [hs]; decide) with he|hb
    · rw [slotStep,he] at h
      cases h
    · exact absurd (h ▸ hb) hnever
  | tick now =>
    exact ⟨(socketPeriodic_state now s).symm.trans h,
      (Prod.mk.inj (Prod.mk.inj (socketPeriodic_endpoint now s)).2).1⟩

/-- The listener's remote port is the 0 tcp_init leaves there. -/
theorem run_listen (i : Slot) (as : List Action)
    (h : ((run tcpInit as).sockets i).state=.listen) :
    ((run tcpInit as).sockets i).remotePort=0 := by
  induction as using List.reverseRecOn with
  | nil =>
    rw [run,Machine.runState_nil,tcpInit_sockets]
    split_ifs <;> rfl
  | append_singleton as a ih =>
    rw [run_concat,tcpStep_sockets] at h ⊢
    obtain ⟨hs,hp⟩ := slotStep_listen i _ _ (run_notLastAck i as) h
    rw [hp,ih hs]

/-- Slot i is what tcp_receive allocates: the segment is a SYN to a listening port that matches
no slot, and i is the first closed one. -/
structure AllocatedFor (sockets : Sockets) (ip : UInt32) (seg : Segment) (i : Slot) : Prop where
  syn : seg.syn=true
  unmatched : ∀ j,(sockets j).matches ip seg.srcPort seg.dstPort false=false
  listening : ∃ j,(sockets j).state=.listen ∧ (sockets j).localPort=seg.dstPort
  closed : (sockets i).state=.closed
  first : ∀ j,j < i → (sockets j).state≠.closed

theorem listenerLookup_some {sockets : Sockets} {localPort : UInt16} {j : Slot}
    (h : listenerLookup sockets localPort=some j) :
    (sockets j).state=.listen ∧ (sockets j).localPort=localPort := by
  simpa using List.find?_some h

theorem socketAlloc_first {sockets table : Sockets} {i : Slot}
    (h : socketAlloc sockets=some (i,table)) : ∀ j,j < i → (sockets j).state≠.closed := by
  obtain ⟨k,hk,he⟩ := Option.map_eq_some_iff.mp h
  obtain rfl : k=i := (Prod.mk.inj he).1
  obtain ⟨-,n,hn,hnk,hbefore⟩ := List.find?_eq_some_iff_getElem.mp hk
  intro j hj
  have hjn : j.val<n := by
    rw [← hnk,List.getElem_finRange] at hj
    exact hj
  simpa using hbefore j.val hjn

theorem target_allocatedFor {sockets : Sockets} {ip : UInt32} {seg : Segment} {i : Slot}
    (h : target sockets ip seg=.allocated i) : AllocatedFor sockets ip seg i := by
  obtain ⟨hnone,hsyn,hclosed⟩ := target_allocated h
  rw [target,hnone] at h
  simp only [hsyn,if_true] at h
  split at h
  · next k hk =>
    split at h
    · next j table hj =>
      obtain rfl := Target.allocated.inj h
      exact ⟨hsyn,socketLookup_none hnone,⟨k,listenerLookup_some hk⟩,hclosed,
        socketAlloc_first hj⟩
    · cases h
  · cases h

section

variable {i : Slot} {t : TcpStack} {rr : HttpRequest → HttpResponse} {ip : UInt32}
  {packet : List UInt8} {seg : Segment}

/-- A slot that a segment changes is the one the segment goes to. -/
theorem receive_target (hseg : tcpSegment packet=some seg)
    (hc : (tcpStep t (.receive rr ip packet)).1.sockets i≠t.sockets i) :
    target t.sockets ip seg=.found i ∨ target t.sockets ip seg=.allocated i := by
  rw [tcpStep_sockets] at hc
  simp only [slotInput,hseg] at hc
  cases ht : target t.sockets ip seg with
  | found k =>
    rw [ht,segmentInput] at hc
    split_ifs at hc with hk
    · exact .inl (hk ▸ rfl)
    · exact absurd rfl hc
  | allocated k =>
    rw [ht,segmentInput] at hc
    split_ifs at hc with hk
    · exact .inr (hk ▸ rfl)
    · exact absurd rfl hc
  | nowhere =>
    rw [ht] at hc
    exact absurd rfl hc

theorem receive_changes_one {j : Slot} (hseg : tcpSegment packet=some seg)
    (hi : (tcpStep t (.receive rr ip packet)).1.sockets i≠t.sockets i)
    (hj : (tcpStep t (.receive rr ip packet)).1.sockets j≠t.sockets j) : i=j := by
  rcases receive_target hseg hi with ht|ht <;> rcases receive_target hseg hj with ht'|ht' <;>
    rw [ht] at ht'
  · exact Target.found.inj ht'
  · cases ht'
  · cases ht'
  · exact Target.allocated.inj ht'

/-- A slot that a segment changes was found for it, or is allocated for it and takes its
endpoint. -/
theorem receive_changes (hseg : tcpSegment packet=some seg)
    (hc : (tcpStep t (.receive rr ip packet)).1.sockets i≠t.sockets i) :
    (slotInput i t (.receive rr ip packet)=.deliver rr ip t.now seg ∧
      (t.sockets i).matches ip seg.srcPort seg.dstPort false=true) ∨
    (AllocatedFor t.sockets ip seg i ∧
      ((tcpStep t (.receive rr ip packet)).1.sockets i).endpoint=
        (ip,seg.srcPort,seg.dstPort)) := by
  rcases receive_target hseg hc with ht|ht
  · have hin : slotInput i t (.receive rr ip packet)=.deliver rr ip t.now seg := by
      simp only [slotInput,hseg,ht,segmentInput,if_true]
    exact .inl ⟨hin,target_found ht⟩
  · have hin : slotInput i t (.receive rr ip packet)=.accept rr ip t.now seg := by
      simp only [slotInput,hseg,ht,segmentInput,if_true]
    refine .inr ⟨target_allocatedFor ht,?_⟩
    rw [tcpStep_sockets,hin]
    exact accept_endpoint rr i (t.sockets i) ip t.now seg

end

/-- Connections are isolated. A segment changes at most one slot: one with its ports and an
address that is its own or unset, or the closed one that is allocated for it and takes its
endpoint. When all sources have an address, no two connections have the same endpoint, and only
the listener, on source port 0, lets itself be addressed by others. -/
theorem connections_isolated (as : List Action) (rr : HttpRequest → HttpResponse) (ip : UInt32)
    (packet : List UInt8) (seg : Segment) (hseg : tcpSegment packet=some seg) :
    (∀ i j,(run tcpInit (as++[.receive rr ip packet])).sockets i≠(run tcpInit as).sockets i →
      (run tcpInit (as++[.receive rr ip packet])).sockets j≠(run tcpInit as).sockets j → i=j) ∧
    (∀ i,(run tcpInit (as++[.receive rr ip packet])).sockets i≠(run tcpInit as).sockets i →
      ((run tcpInit as).sockets i).matches ip seg.srcPort seg.dstPort false=true ∨
      (AllocatedFor (run tcpInit as).sockets ip seg i ∧
        ((run tcpInit (as++[.receive rr ip packet])).sockets i).endpoint=
          (ip,seg.srcPort,seg.dstPort))) ∧
    ((∀ a∈as,a.FromHost) →
      (∀ i j,i≠j → ((run tcpInit as).sockets i).Connected →
        ((run tcpInit as).sockets j).Connected →
        ((run tcpInit as).sockets i).endpoint≠((run tcpInit as).sockets j).endpoint) ∧
      ∀ i,(run tcpInit (as++[.receive rr ip packet])).sockets i≠(run tcpInit as).sockets i →
        ((run tcpInit as).sockets i).endpoint=(ip,seg.srcPort,seg.dstPort) ∨
        (AllocatedFor (run tcpInit as).sockets ip seg i ∧
          ((run tcpInit (as++[.receive rr ip packet])).sockets i).endpoint=
            (ip,seg.srcPort,seg.dstPort)) ∨
        (((run tcpInit as).sockets i).state=.listen ∧ seg.srcPort=0 ∧
          (run tcpInit (as++[.receive rr ip packet])).sockets i=
            ((run tcpInit as).sockets i).touch ip (run tcpInit as).now)) := by
  rw [run_concat]
  refine ⟨fun i j => receive_changes_one hseg,
    fun i hc => (receive_changes hseg hc).imp And.right id,fun ha => ?_⟩
  have hiso := isolated_run as ha
  refine ⟨hiso.unique,fun i hc => ?_⟩
  rcases receive_changes hseg hc with ⟨hin,hm⟩|halloc
  · obtain ⟨hopen,hlp,hrp,haddr⟩ := matches_iff.mp hm
    by_cases hl : ((run tcpInit as).sockets i).state=.listen
    · refine .inr (.inr ⟨hl,hrp.symm.trans (run_listen i as hl),?_⟩)
      rw [tcpStep_sockets,hin]
      exact (socketReceive_transition rr ip _ _ seg).listening hl
    · left
      rcases haddr with hz|he
      · exact absurd hz (hiso.address i ⟨hopen,hl⟩)
      · rw [TcpSocket.endpoint,hlp,hrp,he]
  · exact .inr (.inl halloc)

/-- A client's SYN changes slot 1 alone, which was closed and takes the client's endpoint. -/
theorem connections_isolated_client :
    AllocatedFor tcpInit.sockets 0x0A000202 ⟨4000,httpPort,50,0,tcpFlagSyn,[]⟩ 1 ∧
      (run tcpInit [clientSends tcpFlagSyn 50 0 []]).sockets 2=tcpInit.sockets 2 ∧
      ((run tcpInit [clientSends tcpFlagSyn 50 0 []]).sockets 1).endpoint=
        (0x0A000202,4000,httpPort) := by
  have h := connections_isolated [] (fun _ => badRequest) 0x0A000202
    (Segment.packet ⟨4000,httpPort,50,0,tcpFlagSyn,[]⟩) _ (tcpSegment_packet _)
  have hone : (run tcpInit [clientSends tcpFlagSyn 50 0 []]).sockets 1≠tcpInit.sockets 1 := by
    intro he
    exact absurd (congrArg TcpSocket.state he) (by decide)
  rcases h.2.1 1 hone with hm|⟨halloc,hend⟩
  · exact absurd hm (by decide)
  · refine ⟨halloc,?_,hend⟩
    by_contra htwo
    exact absurd (h.1 1 2 hone htwo) (by decide)

/-- With a source address of zero, two connections come to the same endpoint; and the listener
takes the address of a segment from port 0. -/
theorem connections_not_isolated :
    (¬∀ (as : List Action) (i j : Slot),i≠j → ((run tcpInit as).sockets i).Connected →
      ((run tcpInit as).sockets j).Connected →
      ((run tcpInit as).sockets i).endpoint≠((run tcpInit as).sockets j).endpoint) ∧
    ¬∀ (as : List Action) (rr : HttpRequest → HttpResponse) (ip : UInt32) (packet : List UInt8)
      (seg : Segment) (i : Slot),tcpSegment packet=some seg →
      (run tcpInit (as++[.receive rr ip packet])).sockets i≠(run tcpInit as).sockets i →
      ((run tcpInit as).sockets i).endpoint=(ip,seg.srcPort,seg.dstPort) ∨
      ((run tcpInit as).sockets i).state=.closed := by
  let sends (ip : UInt32) (port : UInt16) (flags : UInt8) : Action :=
    .receive (fun _ => badRequest) ip (Segment.packet ⟨port,httpPort,0,0,flags,[]⟩)
  refine ⟨fun h => ?_,fun h => ?_⟩
  · let as := [sends 1 5000 tcpFlagSyn,sends 2 4000 tcpFlagSyn,sends 1 5000 tcpFlagAck,
      sends 1 5000 tcpFlagFin,sends 1 5000 tcpFlagFin,sends 0 4000 tcpFlagSyn,
      sends 2 4000 tcpFlagAck]
    exact h as 1 2 (by decide) ⟨by decide,by decide⟩ ⟨by decide,by decide⟩ (by decide)
  · rcases h [] (fun _ => badRequest) 1 (Segment.packet ⟨0,httpPort,0,0,tcpFlagAck,[]⟩) _ 0
      (tcpSegment_packet _) (by
        intro he
        exact absurd (congrArg TcpSocket.remoteIp he) (by decide)) with h|h
    · exact absurd h (by decide)
    · exact absurd h (by decide)

end Cllm.Tcp
