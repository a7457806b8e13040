import Cllm.Tcp.Isolation
import Cllm.Tcp.Stream

namespace Cllm.Tcp

open Libc Network Http

/-- What a receive buffer holds: less than it could, nothing once the connection has stopped
serving, and never a complete request. -/
structure Tidy (s : TcpSocket) : Prop where
  short : s.rxLen<tcpRxBufSize
  empty : ¬s.state.Serving → s.rxLen=0
  unanswered : ¬crlfCrlf <:+: s.received

/-- Slot 0 listens, the other slots are closed or in some state of a connection to HTTP_PORT,
and all receive buffers are tidy. -/
structure Standing (sockets : Sockets) : Prop where
  listener : (sockets 0).state=.listen ∧ (sockets 0).localPort=httpPort
  states : ∀ i,i≠0 → (sockets i).state∈lifecycle
  ports : ∀ i,(sockets i).state≠.closed → (sockets i).localPort=httpPort
  tidy : ∀ i,Tidy (sockets i)

theorem empty_received {s : TcpSocket} (h : s.rxLen=0) : ¬crlfCrlf <:+: s.received := by
  rw [TcpSocket.received,h,List.take_zero]
  decide

theorem Tidy.of_empty {s : TcpSocket} (h : s.rxLen=0) : Tidy s :=
  ⟨by rw [h]; decide,fun _ => h,empty_received h⟩

theorem Tidy.congr {s s' : TcpSocket} (h : Tidy s) (h1 : s'.state=s.state) (h2 : s'.rxBuf=s.rxBuf)
    (h3 : s'.rxLen=s.rxLen) : Tidy s' :=
  ⟨h3 ▸ h.short,fun hs => h3 ▸ h.empty (h1 ▸ hs),by
    rw [TcpSocket.received,h2,h3]; exact h.unanswered⟩

/-- What is stored still fits. -/
theorem stored_short {s : TcpSocket} (seg : Segment) (h : s.rxLen<tcpRxBufSize) :
    (s.stored seg).1.rxLen<tcpRxBufSize := by
  rcases storePayload_cases (s.ackPayload seg) seg.payload with ⟨-,hroom,-,hl,-⟩|⟨-,he⟩
  · rw [TcpSocket.stored,hl]
    exact hroom
  · rw [TcpSocket.stored,he]
    exact h

/-- Whatever a segment does to a socket, its buffer stays tidy: a branch that leaves bytes in it
has looked for a request in all of them. -/
theorem Transition.tidy {rr : HttpRequest → HttpResponse} {s s' : TcpSocket} {seg : Segment}
    {es : List Effect} (h : Transition rr s seg s' es) (ht : Tidy s) : Tidy s' := by
  have serves (state : TcpState) (hs : s.state.Serving) (hs' : state.Serving) :
      Tidy {s with state := state} :=
    ⟨ht.short,fun hn => absurd hs' hn,ht.unanswered⟩
  have quiet {s' : TcpSocket} (hn : ¬s.state.Serving) (hl : s'.rxLen=s.rxLen) : Tidy s' :=
    .of_empty (hl.trans (ht.empty hn))
  have idle {state : TcpState} (hs : s.state=state) (hn : ¬state.Serving) : ¬s.state.Serving :=
    hs ▸ hn
  cases h with
  | listen hs => exact ht
  | synAck hs => exact ht.congr rfl rfl rfl
  | handshake hs =>
    have hno := idle hs (by simp [TcpState.Serving])
    exact quiet hno rfl
  | straySyn hs => exact ht
  | fin hs =>
    have hcw := serves .closeWait (.inl hs) (.inr rfl)
    exact hcw.congr rfl rfl rfl
  | secondFin hs => exact .of_empty rfl
  | noAck hs => exact ht.congr rfl rfl rfl
  | pending hs hd hr =>
    rw [findRequestEnd_eq,Search.firstEnd_eq_none_iff] at hr
    have hst := stored_state s seg
    exact ⟨stored_short seg ht.short,fun hn => absurd (hst.symm ▸ hs) hn,hr⟩
  | answered n hs hd hr => exact .of_empty rfl
  | closing hs =>
    have hno := idle hs (by simp [TcpState.Serving])
    exact quiet hno rfl
  | finAcked hs =>
    have hno := idle hs (by simp [TcpState.Serving])
    exact quiet hno rfl
  | finIgnored hs => exact ht
  | closed hs => exact .of_empty rfl
  | waiting hs => exact ht
  | lastAck hs => exact .of_empty rfl
  | lastAckIgnored hs => exact ht
  | default hs => exact ht

theorem slotStep_tidy (i : Slot) (s : TcpSocket) (x : SlotInput) (h : Tidy s) :
    Tidy (slotStep i s x).1 := by
  cases x with
  | idle => exact h
  | deliver rr ip now seg =>
    have ht := socketReceive_transition rr ip now s seg
    exact ht.tidy (h.congr rfl rfl rfl)
  | accept rr ip now seg =>
    have ht := socketReceive_transition rr ip now (synSocket i now ip seg) seg
    exact ht.tidy (.of_empty rfl)
  | tick now =>
    rw [slotStep,socketPeriodic]
    split_ifs
    · exact h.congr rfl rfl rfl
    · exact h

/-- A slot is allocated for a segment to a port that some slot listens on. -/
theorem target_listener {sockets : Sockets} {ip : UInt32} {seg : Segment} {i : Slot}
    (h : target sockets ip seg=.allocated i) :
    ∃ j,(sockets j).state=.listen ∧ (sockets j).localPort=seg.dstPort := by
  rw [target] at h
  split at h
  · cases h
  · split_ifs at h
    split at h
    · next j hj =>
      have hfound := List.find?_some hj
      exact ⟨j,by simpa using hfound⟩
    · cases h

theorem slotInput_listener {i : Slot} {t : TcpStack} {a : Action} {rr : HttpRequest → HttpResponse}
    {ip now : UInt32} {seg : Segment} (h : slotInput i t a=.accept rr ip now seg) :
    ∃ j,(t.sockets j).state=.listen ∧ (t.sockets j).localPort=seg.dstPort := by
  cases a with
  | periodic => cases h
  | receive rr' ip' packet =>
    rw [slotInput] at h
    cases hseg : tcpSegment packet with
    | none => simp [hseg] at h
    | some seg' =>
      simp only [hseg] at h
      cases ht : target t.sockets ip' seg' with
      | found k =>
        rw [ht,segmentInput] at h
        split_ifs at h
      | allocated k =>
        rw [ht,segmentInput] at h
        split_ifs at h
        obtain ⟨rfl,rfl,-,rfl⟩ := SlotInput.accept.inj h
        exact target_listener ht
      | nowhere =>
        rw [ht] at h
        cases h

/-- Only an allocation sets a slot's port. -/
theorem slotStep_port (i : Slot) (s : TcpSocket) (x : SlotInput) :
    (slotStep i s x).1.localPort=s.localPort ∨
      ∃ rr ip now seg,x=.accept rr ip now seg ∧ (slotStep i s x).1.localPort=seg.dstPort := by
  have port {s s' : TcpSocket} (h : s'.endpoint=s.endpoint) : s'.localPort=s.localPort :=
    (Prod.mk.inj (Prod.mk.inj h).2).2
  cases x with
  | idle => exact .inl rfl
  | deliver rr ip now seg =>
    have ht := socketReceive_transition rr ip now s seg
    have hp : (slotStep i s (.deliver rr ip now seg)).1.localPort=(s.touch ip now).localPort :=
      port ht.endpoint
    exact .inl hp
  | accept rr ip now seg =>
    have hacc := accept_endpoint rr i s ip now seg
    exact .inr ⟨rr,ip,now,seg,rfl,(Prod.mk.inj (Prod.mk.inj hacc).2).2⟩
  | tick now => exact .inl (port (socketPeriodic_endpoint now s))

theorem slotStep_opened (i : Slot) (s : TcpSocket) (x : SlotInput) (hx : Receives s x)
    (hc : (slotStep i s x).1.state≠.closed) :
    s.state≠.closed ∨ ∃ rr ip now seg,x=.accept rr ip now seg := by
  cases x with
  | idle => exact .inl hc
  | deliver rr ip now seg => exact .inl (matches_notClosed hx)
  | accept rr ip now seg => exact .inr ⟨rr,ip,now,seg,rfl⟩
  | tick now =>
    have hst := socketPeriodic_state now s
    exact .inl fun hs => hc (hst.trans hs)

/-- A slot that is not the listener stays in the life of a connection. -/
theorem slotStep_lifecycle (i : Slot) (s : TcpSocket) (x : SlotInput) (hx : Receives s x)
    (h : s.state∈lifecycle) : (slotStep i s x).1.state∈lifecycle := by
  have hl : s.state≠.lastAck := by
    intro hl
    rw [hl] at h
    exact absurd h (by decide)
  rcases slotStep_known i s x hx (.inr h) with hlisten|hk
  · obtain ⟨hs,-⟩ := slotStep_listen i s x hl hlisten
    rw [hs] at h
    exact absurd h (by decide)
  · exact hk

theorem slotStep_listener (i : Slot) (s : TcpSocket) (x : SlotInput) (hx : Receives s x)
    (h : s.state=.listen) :
    (slotStep i s x).1.state=.listen ∧ (slotStep i s x).1.localPort=s.localPort := by
  cases x with
  | idle => exact ⟨h,rfl⟩
  | deliver rr ip now seg =>
    have ht := socketReceive_transition rr ip now s seg
    rw [slotStep,ht.listening h]
    exact ⟨h,rfl⟩
  | accept rr ip now seg =>
    have hfree : s.state=.closed := hx.1
    cases h.symm.trans hfree
  | tick now =>
    have hst := socketPeriodic_state now s
    have hend := socketPeriodic_endpoint now s
    exact ⟨hst.trans h,(Prod.mk.inj (Prod.mk.inj hend).2).2⟩

/-- Every call into the stack keeps it standing. -/
theorem Standing.step {t : TcpStack} (h : Standing t.sockets) (a : Action) :
    Standing (tcpStep t a).1.sockets := by
  have received (i : Slot) := slotInput_receives i t a
  -- only slot 0 listens, so a slot is allocated for HTTP_PORT
  have onlyHttp {j : Slot} (hj : (t.sockets j).state=.listen) :
      (t.sockets j).localPort=httpPort :=
    h.ports j (by rw [hj]; decide)
  refine ⟨?_,fun i hi => ?_,fun i hc => ?_,fun i => ?_⟩
  · rw [tcpStep_sockets]
    obtain ⟨hs,hp⟩ := slotStep_listener 0 _ _ (received 0) h.listener.1
    exact ⟨hs,hp.trans h.listener.2⟩
  · rw [tcpStep_sockets]
    exact slotStep_lifecycle i _ _ (received i) (h.states i hi)
  · rw [tcpStep_sockets] at hc ⊢
    rcases slotStep_port i (t.sockets i) (slotInput i t a) with hp|⟨rr,ip,now,seg,hx,hp⟩
    · rcases slotStep_opened i _ _ (received i) hc with ho|⟨rr,ip,now,seg,hx⟩
      · exact hp.trans (h.ports i ho)
      · obtain ⟨j,hj,hport⟩ := slotInput_listener hx
        have hacc := accept_endpoint rr i (t.sockets i) ip now seg
        rw [hx,(Prod.mk.inj (Prod.mk.inj hacc).2).2,← hport]
        exact onlyHttp hj
    · obtain ⟨j,hj,hport⟩ := slotInput_listener hx
      rw [hp,← hport]
      exact onlyHttp hj
  · rw [tcpStep_sockets]
    exact slotStep_tidy i _ _ (h.tidy i)

theorem standing_init : Standing tcpInit.sockets := by
  have closed {i : Slot} (hi : i≠0) : tcpInit.sockets i=.zero := by
    rw [tcpInit_sockets,if_neg hi]
  have listening : tcpInit.sockets 0=
      {TcpSocket.zero with state := .listen,localPort := httpPort,localIp := netIpAddr} := by
    rw [tcpInit_sockets,if_pos rfl]
  have empty (i : Slot) : (tcpInit.sockets i).rxLen=0 := by
    rw [tcpInit_sockets]
    split_ifs <;> rfl
  refine ⟨by rw [listening]; exact ⟨rfl,rfl⟩,fun i hi => ?_,fun i hc => ?_,
    fun i => .of_empty (empty i)⟩
  · rw [closed hi]
    decide
  · by_cases hi : i=0
    · rw [hi,listening]
    · rw [closed hi] at hc
      exact absurd rfl hc

/-- The stack stands in every state that calls of any kind lead to from tcp_init. -/
theorem run_standing (as : List Action) : Standing (run tcpInit as).sockets :=
  Machine.invariant_run tcpStep (fun t => Standing t.sockets) (fun _ a h => h.step a)
    standing_init as

end Cllm.Tcp
