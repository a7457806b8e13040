import Cllm.Tcp.Lifecycle

namespace Cllm.Tcp

open Libc Network Http

theorem Transition.synReceived {rr : HttpRequest → HttpResponse} {s s' : TcpSocket}
    {seg : Segment} {es : List Effect} (h : Transition rr s seg s' es)
    (hs : s.state=.synReceived) :
    (seg.acks=false ∧ s'={s with ack := seg.seq+1} ∧
      es=[tcpSendCtrl {s with ack := seg.seq+1} (tcpFlagSyn|||tcpFlagAck)]) ∨
    (seg.acks=true ∧ s'={s with ack := seg.seq+1,state := .established,seq := seg.ack} ∧
      es=[tcpSendCtrl {s with ack := seg.seq+1,state := .established,seq := seg.ack}
        tcpFlagAck]) := by
  cases h with
  | synAck _ ha => exact .inl ⟨ha,rfl,rfl⟩
  | handshake _ ha => exact .inr ⟨ha,rfl,rfl⟩
  | default h1 => simp [hs] at h1
  | _ => simp_all [TcpState.Serving]

/-- The segment with which slot `i` answers the SYN `syn` under the number `iss`. -/
structure SynAckTo (syn : Segment) (iss : UInt32) (o : OutSegment) : Prop where
  flags : o.flags=tcpFlagSyn|||tcpFlagAck
  seq : o.seq=iss
  ack : o.ack=syn.seq+1
  srcPort : o.srcPort=syn.dstPort
  dstPort : o.dstPort=syn.srcPort

/-- After these actions the slot waits for the ACK of its SYN-ACK: it was free when `syn`
arrived, answered it, and has not left SYN_RECEIVED since. -/
inductive AwaitsAck (i : Slot) (syn : Segment) (iss : UInt32) : List Action → Prop
  | answered {as : List Action} {a : Action} {o : OutSegment}
      (free : ((run tcpInit as).sockets i).state=.closed)
      (arrives : (slotInput i (run tcpInit as) a).segment=some syn)
      (hsyn : syn.syn=true) (hack : syn.acks=false)
      (sends : effectsOn i (tcpStep (run tcpInit as) a).2=[.transmit o])
      (synAck : SynAckTo syn iss o) : AwaitsAck i syn iss (as++[a])
  | waits {as : List Action} {a : Action} (h : AwaitsAck i syn iss as)
      (state : ((run tcpInit (as++[a])).sockets i).state=.synReceived) :
      AwaitsAck i syn iss (as++[a])

theorem TcpState.not_before_synReceived (state : TcpState) : ¬state.Before .synReceived := by
  cases state <;> decide

theorem TcpState.before_established {state : TcpState} (h : state.Before .established) :
    state=.synReceived := by
  revert h
  cases state <;> decide

section Slots

variable (i : Slot) (s : TcpSocket) (x : SlotInput)

/-- A slot is in SYN_RECEIVED because it was, or because it has just answered a SYN. -/
theorem slotStep_synReceived (hx : Receives s x) (hl : s.state≠.lastAck)
    (h : (slotStep i s x).1.state=.synReceived) :
    s.state=.synReceived ∨ (s.state=.closed ∧ ∃ syn iss o,x.segment=some syn ∧ syn.syn=true ∧
      syn.acks=false ∧ (slotStep i s x).2=[.transmit o] ∧ SynAckTo syn iss o) := by
  cases x with
  | accept rr ip now seg =>
    right
    refine ⟨hx.1,seg,(synSocket i now ip seg).seq,?_⟩
    have ht := socketReceive_transition rr ip now (synSocket i now ip seg) seg
    rcases ht.synReceived rfl with ⟨ha,-,he⟩|⟨-,hs',-⟩
    · exact ⟨_,rfl,hx.2,ha,he,rfl,rfl,rfl,rfl,rfl⟩
    · rw [slotStep,hs'] at h
      cases h
  | deliver rr ip now seg =>
    rcases (socketReceive_transition rr ip now s seg).forward hl with he|hb
    · exact .inl (he.symm.trans h)
    · exact absurd (h ▸ hb) (TcpState.not_before_synReceived _)
  | idle => exact .inl h
  | tick now => exact .inl ((socketPeriodic_state now s).symm.trans h)

/-- A slot becomes ESTABLISHED on an ACK, out of SYN_RECEIVED or on its allocation. -/
theorem slotStep_established (hx : Receives s x) (hl : s.state≠.lastAck)
    (h : (slotStep i s x).1.state=.established) :
    s.state=.established ∨ ∃ seg,x.segment=some seg ∧ seg.acks=true ∧
      (s.state=.synReceived ∨ s.state=.closed) := by
  cases x with
  | accept rr ip now seg =>
    right
    have ht := socketReceive_transition rr ip now (synSocket i now ip seg) seg
    rcases ht.synReceived rfl with ⟨-,hs',-⟩|⟨ha,-,-⟩
    · rw [slotStep,hs'] at h
      cases h
    · exact ⟨seg,rfl,ha,.inr hx.1⟩
  | deliver rr ip now seg =>
    have ht := socketReceive_transition rr ip now s seg
    rcases ht.forward hl with he|hb
    · exact .inl (he.symm.trans h)
    · have hs : s.state=.synReceived := TcpState.before_established (h ▸ hb)
      rcases ht.synReceived hs with ⟨-,hs',-⟩|⟨ha,-,-⟩
      · rw [slotStep,hs'] at h
        cases hs.symm.trans h
      · exact .inr ⟨seg,rfl,ha,.inl hs⟩
  | idle => exact .inl h
  | tick now => exact .inl ((socketPeriodic_state now s).symm.trans h)

/-- In every run a slot in SYN_RECEIVED has answered a SYN and waits. -/
theorem awaitsAck_run (as : List Action) (h : ((run tcpInit as).sockets i).state=.synReceived) :
    ∃ syn iss,AwaitsAck i syn iss as := by
  induction as using List.reverseRecOn with
  | nil =>
    rw [run,Machine.runState_nil,tcpInit_sockets] at h
    split_ifs at h; cases h
  | append_singleton as a ih =>
    have hx := slotInput_receives i (run tcpInit as) a
    have hstep := h
    rw [run_concat,tcpStep_sockets] at hstep
    rcases slotStep_synReceived i _ _ hx (run_notLastAck i as) hstep with
      hs|⟨free,syn,iss,o,arrives,hsyn,hack,sends,hto⟩
    · obtain ⟨syn,iss,hw⟩ := ih hs
      exact ⟨syn,iss,.waits hw h⟩
    · rw [← tcpStep_effects] at sends
      exact ⟨syn,iss,.answered free arrives hsyn hack sends hto⟩

/-- A slot in use enters ESTABLISHED only on an ACK, and only when it has answered a SYN with a
SYN-ACK and has waited since. The numbers of the ACK are not checked. -/
theorem established_after_synAck (as : List Action) (a : Action)
    (hbefore : ((run tcpInit as).sockets i).state≠.established)
    (hafter : ((run tcpInit (as++[a])).sockets i).state=.established) :
    ∃ seg,(slotInput i (run tcpInit as) a).segment=some seg ∧ seg.acks=true ∧
      (((run tcpInit as).sockets i).state≠.closed → ∃ syn iss,AwaitsAck i syn iss as) := by
  have hx := slotInput_receives i (run tcpInit as) a
  rw [run_concat,tcpStep_sockets] at hafter
  rcases slotStep_established i _ _ hx (run_notLastAck i as) hafter with
    hs|⟨seg,hseg,hack,hs⟩
  · exact absurd hs hbefore
  · refine ⟨seg,hseg,hack,fun hopen => ?_⟩
    rcases hs with hs|hs
    · exact awaitsAck_run i as hs
    · exact absurd hs hopen

end Slots

theorem established_after_synAck_client :
    ∃ syn iss,AwaitsAck 1 syn iss [clientSends tcpFlagSyn 50 0 []] := by
  obtain ⟨seg,-,-,h⟩ := established_after_synAck 1 [clientSends tcpFlagSyn 50 0 []]
    (clientSends tcpFlagAck 51 1101 []) (by decide) (by decide)
  exact h (by decide)

/-- An RST with numbers of its own, and an ACK flag, completes the handshake. -/
theorem established_after_reset : ¬∀ (i : Slot) (as : List Action) (a : Action),
    ((run tcpInit as).sockets i).state≠.established →
    ((run tcpInit (as++[a])).sockets i).state=.established →
    ∃ syn iss seg,AwaitsAck i syn iss as ∧ (slotInput i (run tcpInit as) a).segment=some seg ∧
      seg.acks=true ∧ seg.syn=false ∧ seg.rst=false ∧ seg.seq=syn.seq+1 ∧ seg.ack=iss+1 := by
  intro h
  obtain ⟨syn,iss,seg,-,hseg,-,-,hrst,-⟩ := h 1 [clientSends tcpFlagSyn 50 0 []]
    (clientSends (tcpFlagAck|||tcpFlagRst) 999 0 []) (by decide) (by decide)
  have hs : (slotInput 1 (run tcpInit [clientSends tcpFlagSyn 50 0 []])
      (clientSends (tcpFlagAck|||tcpFlagRst) 999 0 [])).segment=
      some ⟨4000,httpPort,999,0,tcpFlagAck|||tcpFlagRst,[]⟩ := by decide
  obtain rfl := Option.some.inj (hs.symm.trans hseg)
  exact absurd hrst (by decide)

end Cllm.Tcp
