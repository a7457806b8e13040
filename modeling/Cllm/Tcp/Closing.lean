import Cllm.Tcp.Lifecycle

namespace Cllm.Tcp

open Libc Network Http

namespace Transition

variable {rr : HttpRequest → HttpResponse} {s s' : TcpSocket} {seg : Segment} {es : List Effect}

theorem finWait1 (h : Transition rr s seg s' es) (hs : s.state=.finWait1) :
    es=[] ∧ ((seg.fin=true ∧ s'={s with ack := s.ack+1,state := .timeWait}) ∨
      (seg.fin=false ∧ seg.acks=true ∧ s'={s with state := .finWait2}) ∨
      (seg.fin=false ∧ seg.acks=false ∧ s'=s)) := by
  cases h with
  | closing _ hf => exact ⟨rfl,.inl ⟨hf,rfl⟩⟩
  | finAcked _ hf ha => exact ⟨rfl,.inr (.inl ⟨hf,ha,rfl⟩)⟩
  | finIgnored _ hf ha => exact ⟨rfl,.inr (.inr ⟨hf,ha,rfl⟩)⟩
  | default h1 => simp [hs] at h1
  | _ => simp_all [TcpState.Serving]

theorem finWait2 (h : Transition rr s seg s' es) (hs : s.state=.finWait2) :
    (seg.fin=true ∧ s'=socketClose {s with ack := s.ack+1} ∧
      es=[tcpSendCtrl {s with ack := s.ack+1} tcpFlagAck]) ∨
    (seg.fin=false ∧ s'=s ∧ es=[]) := by
  cases h with
  | closed _ hf => exact .inl ⟨hf,rfl,rfl⟩
  | waiting _ hf => exact .inr ⟨hf,rfl,rfl⟩
  | default h1 => simp [hs] at h1
  | _ => simp_all [TcpState.Serving]

/-- TIME_WAIT has no branch of its own. -/
theorem timeWait (h : Transition rr s seg s' es) (hs : s.state=.timeWait) : s'=s ∧ es=[] := by
  cases h with
  | default => exact ⟨rfl,rfl⟩
  | _ => simp_all [TcpState.Serving]

end Transition

theorem socketPeriodic_idle {s : TcpSocket} (now : UInt32) (hs : s.state≠.synReceived) :
    socketPeriodic now s=(s,[]) := by
  rw [socketPeriodic,if_neg (fun h => hs h.1)]

section Steps

variable {i : Slot} {s : TcpSocket} {x : SlotInput}

theorem slotStep_finWait1 (hx : Receives s x) (hs : s.state=.finWait1) :
    (∃ seg,x.segment=some seg ∧ seg.fin=true ∧ (slotStep i s x).1.state=.timeWait) ∨
    (∃ seg,x.segment=some seg ∧ seg.fin=false ∧ seg.acks=true ∧
      (slotStep i s x).1.state=.finWait2 ∧ (slotStep i s x).1.ack=s.ack) ∨
    ((∀ seg,x.segment=some seg → seg.fin=false ∧ seg.acks=false) ∧
      (slotStep i s x).1.state=.finWait1 ∧ (slotStep i s x).1.ack=s.ack) := by
  cases x with
  | idle => exact .inr (.inr ⟨by simp [SlotInput.segment],hs,rfl⟩)
  | deliver rr ip now seg =>
    rw [slotStep]
    rcases ((socketReceive_transition rr ip now s seg).finWait1 hs).2 with
      ⟨hf,he⟩|⟨hf,ha,he⟩|⟨hf,ha,he⟩
    · exact .inl ⟨seg,rfl,hf,by rw [he]⟩
    · exact .inr (.inl ⟨seg,rfl,hf,ha,by rw [he],by rw [he]; rfl⟩)
    · refine .inr (.inr ⟨?_,by rw [he]; exact hs,by rw [he]; rfl⟩)
      rintro _ ⟨⟩
      exact ⟨hf,ha⟩
  | accept rr ip now seg => cases hs.symm.trans hx.1
  | tick now =>
    rw [slotStep,socketPeriodic_idle now (by rw [hs]; decide)]
    exact .inr (.inr ⟨by simp [SlotInput.segment],hs,rfl⟩)

theorem slotStep_finWait2 (hx : Receives s x) (hs : s.state=.finWait2) :
    (∃ seg o,x.segment=some seg ∧ seg.fin=true ∧ (slotStep i s x).1.state=.closed ∧
      (slotStep i s x).2=[.transmit o] ∧ o.flags=tcpFlagAck ∧ o.ack=s.ack+1) ∨
    ((∀ seg,x.segment=some seg → seg.fin=false) ∧
      (slotStep i s x).1.state=.finWait2 ∧ (slotStep i s x).1.ack=s.ack) := by
  cases x with
  | idle => exact .inr ⟨by simp [SlotInput.segment],hs,rfl⟩
  | deliver rr ip now seg =>
    rw [slotStep]
    rcases (socketReceive_transition rr ip now s seg).finWait2 hs with ⟨hf,he,hes⟩|⟨hf,he,-⟩
    · exact .inl ⟨seg,_,rfl,hf,by rw [he]; rfl,hes,rfl,rfl⟩
    · refine .inr ⟨?_,by rw [he]; exact hs,by rw [he]; rfl⟩
      rintro _ ⟨⟩
      exact hf
  | accept rr ip now seg => cases hs.symm.trans hx.1
  | tick now =>
    rw [slotStep,socketPeriodic_idle now (by rw [hs]; decide)]
    exact .inr ⟨by simp [SlotInput.segment],hs,rfl⟩

theorem slotStep_timeWait (hx : Receives s x) (hs : s.state=.timeWait) :
    (slotStep i s x).1.state=.timeWait := by
  cases x with
  | idle => exact hs
  | deliver rr ip now seg =>
    rw [slotStep,((socketReceive_transition rr ip now s seg).timeWait hs).1]
    exact hs
  | accept rr ip now seg => cases hs.symm.trans hx.1
  | tick now => exact (socketPeriodic_state now s).trans hs

end Steps

/-- The closing segments the server copes with: the first one with FIN or ACK is an ACK
without FIN, and a later one has FIN. -/
def acksThenFin : List Segment → Bool
  | [] => false
  | seg::segs =>
    if seg.fin then false else if seg.acks then segs.any (·.fin) else acksThenFin segs

theorem acksThenFin_append {segs : List Segment} (h : acksThenFin segs=true)
    (more : List Segment) : acksThenFin (segs++more)=true := by
  induction segs with
  | nil => cases h
  | cons seg segs ih =>
    simp only [List.cons_append,acksThenFin] at h ⊢
    split_ifs at h ⊢
    · simp [h]
    · exact ih h

/-- The connection is over: the slot is free, and the client's FIN has been acknowledged. -/
structure Finished (i : Slot) (t : TcpStack) (as : List Action) : Prop where
  closed : ((run t as).sockets i).state=.closed
  acked : ∀ seg∈segmentsTo i t as,seg.fin=true → ∃ o∈transmits (effectsOn i (events t as)),
    o.flags=tcpFlagAck ∧ o.ack=seg.seq+UInt32.ofNat seg.payload.length+1

section Runs

variable {i : Slot} {t : TcpStack}

theorem segmentsTo_cons (a : Action) (as : List Action) : segmentsTo i t (a::as)=
    (slotInput i t a).segment.toList++segmentsTo i (tcpStep t a).1 as := by
  change (slotInput i t a::slotInputs i (tcpStep t a).1 as).filterMap _=_
  rw [List.filterMap_cons]
  cases (slotInput i t a).segment <;> rfl

theorem segmentsTo_append (as bs : List Action) : segmentsTo i t (as++bs)=
    segmentsTo i t as++segmentsTo i (run t as) bs := by
  rw [segmentsTo,slotInputs,(slotComponent i).inputs_append,List.filterMap_append]
  rfl

/-- A slot in TIME_WAIT is lost. -/
theorem timeWait_run (hs : (t.sockets i).state=.timeWait) (as : List Action) :
    ((run t as).sockets i).state=.timeWait :=
  Machine.invariant_run tcpStep (fun t => (t.sockets i).state=.timeWait)
    (fun t a h => by
      rw [tcpStep_sockets]
      exact slotStep_timeWait (slotInput_receives i t a) h) hs as

theorem finWait2_closed {as : List Action} (hs : (t.sockets i).state=.finWait2)
    (hc : ((run t as).sockets i).state=.closed) : (segmentsTo i t as).any (·.fin)=true := by
  induction as generalizing t with
  | nil => cases hs.symm.trans hc
  | cons a as ih =>
    rw [segmentsTo_cons,List.any_append,Bool.or_eq_true]
    rcases slotStep_finWait2 (i := i) (slotInput_receives i t a) hs with
      ⟨seg,o,hseg,hf,-⟩|⟨-,hs',-⟩
    · left
      rw [hseg]
      simpa using hf
    · rw [← tcpStep_sockets] at hs'
      exact .inr (ih hs' hc)

theorem finWait1_closed {as : List Action} (hs : (t.sockets i).state=.finWait1)
    (hc : ((run t as).sockets i).state=.closed) : acksThenFin (segmentsTo i t as)=true := by
  induction as generalizing t with
  | nil => cases hs.symm.trans hc
  | cons a as ih =>
    rw [segmentsTo_cons]
    have hrun : ((run (tcpStep t a).1 as).sockets i).state=.closed := hc
    rcases slotStep_finWait1 (i := i) (slotInput_receives i t a) hs with
      ⟨seg,hseg,hf,hs'⟩|⟨seg,hseg,hf,ha,hs',-⟩|⟨hno,hs',-⟩
    · rw [← tcpStep_sockets] at hs'
      cases (timeWait_run hs' as).symm.trans hrun
    · rw [← tcpStep_sockets] at hs'
      simpa [hseg,acksThenFin,hf,ha] using finWait2_closed hs' hrun
    · rw [← tcpStep_sockets] at hs'
      cases hseg : (slotInput i t a).segment with
      | none => exact ih hs' hrun
      | some seg =>
        obtain ⟨hf,ha⟩ := hno seg hseg
        simpa [acksThenFin,hf,ha] using ih hs' hrun

theorem Finished.cons {a : Action} {as : List Action} (h : Finished i (tcpStep t a).1 as)
    (hno : ∀ seg,(slotInput i t a).segment=some seg → seg.fin=false) :
    Finished i t (a::as) := by
  refine ⟨h.closed,fun seg hseg hf => ?_⟩
  rw [segmentsTo_cons,List.mem_append] at hseg
  rcases hseg with hseg|hseg
  · rw [hno seg (by simpa using hseg)] at hf
    cases hf
  · obtain ⟨o,ho,hack⟩ := h.acked seg hseg hf
    refine ⟨o,?_,hack⟩
    rw [events,Machine.outputs_cons,effectsOn_append,transmits_append]
    exact List.mem_append_right _ ho

/-- The client's FIN comes where its data has ended. -/
def FinNext (ack : UInt32) (segs : List Segment) : Prop :=
  ∀ seg∈segs,seg.fin=true → seg.seq=ack ∧ seg.payload=[]

theorem finWait2_finishes {as : List Action} (hs : (t.sockets i).state=.finWait2)
    (hfin : FinNext (t.sockets i).ack (segmentsTo i t as))
    (h : (segmentsTo i t as).any (·.fin)=true) : ∃ bs,bs <+: as ∧ Finished i t bs := by
  induction as generalizing t with
  | nil => cases h
  | cons a as ih =>
    rw [segmentsTo_cons] at h hfin
    rcases slotStep_finWait2 (i := i) (slotInput_receives i t a) hs with
      ⟨seg,o,hseg,hf,hs',he,hflags,hack⟩|⟨hno,hs',hk⟩
    · rw [← tcpStep_sockets] at hs'
      rw [← tcpStep_effects] at he
      obtain ⟨hq,hp⟩ := hfin seg (by simp [hseg]) hf
      refine ⟨[a],⟨as,rfl⟩,hs',fun seg' hm _ => ⟨o,?_,hflags,?_⟩⟩
      · rw [events,Machine.outputs_cons,effectsOn_append,he]
        simp
      · obtain rfl : seg=seg' := by
          rw [segmentsTo_cons,hseg] at hm
          exact (List.mem_singleton.mp hm).symm
        rw [hack,hq,hp]
        simp
    · rw [← tcpStep_sockets] at hs' hk
      have h' : (segmentsTo i (tcpStep t a).1 as).any (·.fin)=true := by
        cases hseg : (slotInput i t a).segment with
        | none => simpa [hseg] using h
        | some seg => simpa [hseg,hno seg hseg] using h
      obtain ⟨bs,hbs,hfinished⟩ := ih hs'
        (fun seg hm => hk ▸ hfin seg (List.mem_append_right _ hm)) h'
      exact ⟨a::bs,(List.prefix_cons_inj a).mpr hbs,hfinished.cons hno⟩

theorem finWait1_finishes {as : List Action} (hs : (t.sockets i).state=.finWait1)
    (hfin : FinNext (t.sockets i).ack (segmentsTo i t as))
    (h : acksThenFin (segmentsTo i t as)=true) : ∃ bs,bs <+: as ∧ Finished i t bs := by
  induction as generalizing t with
  | nil => cases h
  | cons a as ih =>
    rw [segmentsTo_cons] at h hfin
    rcases slotStep_finWait1 (i := i) (slotInput_receives i t a) hs with
      ⟨seg,hseg,hf,-⟩|⟨seg,hseg,hf,ha,hs',hk⟩|⟨hno,hs',hk⟩
    · rw [hseg] at h
      simp [acksThenFin,hf] at h
    · rw [← tcpStep_sockets] at hs' hk
      have h' : (segmentsTo i (tcpStep t a).1 as).any (·.fin)=true := by
        simpa [hseg,acksThenFin,hf,ha] using h
      obtain ⟨bs,hbs,hfinished⟩ := finWait2_finishes hs'
        (fun seg hm => hk ▸ hfin seg (List.mem_append_right _ hm)) h'
      refine ⟨a::bs,(List.prefix_cons_inj a).mpr hbs,hfinished.cons fun seg' hseg' => ?_⟩
      obtain rfl := Option.some.inj (hseg.symm.trans hseg')
      exact hf
    · rw [← tcpStep_sockets] at hs' hk
      have h' : acksThenFin (segmentsTo i (tcpStep t a).1 as)=true := by
        cases hseg : (slotInput i t a).segment with
        | none => simpa [hseg] using h
        | some seg =>
          obtain ⟨hf,ha⟩ := hno seg hseg
          simpa [hseg,acksThenFin,hf,ha] using h
      obtain ⟨bs,hbs,hfinished⟩ := ih hs'
        (fun seg hm => hk ▸ hfin seg (List.mem_append_right _ hm)) h'
      exact ⟨a::bs,(List.prefix_cons_inj a).mpr hbs,
        hfinished.cons fun seg hseg => (hno seg hseg).1⟩

end Runs

/-- After the server's FIN a connection comes to its end, with the client's FIN acknowledged and
the slot free, exactly when the client first acknowledges and then sends its own FIN. -/
theorem finished_iff (i : Slot) (past as : List Action)
    (hs : ((run tcpInit past).sockets i).state=.finWait1)
    (hfin : FinNext ((run tcpInit past).sockets i).ack (segmentsTo i (run tcpInit past) as)) :
    (∃ bs,bs <+: as ∧ Finished i (run tcpInit past) bs) ↔
      acksThenFin (segmentsTo i (run tcpInit past) as)=true := by
  refine ⟨?_,finWait1_finishes hs hfin⟩
  rintro ⟨bs,⟨cs,rfl⟩,h⟩
  rw [segmentsTo_append]
  exact acksThenFin_append (finWait1_closed hs h.closed) _

theorem finished_iff_client : ∃ bs,bs <+: [clientSends tcpFlagAck 69 1205 [],
      clientSends (tcpFlagFin|||tcpFlagAck) 69 1205 []] ∧
    Finished 1 (run tcpInit (handshake++[getRequest])) bs :=
  (finished_iff 1 (handshake++[getRequest]) _ (by decide) (by unfold FinNext; decide +kernel)).mpr
    (by decide +kernel)

/-- A FIN that also acknowledges the server's FIN leaves the slot in TIME_WAIT. -/
theorem finished_not_combined : ¬∀ (i : Slot) (past as : List Action) (seg : Segment),
    ((run tcpInit past).sockets i).state=.finWait1 →
    segmentsTo i (run tcpInit past) as=[seg] → seg.flags=tcpFlagFin|||tcpFlagAck →
    seg.seq=((run tcpInit past).sockets i).ack →
    seg.ack=((run tcpInit past).sockets i).seq+1 → seg.payload=[] →
    ∃ bs,bs <+: as ∧ Finished i (run tcpInit past) bs := by
  intro h
  have hs : ((run tcpInit (handshake++[getRequest])).sockets 1).state=.finWait1 := by decide
  obtain ⟨bs,⟨cs,hcs⟩,hf⟩ := h 1 (handshake++[getRequest])
    [clientSends (tcpFlagFin|||tcpFlagAck) 69 1205 []]
    ⟨4000,httpPort,69,1205,tcpFlagFin|||tcpFlagAck,[]⟩ hs (by decide +kernel) rfl
    (by decide +kernel) (by decide +kernel) rfl
  have hno := acksThenFin_append (finWait1_closed hs hf.closed)
    (segmentsTo 1 (run (run tcpInit (handshake++[getRequest])) bs) cs)
  rw [← segmentsTo_append,hcs] at hno
  revert hno
  decide +kernel

end Cllm.Tcp
