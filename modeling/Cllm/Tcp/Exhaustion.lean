import Cllm.Tcp.HalfOpen

namespace Cllm.Tcp

open Libc Network Http

/-- The slot is in use, and will not come free: it listens, or is in TIME_WAIT, which nothing
leaves, or its peer sends nothing in this run. -/
structure Stuck (t : TcpStack) (bs : List Action) (i : Slot) : Prop where
  taken : (t.sockets i).state≠.closed
  silent : (t.sockets i).state=.listen ∨ (t.sockets i).state=.timeWait ∨ segmentsTo i t bs=[]

/-- A segment that belongs to no slot is refused with an RST, and gets no slot. -/
def TurnsAway (t : TcpStack) (a : Action) : Prop :=
  ∀ rr ip packet seg,a=.receive rr ip packet → tcpSegment packet=some seg →
    socketLookup t.sockets ip seg.srcPort seg.dstPort false=none →
    tcpStep t a=(t,if seg.rst then [] else [⟨none,.transmit (rstSegment ip seg)⟩])

section Steps

variable {t : TcpStack} {i : Slot} {a : Action}

theorem socketAlloc_none {sockets : Sockets} (h : ∀ i,(sockets i).state≠.closed) :
    socketAlloc sockets=none := by
  rw [socketAlloc,Option.map_eq_none_iff,List.find?_eq_none]
  intro i _
  simpa using h i

/-- Without a free slot there is none for a new connection. -/
theorem turnsAway_of_taken (h : ∀ i,(t.sockets i).state≠.closed) (a : Action) : TurnsAway t a := by
  rintro rr ip packet seg rfl hseg hlookup
  have hnowhere : target t.sockets ip seg=.nowhere := by
    rw [target,hlookup,socketAlloc_none h]
    cases listenerLookup t.sockets seg.dstPort <;> simp
  rw [tcpStep,tcpReceive,hseg]
  exact tcpInput_nowhere hnowhere rr

/-- What a stuck slot does: nothing, but for the SYN-ACKs of a half-open one. -/
theorem Stuck.step (h : Stuck t [a] i) :
    ((tcpStep t a).1.sockets i).state=(t.sockets i).state ∧
      ((t.sockets i).state=.synReceived →
        synAckOf ((tcpStep t a).1.sockets i)=synAckOf (t.sockets i)) ∧
      ∀ e∈effectsOn i (tcpStep t a).2,(t.sockets i).state=.synReceived ∧
        e=synAckOf (t.sockets i) := by
  rw [tcpStep_sockets,tcpStep_effects]
  have hx := slotInput_receives i t a
  have hsilent := h.silent
  rw [segmentsTo_cons,List.append_eq_nil_iff,Option.toList_eq_nil_iff] at hsilent
  cases hin : slotInput i t a with
  | idle => exact ⟨rfl,fun _ => rfl,by simp [slotStep]⟩
  | tick now =>
    rw [slotStep]
    refine ⟨socketPeriodic_state now _,fun _ => ?_,?_⟩
    · rw [socketPeriodic]
      split_ifs <;> rfl
    · rw [socketPeriodic]
      split_ifs with hlate
      · simpa [synAckOf] using hlate.1
      · simp
  | accept rr ip now seg =>
    rw [hin] at hx
    exact absurd hx.1 h.taken
  | deliver rr ip now seg =>
    rw [hin] at hsilent
    rcases hsilent with hs|hs|hs
    · have hstep : slotStep i (t.sockets i) (.deliver rr ip now seg)=
          ((t.sockets i).touch ip now,[]) := by
        rw [slotStep,socketReceive]
        simp only [TcpSocket.touch,hs]
      rw [hstep]
      exact ⟨rfl,fun hno => absurd (hs.symm.trans hno) (by decide),by simp⟩
    · obtain ⟨hsock,heff⟩ :=
        (socketReceive_transition rr ip now (t.sockets i) seg).timeWait hs
      rw [slotStep,hsock,heff]
      exact ⟨rfl,fun hno => absurd (hs.symm.trans hno) (by decide),by simp⟩
    · exact absurd hs.1 (by simp [SlotInput.segment])

/-- What belongs to no slot is an RST. -/
theorem tcpStep_unowned {e : Event} (he : e∈(tcpStep t a).2) (hn : e.slot=none) :
    ∃ ip seg,e=⟨none,.transmit (rstSegment ip seg)⟩ := by
  have owned {j : Slot} {es : List Effect} (he : e∈es.map (⟨some j,·⟩)) : False := by
    obtain ⟨x,-,rfl⟩ := List.mem_map.mp he
    cases hn
  cases a with
  | periodic =>
    obtain ⟨j,-,hj⟩ := List.mem_flatMap.mp he
    exact (owned hj).elim
  | receive rr ip packet =>
    simp only [tcpStep,tcpReceive] at he
    cases hseg : tcpSegment packet with
    | none => simp [hseg] at he
    | some seg =>
      simp only [hseg,tcpInput] at he
      cases ht : target t.sockets ip seg with
      | found j =>
        simp only [ht] at he
        exact (owned he).elim
      | allocated j =>
        simp only [ht] at he
        exact (owned he).elim
      | nowhere =>
        simp only [ht] at he
        split_ifs at he
        · cases he
        · exact ⟨ip,seg,List.mem_singleton.mp he⟩

theorem mem_effectsOn {es : List Event} {e : Event} (he : e∈es) (hi : e.slot=some i) :
    e.effect∈effectsOn i es := by
  rw [effectsOn,List.mem_filterMap]
  exact ⟨e,he,by rw [if_pos hi]⟩

end Steps

/-- An RST, or a SYN-ACK of a half-open slot of `t`. -/
def Futile (t : TcpStack) (e : Event) : Prop :=
  (∃ ip seg,e=⟨none,.transmit (rstSegment ip seg)⟩) ∨
    ∃ i,(t.sockets i).state=.synReceived ∧ e=⟨some i,synAckOf (t.sockets i)⟩

theorem Stuck.futile {t : TcpStack} {a : Action} (h : ∀ i,Stuck t [a] i) :
    ∀ e∈(tcpStep t a).2,Futile t e := by
  intro e he
  cases hslot : e.slot with
  | none => exact .inl (tcpStep_unowned he hslot)
  | some i =>
    obtain ⟨hs,heff⟩ := (h i).step.2.2 e.effect (mem_effectsOn he hslot)
    refine .inr ⟨i,hs,?_⟩
    rw [← hslot,← heff]

/-- As long as all slots are stuck nobody is served: every slot stays in its state, whoever has
none is refused, and nothing but RSTs and SYN-ACKs of half-open slots is sent. -/
theorem stuck_run (t : TcpStack) (bs : List Action) (h : ∀ i,Stuck t bs i) :
    (∀ i,((run t bs).sockets i).state=(t.sockets i).state) ∧ Machine.Along tcpStep TurnsAway t bs ∧
      ∀ e∈events t bs,Futile t e := by
  induction bs generalizing t with
  | nil => exact ⟨fun _ => rfl,trivial,by simp⟩
  | cons b bs ih =>
    have hfirst (i : Slot) : Stuck t [b] i := by
      refine ⟨(h i).taken,(h i).silent.imp_right (Or.imp_right fun hq => ?_)⟩
      rw [segmentsTo_cons,List.append_eq_nil_iff] at hq
      rw [segmentsTo_cons,hq.1]
      rfl
    have hstate (i : Slot) : ((tcpStep t b).1.sockets i).state=(t.sockets i).state :=
      (hfirst i).step.1
    have hrest (i : Slot) : Stuck (tcpStep t b).1 bs i := by
      refine ⟨by rw [hstate]; exact (h i).taken,?_⟩
      rw [hstate]
      refine (h i).silent.imp_right (Or.imp_right fun hq => ?_)
      rw [segmentsTo_cons,List.append_eq_nil_iff] at hq
      exact hq.2
    obtain ⟨hstates,haway,hfutile⟩ := ih (tcpStep t b).1 hrest
    refine ⟨fun i => (hstates i).trans (hstate i),
      ⟨turnsAway_of_taken (fun i => (h i).taken) b,haway⟩,fun e he => ?_⟩
    rcases List.mem_append.mp he with he|he
    · exact Stuck.futile hfirst e he
    · apply (hfutile e he).imp_right
      rintro ⟨i,hs,rfl⟩
      rw [hstate] at hs
      exact ⟨i,hs,by rw [(hfirst i).step.2.1 hs]⟩

/-- A SYN from this port of 10.0.2.2, and nothing after it. -/
def syn (srcPort : UInt16) : Action :=
  .receive (fun _ => badRequest) 0x0A000202 (synPacket srcPort).packet

example : ∀ e∈events (run tcpInit [syn 1,syn 2,syn 3]) [syn 4,.periodic,.periodic,syn 5],
      Futile (run tcpInit [syn 1,syn 2,syn 3]) e :=
  (stuck_run _ _ fun i => ⟨by revert i; decide,by revert i; decide⟩).2.2

/-- Once every slot but that of the listener is in TIME_WAIT the server answers whatever arrives
with RSTs, for ever. -/
theorem timeWait_exhausts (as bs : List Action)
    (h : ∀ i,i≠0 → ((run tcpInit as).sockets i).state=.timeWait) :
    (∀ i,i≠0 → ((run tcpInit (as++bs)).sockets i).state=.timeWait) ∧
      Machine.Along tcpStep TurnsAway (run tcpInit as) bs ∧
      ∀ e∈events (run tcpInit as) bs,∃ ip seg,e=⟨none,.transmit (rstSegment ip seg)⟩ := by
  have hlistener : ((run tcpInit as).sockets 0).state=.listen :=
    (Machine.invariant_run tcpStep (fun t => Standing t.sockets) (fun _ a h => h.step a)
      standing_init as).listener.1
  have hstuck (i : Slot) : Stuck (run tcpInit as) bs i := by
    by_cases hi : i=0
    · subst hi
      exact ⟨by rw [hlistener]; decide,.inl hlistener⟩
    · exact ⟨by rw [h i hi]; decide,.inr (.inl (h i hi))⟩
  obtain ⟨hstates,haway,hfutile⟩ := stuck_run _ bs hstuck
  refine ⟨fun i hi => ?_,haway,fun e he => ?_⟩
  · rw [run,Machine.runState_append]
    exact (hstates i).trans (h i hi)
  · rcases hfutile e he with hrst|⟨i,hs,-⟩
    · exact hrst
    · by_cases hi : i=0
      · subst hi
        cases hlistener.symm.trans hs
      · cases (h i hi).symm.trans hs

/-- A connection from this port of 10.0.2.2 with an empty request, which the client closes with
FIN and ACK in one segment when it has the response. -/
def visit (srcPort : UInt16) : List Action :=
  let sends (flags : UInt8) (payload : List UInt8) : Action :=
    .receive (fun _ => badRequest) 0x0A000202
      (Segment.packet ⟨srcPort,httpPort,0,0,flags,payload⟩)
  [sends tcpFlagSyn [],sends tcpFlagAck [],sends tcpFlagAck (cstr "\r\n\r\n"),
    sends (tcpFlagFin|||tcpFlagAck) []]

/-- Three such connections are enough. -/
theorem timeWait_exhausts_visits :
    Machine.Along tcpStep TurnsAway (run tcpInit (visit 1++visit 2++visit 3)) (visit 4) ∧
      ∀ e∈events (run tcpInit (visit 1++visit 2++visit 3)) (visit 4),
        ∃ ip seg,e=⟨none,.transmit (rstSegment ip seg)⟩ :=
  (timeWait_exhausts (visit 1++visit 2++visit 3) (visit 4) (by decide +kernel)).2

end Cllm.Tcp
