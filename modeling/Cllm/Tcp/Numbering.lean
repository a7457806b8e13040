import Cllm.Tcp.Closing
import Cllm.Tcp.Handshake
import Cllm.Tcp.Stream

namespace Cllm.Tcp

open Libc Network Http

def sentSyn (o : OutSegment) : Bool := o.flags&&&tcpFlagSyn≠0
def sentFin (o : OutSegment) : Bool := o.flags&&&tcpFlagFin≠0

/-- The sequence space of a segment, but for a SYN. -/
def occupies (o : OutSegment) : Nat := o.payload.length+if sentFin o then 1 else 0

/-- The sequence space of what has been sent; a SYN-ACK counts once, however often it went. -/
def occupied (os : List OutSegment) : Nat :=
  (if os.any sentSyn then 1 else 0)+(os.map occupies).sum

/-- Segments sent after `os`: each SYN has the number `iss`, and each other one the number that
follows all that was sent before it. -/
def Numbered (iss : UInt32) : (os : List OutSegment) → List OutSegment → Prop
  | _,[] => True
  | os,o::rest =>
    o.seq=(if sentSyn o then iss else iss+UInt32.ofNat (occupied os)) ∧
      Numbered iss (os++[o]) rest

instance decidableNumbered (iss : UInt32) :
    (os rest : List OutSegment) → Decidable (Numbered iss os rest)
  | _,[] => .isTrue trivial
  | os,o::rest =>
    haveI := decidableNumbered iss (os++[o]) rest
    inferInstanceAs (Decidable (_ ∧ _))

theorem sentSyn_eq {o : OutSegment} (flags : UInt8) (h : o.flags=flags) :
    sentSyn o=decide (flags&&&tcpFlagSyn≠0) := by rw [sentSyn,h]

theorem sentFin_eq {o : OutSegment} (flags : UInt8) (h : o.flags=flags) :
    sentFin o=decide (flags&&&tcpFlagFin≠0) := by rw [sentFin,h]

theorem numbered_append {iss : UInt32} (os x y : List OutSegment) :
    Numbered iss os (x++y) ↔ Numbered iss os x ∧ Numbered iss (os++x) y := by
  induction x generalizing os with
  | nil => simp [Numbered]
  | cons o x ih => simp [Numbered,ih,and_assoc]

theorem numbered_one {iss : UInt32} (os : List OutSegment) (o : OutSegment) :
    Numbered iss os [o] ↔
      o.seq=if sentSyn o then iss else iss+UInt32.ofNat (occupied os) := by
  simp [Numbered]

theorem occupied_concat {o : OutSegment} (ho : sentSyn o=false) (os : List OutSegment) :
    occupied (os++[o])=occupied os+occupies o := by
  simp [occupied,ho]
  omega

theorem occupied_syn {o : OutSegment} (hw : occupies o=0) {os : List OutSegment}
    (hs : os.any sentSyn=true) : occupied (os++[o])=occupied os := by
  simp only [occupied,List.any_append,hs,Bool.true_or,List.map_append,List.sum_append,
    List.map_cons,List.map_nil,hw,List.sum_cons,List.sum_nil]
  rfl

/-- Segments that only acknowledge, all under one number. -/
def PureAcks (seq : UInt32) (os : List OutSegment) : Prop :=
  ∀ o∈os,o.flags=tcpFlagAck ∧ o.payload=[] ∧ o.seq=seq

theorem PureAcks.append {seq : UInt32} {x y : List OutSegment} (hx : PureAcks seq x)
    (hy : PureAcks seq y) : PureAcks seq (x++y) := fun o ho =>
  (List.mem_append.mp ho).elim (hx o) (hy o)

/-- They occupy nothing, so they are in order when the first is. -/
theorem PureAcks.numbered {iss seq : UInt32} {x os : List OutSegment} (h : PureAcks seq x)
    (hq : seq=iss+UInt32.ofNat (occupied os)) :
    Numbered iss os x ∧ occupied (os++x)=occupied os := by
  induction x generalizing os with
  | nil => exact ⟨trivial,by rw [List.append_nil]⟩
  | cons o x ih =>
    obtain ⟨⟨hf,hp,ho⟩,hx⟩ := List.forall_mem_cons.mp h
    have hsyn : sentSyn o=false := (sentSyn_eq _ hf).trans (by decide)
    have hw : occupies o=0 := by
      have hfin : sentFin o=false := (sentFin_eq _ hf).trans (by decide)
      simp [occupies,hp,hfin]
    have hocc : occupied (os++[o])=occupied os := by rw [occupied_concat hsyn,hw]; rfl
    obtain ⟨hn,ho'⟩ := ih hx (show seq=iss+UInt32.ofNat (occupied (os++[o])) by rw [hocc,hq])
    refine ⟨⟨by rw [hsyn,ho,hq]; rfl,hn⟩,?_⟩
    rw [← List.append_cons] at ho'
    rw [ho',hocc]

theorem pureAcks_ctrl (s : TcpSocket) : PureAcks s.seq (transmits [tcpSendCtrl s tcpFlagAck]) := by
  intro o ho
  obtain rfl : o=ctrlSegment s tcpFlagAck := by simpa [tcpSendCtrl] using ho
  exact ⟨rfl,rfl,rfl⟩

theorem stored_seq (s : TcpSocket) (seg : Segment) : (s.stored seg).1.seq=s.seq := by
  simp [TcpSocket.stored,TcpSocket.ackPayload]

theorem pureAcks_stored (s : TcpSocket) (seg : Segment) :
    PureAcks s.seq (transmits ((s.stored seg).2++dataAck (s.stored seg).1 seg)) := by
  rw [transmits_stored,dataAck]
  split_ifs
  · exact stored_seq s seg ▸ pureAcks_ctrl (s.stored seg).1
  · intro o ho
    simp at ho

/-- What an answer sends: the response, when there is one, and FIN behind it. -/
theorem answer_sends (rr : HttpRequest → HttpResponse) (s : TcpSocket) (n : Nat) :
    ∃ data fin,transmits (answer rr s n).2=data++[fin] ∧ sentSyn fin=false ∧
      sentFin fin=true ∧ fin.payload=[] ∧ fin.seq=(answer rr s n).1.seq ∧
      ((data=[] ∧ (answer rr s n).1.seq=s.seq) ∨ ∃ d,data=[d] ∧ sentSyn d=false ∧
        sentFin d=false ∧ d.seq=s.seq ∧
        (answer rr s n).1.seq=s.seq+UInt32.ofNat d.payload.length) := by
  have hfs (s : TcpSocket) : sentSyn (ctrlSegment s (tcpFlagFin|||tcpFlagAck))=false :=
    (sentSyn_eq (tcpFlagFin|||tcpFlagAck) rfl).trans (by decide)
  have hff (s : TcpSocket) : sentFin (ctrlSegment s (tcpFlagFin|||tcpFlagAck))=true :=
    (sentFin_eq (tcpFlagFin|||tcpFlagAck) rfl).trans (by decide)
  rw [transmits_answer,answer]
  rcases sendResponse_eq s (respond rr s n).1 with ⟨data,h⟩|h
  · rw [h]
    exact ⟨_,_,rfl,hfs _,hff _,rfl,rfl,.inr ⟨_,rfl,
      (sentSyn_eq (tcpFlagAck|||tcpFlagPsh) rfl).trans (by decide),
      (sentFin_eq (tcpFlagAck|||tcpFlagPsh) rfl).trans (by decide),rfl,rfl⟩⟩
  · rw [h]
    exact ⟨_,_,rfl,hfs _,hff _,rfl,rfl,.inl ⟨rfl,rfl⟩⟩

theorem sentSyn_synAck (s : TcpSocket) :
    sentSyn (ctrlSegment s (tcpFlagSyn|||tcpFlagAck))=true ∧
      occupies (ctrlSegment s (tcpFlagSyn|||tcpFlagAck))=0 := by
  refine ⟨(sentSyn_eq (tcpFlagSyn|||tcpFlagAck) rfl).trans (by decide),?_⟩
  have hf : sentFin (ctrlSegment s (tcpFlagSyn|||tcpFlagAck))=false :=
    (sentFin_eq (tcpFlagSyn|||tcpFlagAck) rfl).trans (by decide)
  rw [occupies,hf]
  rfl

/-- Where a connection's seq stands relative to what it has sent. -/
inductive Numbers (iss : UInt32) (s : TcpSocket) (os : List OutSegment) : Prop
  | answering (hs : s.state=.synReceived) (hq : s.seq=iss) (hsyn : os.any sentSyn=true)
      (ho : occupied os=1)
  | serving (hs : s.state.Serving) (hq : s.seq=iss+UInt32.ofNat (occupied os))
  | closing (hs : s.state.Waiting) (hq : s.seq+1=iss+UInt32.ofNat (occupied os))
  | ended (hs : s.state=.timeWait)

/-- The client's ACK of the SYN-ACK has the number that follows it. -/
def AcksSyn (iss : UInt32) (s : TcpSocket) (x : SlotInput) : Prop :=
  s.state=.synReceived → ∀ seg,x.segment=some seg → seg.acks=true → seg.ack=iss+1

/-- A FIN comes to a socket in FIN_WAIT_2. -/
def LastFin (s : TcpSocket) (x : SlotInput) : Prop :=
  s.state=.finWait2 ∧ ∃ seg,x.segment=some seg ∧ seg.fin=true

section Steps

variable {rr : HttpRequest → HttpResponse} {s s' : TcpSocket} {seg : Segment} {es : List Effect}
  {iss : UInt32} {os : List OutSegment}

theorem Transition.numbers_synReceived (h : Transition rr s seg s' es) (hs : s.state=.synReceived)
    (hq : s.seq=iss) (hsyn : os.any sentSyn=true) (ho : occupied os=1)
    (hack : seg.acks=true → seg.ack=iss+1) :
    Numbered iss os (transmits es) ∧ Numbers iss s' (os++transmits es) := by
  rcases h.synReceived hs with ⟨-,rfl,rfl⟩|⟨ha,rfl,rfl⟩
  · obtain ⟨hsa,hw⟩ := sentSyn_synAck {s with ack := seg.seq+1}
    refine ⟨(numbered_one os _).mpr (by rw [if_pos hsa]; exact hq),?_⟩
    exact .answering hs hq (by rw [List.any_append,hsyn]; rfl) ((occupied_syn hw hsyn).trans ho)
  · have hseq : seg.ack=iss+UInt32.ofNat (occupied os) := by rw [ho,hack ha]; rfl
    obtain ⟨hn,hocc⟩ := (pureAcks_ctrl {s with
      ack := seg.seq+1,state := .established,seq := seg.ack}).numbered hseq
    exact ⟨hn,.serving (.inl rfl) (by rw [hocc,← hseq])⟩

theorem numbers_answer {iss : UInt32} {os : List OutSegment} (rr : HttpRequest → HttpResponse)
    (s : TcpSocket) (n : Nat) (hq : s.seq=iss+UInt32.ofNat (occupied os)) :
    Numbered iss os (transmits (answer rr s n).2) ∧
      Numbers iss (answer rr s n).1 (os++transmits (answer rr s n).2) := by
  obtain ⟨data,fin,htx,hfs,hff,hfp,hfq,hdata⟩ := answer_sends rr s n
  have hw : occupies fin=1 := by simp [occupies,hff,hfp]
  have hd : Numbered iss os data ∧
      (answer rr s n).1.seq=iss+UInt32.ofNat (occupied (os++data)) := by
    rcases hdata with ⟨rfl,hseq⟩|⟨d,rfl,hds,hdf,hdq,hseq⟩
    · exact ⟨trivial,by rw [hseq,hq,List.append_nil]⟩
    · have hwd : occupies d=d.payload.length := by simp [occupies,hdf]
      refine ⟨(numbered_one os d).mpr (by rw [hds,hdq,hq]; rfl),?_⟩
      rw [hseq,hq,occupied_concat hds,hwd,UInt32.ofNat_add,UInt32.add_assoc]
  rw [htx]
  refine ⟨(numbered_append os data [fin]).mpr ⟨hd.1,?_⟩,.closing (.inl rfl) ?_⟩
  · exact (numbered_one _ fin).mpr (by rw [hfs,hfq]; exact hd.2)
  · rw [← List.append_assoc,occupied_concat hfs,hw,hd.2,UInt32.ofNat_add,UInt32.add_assoc]
    rfl

theorem Transition.numbers_serving (h : Transition rr s seg s' es) (hs : s.state.Serving)
    (hq : s.seq=iss+UInt32.ofNat (occupied os)) :
    Numbered iss os (transmits es) ∧
      (s'.state≠.closed → Numbers iss s' (os++transmits es)) := by
  have ack (s' : TcpSocket) (hs' : s'.seq=s.seq) :
      Numbered iss os (transmits [tcpSendCtrl s' tcpFlagAck]) ∧
        occupied (os++transmits [tcpSendCtrl s' tcpFlagAck])=occupied os :=
    (pureAcks_ctrl s').numbered (hs'.trans hq)
  cases h with
  | straySyn => exact ⟨trivial,fun _ => .serving hs (by simpa using hq)⟩
  | noAck => exact ⟨trivial,fun _ => .serving hs (hq.trans (by simp))⟩
  | fin =>
    obtain ⟨hn,ho⟩ := ack {s with ack := seg.seq+UInt32.ofNat seg.payload.length+1} rfl
    exact ⟨hn,fun _ => .serving (.inr rfl) (by rw [ho]; exact hq)⟩
  | secondFin =>
    obtain ⟨hn,-⟩ := ack {s with ack := seg.seq+UInt32.ofNat seg.payload.length+1} rfl
    exact ⟨hn,fun hc => absurd rfl hc⟩
  | pending =>
    have hp : PureAcks s.seq (transmits ((s.stored seg).2++dataAck (s.stored seg).1 seg++
        if (s.stored seg).1.rxLen>0 then [] else [tcpSendCtrl (s.stored seg).1 tcpFlagAck])) := by
      rw [transmits_append]
      refine (pureAcks_stored s seg).append ?_
      split_ifs
      · exact fun o ho => by simp at ho
      · exact stored_seq s seg ▸ pureAcks_ctrl (s.stored seg).1
    obtain ⟨hn,ho⟩ := hp.numbered hq
    exact ⟨hn,fun _ => .serving ((stored_state s seg).symm ▸ hs) (by rw [ho,stored_seq,hq])⟩
  | answered n =>
    obtain ⟨hn,ho⟩ := (pureAcks_stored s seg).numbered hq
    have hq' : (s.stored seg).1.seq=iss+UInt32.ofNat (occupied
        (os++transmits ((s.stored seg).2++dataAck (s.stored seg).1 seg))) := by
      rw [ho,stored_seq,hq]
    obtain ⟨hn',hs'⟩ := numbers_answer rr (s.stored seg).1 n hq'
    rw [transmits_append,← List.append_assoc]
    exact ⟨(numbered_append _ _ _).mpr ⟨hn,hn'⟩,fun _ => hs'⟩
  | default h1 => rcases hs with hs|hs <;> simp [hs] at h1
  | _ => rcases hs with hs|hs <;> simp_all

theorem Transition.numbers_waiting (h : Transition rr s seg s' es) (hs : s.state.Waiting)
    (hq : s.seq+1=iss+UInt32.ofNat (occupied os)) :
    (Numbered iss os (transmits es) ↔ ¬(s.state=.finWait2 ∧ seg.fin=true)) ∧
      (s'.state≠.closed → Numbers iss s' (os++transmits es)) := by
  rcases hs with hs|hs
  · obtain ⟨rfl,⟨-,rfl⟩|⟨-,-,rfl⟩|⟨-,-,rfl⟩⟩ := h.finWait1 hs
    · exact ⟨by simp [Numbered,hs],fun _ => .ended rfl⟩
    · exact ⟨by simp [Numbered,hs],fun _ => .closing (.inr rfl) (by simpa using hq)⟩
    · exact ⟨by simp [Numbered,hs],fun _ => .closing (.inl hs) (by simpa using hq)⟩
  · rcases h.finWait2 hs with ⟨hf,rfl,rfl⟩|⟨hf,rfl,rfl⟩
    · refine ⟨⟨fun hn => ?_,fun hn => absurd ⟨hs,hf⟩ hn⟩,fun hc => absurd rfl hc⟩
      -- the ACK has the number of the FIN that went before it
      have hno : sentSyn (ctrlSegment {s with ack := s.ack+1} tcpFlagAck)=false :=
        (sentSyn_eq tcpFlagAck rfl).trans (by decide)
      have hseq := (numbered_one os (ctrlSegment {s with ack := s.ack+1} tcpFlagAck)).mp hn
      rw [hno,← hq] at hseq
      have hbad : s.seq=s.seq+1 := hseq
      grind
    · exact ⟨by simp [Numbered,hf],fun _ => .closing (.inr hs) (by simpa using hq)⟩

end Steps

theorem Numbers.notClosed {iss : UInt32} {s : TcpSocket} {os : List OutSegment}
    (h : Numbers iss s os) : s.state≠.closed := by
  intro hc
  cases h with
  | answering hs => cases hs.symm.trans hc
  | serving hs => rcases hs with hs|hs <;> cases hs.symm.trans hc
  | closing hs => rcases hs with hs|hs <;> cases hs.symm.trans hc
  | ended hs => cases hs.symm.trans hc

section Slots

variable {i : Slot} {s : TcpSocket} {x : SlotInput} {iss : UInt32} {os : List OutSegment}

theorem socketPeriodic_numbers (now : UInt32) (h : Numbers iss s os) :
    Numbered iss os (transmits (socketPeriodic now s).2) ∧
      Numbers iss (socketPeriodic now s).1 (os++transmits (socketPeriodic now s).2) := by
  rw [socketPeriodic]
  split_ifs with hr
  · obtain ⟨hsa,hw⟩ := sentSyn_synAck s
    cases h with
    | answering hs hq hsyn ho =>
      refine ⟨(numbered_one os _).mpr (by rw [if_pos hsa]; exact hq),?_⟩
      exact .answering hs hq (by rw [List.any_append,hsyn]; rfl)
        ((occupied_syn hw hsyn).trans ho)
    | serving hs => rcases hs with hs|hs <;> cases hs.symm.trans hr.1
    | closing hs => rcases hs with hs|hs <;> cases hs.symm.trans hr.1
    | ended hs => cases hs.symm.trans hr.1
  · exact ⟨trivial,by simpa using h⟩

/-- Every step of a connection numbers what it sends by what was sent before, but for the ACK of
the FIN that arrives in FIN_WAIT_2. -/
theorem slotStep_numbers (h : Numbers iss s os) (hx : Receives s x) (hack : AcksSyn iss s x) :
    (Numbered iss os (transmits (slotStep i s x).2) ↔ ¬LastFin s x) ∧
      ((slotStep i s x).1.state≠.closed →
        Numbers iss (slotStep i s x).1 (os++transmits (slotStep i s x).2)) := by
  cases x with
  | idle =>
    refine ⟨by simp [slotStep,Numbered,LastFin,SlotInput.segment],fun _ => ?_⟩
    simpa [slotStep] using h
  | accept rr ip now seg => exact absurd hx.1 h.notClosed
  | tick now =>
    obtain ⟨hn,hs⟩ := socketPeriodic_numbers now h
    exact ⟨⟨fun _ hf => by simp [LastFin,SlotInput.segment] at hf,fun _ => hn⟩,fun _ => hs⟩
  | deliver rr ip now seg =>
    have ht := socketReceive_transition rr ip now s seg
    have hlast : LastFin s (.deliver rr ip now seg) ↔ s.state=.finWait2 ∧ seg.fin=true := by
      simp [LastFin,SlotInput.segment]
    rw [hlast]
    cases h with
    | answering hs hq hsyn ho =>
      obtain ⟨hn,hs'⟩ := ht.numbers_synReceived hs hq hsyn ho (hack hs seg rfl)
      exact ⟨⟨fun _ hf => (by cases hs.symm.trans hf.1),fun _ => hn⟩,fun _ => hs'⟩
    | serving hs hq =>
      obtain ⟨hn,hs'⟩ := ht.numbers_serving hs hq
      refine ⟨⟨fun _ hf => ?_,fun _ => hn⟩,hs'⟩
      rcases hs with hs|hs <;> cases hs.symm.trans hf.1
    | closing hs hq => exact ht.numbers_waiting hs hq
    | ended hs =>
      obtain ⟨he,hes⟩ := ht.timeWait hs
      rw [slotStep,hes]
      refine ⟨⟨fun _ hf => (by cases hs.symm.trans hf.1),fun _ => trivial⟩,fun _ => ?_⟩
      exact .ended (by rw [he]; exact hs)

end Slots

/-- A client's SYN, without ACK, opens a connection in a free slot; `iss` is the number the slot
chooses for it. -/
structure Opens (i : Slot) (past : List Action) (a : Action) (syn : Segment) (iss : UInt32) :
    Prop where
  free : ((run tcpInit past).sockets i).state=.closed
  arrives : (slotInput i (run tcpInit past) a).segment=some syn
  noAck : syn.acks=false
  number : ((run tcpInit (past++[a])).sockets i).seq=iss

theorem numbered_run {i : Slot} {iss : UInt32} {t : TcpStack} {os : List OutSegment}
    (as : List Action) (h : Numbers iss (t.sockets i) os)
    (hopen : InUse i t as)
    (hack : Machine.Along tcpStep (fun t a => AcksSyn iss (t.sockets i) (slotInput i t a)) t as) :
    Numbered iss os (transmits (effectsOn i (events t as))) ↔
      Machine.Along tcpStep (fun t a => ¬LastFin (t.sockets i) (slotInput i t a)) t as := by
  induction as generalizing t os with
  | nil => exact ⟨fun _ => trivial,fun _ => trivial⟩
  | cons a as ih =>
    obtain ⟨hstep,hnext⟩ := slotStep_numbers (i := i) h (slotInput_receives i t a) hack.1
    rw [← tcpStep_effects] at hstep hnext
    rw [← tcpStep_sockets] at hnext
    rw [events,Machine.outputs_cons,effectsOn_append,transmits_append,numbered_append,hstep,
      Machine.Along]
    refine and_congr_right fun _ => ?_
    cases as with
    | nil => exact ⟨fun _ => trivial,fun _ => trivial⟩
    | cons b bs => exact ih (hnext hopen.2.1) hopen.2 hack.2

/-- A connection opens with the SYN-ACK, and is in SYN_RECEIVED then. -/
theorem Opens.synAck {i : Slot} {past : List Action} {a : Action} {syn : Segment} {iss : UInt32}
    (h : Opens i past a syn iss) :
    ((run tcpInit (past++[a])).sockets i).state=.synReceived ∧
    ((run tcpInit (past++[a])).sockets i).ack=syn.seq+1 ∧
    effectsOn i (tcpStep (run tcpInit past) a).2=
      [tcpSendCtrl ((run tcpInit (past++[a])).sockets i) (tcpFlagSyn|||tcpFlagAck)] := by
  have hx := slotInput_receives i (run tcpInit past) a
  have harr := h.arrives
  rw [run_concat,tcpStep_sockets,tcpStep_effects]
  cases hin : slotInput i (run tcpInit past) a with
  | idle => rw [hin] at harr; cases harr
  | tick now => rw [hin] at harr; cases harr
  | deliver rr ip now seg =>
    rw [hin] at hx
    exact absurd h.free (matches_notClosed hx)
  | accept rr ip now seg =>
    obtain rfl : seg=syn := by rw [hin] at harr; exact Option.some.inj harr
    have ht := socketReceive_transition rr ip now (synSocket i now ip seg) seg
    rcases ht.synReceived rfl with ⟨-,hs,he⟩|⟨ha,-,-⟩
    · rw [slotStep,hs,he]
      exact ⟨rfl,rfl,rfl⟩
    · rw [h.noAck] at ha
      cases ha

theorem Opens.numbers {i : Slot} {past : List Action} {a : Action} {syn : Segment} {iss : UInt32}
    (h : Opens i past a syn iss) : ∃ o,effectsOn i (tcpStep (run tcpInit past) a).2=[.transmit o] ∧
      o.seq=iss ∧ sentSyn o=true ∧ Numbers iss ((run tcpInit (past++[a])).sockets i) [o] := by
  obtain ⟨hs,-,he⟩ := h.synAck
  obtain ⟨hsa,hw⟩ := sentSyn_synAck ((run tcpInit (past++[a])).sockets i)
  refine ⟨_,he,h.number,hsa,.answering hs h.number (by simp [hsa]) ?_⟩
  simp [occupied,hsa,hw]

/-- On a connection with a client that acknowledges the SYN-ACK, all segments are numbered by
what was sent before them exactly when no FIN comes in FIN_WAIT_2. -/
theorem numbered_iff (i : Slot) (past : List Action) (a : Action) (syn : Segment) (iss : UInt32)
    (as : List Action) (h : Opens i past a syn iss)
    (hopen : InUse i (run tcpInit (past++[a])) as)
    (hack : Machine.Along tcpStep (fun t b => AcksSyn iss (t.sockets i) (slotInput i t b))
      (run tcpInit (past++[a])) as) :
    Numbered iss [] (transmits (effectsOn i (events (run tcpInit past) (a::as)))) ↔
      Machine.Along tcpStep (fun t b => ¬LastFin (t.sockets i) (slotInput i t b))
        (run tcpInit (past++[a])) as := by
  obtain ⟨o,he,hseq,hsyn,hn⟩ := h.numbers
  have htx : transmits (effectsOn i (events (run tcpInit past) (a::as)))=
      [o]++transmits (effectsOn i (events (run tcpInit (past++[a])) as)) := by
    rw [events,Machine.outputs_cons,effectsOn_append,transmits_append,he,run_concat]
    rfl
  have hfirst : Numbered iss [] [o] := (numbered_one [] o).mpr (by rw [if_pos hsyn,hseq])
  rw [htx,numbered_append,List.nil_append,and_iff_right hfirst]
  exact numbered_run as hn hopen hack

/-- The client's ACK in slot 1 has the number that follows the SYN-ACK's. -/
theorem acksSyn_client : AcksSyn 1100 ((run tcpInit [clientSends tcpFlagSyn 50 0 []]).sockets 1)
    (slotInput 1 (run tcpInit [clientSends tcpFlagSyn 50 0 []])
      (clientSends tcpFlagAck 51 1101 [])) := by
  intro _ seg h _
  have hs : (slotInput 1 (run tcpInit [clientSends tcpFlagSyn 50 0 []])
      (clientSends tcpFlagAck 51 1101 [])).segment=
      some ⟨4000,httpPort,51,1101,tcpFlagAck,[]⟩ := by decide
  obtain rfl := Option.some.inj (hs.symm.trans h)
  decide

theorem opens_client : Opens 1 [] (clientSends tcpFlagSyn 50 0 [])
    ⟨4000,httpPort,50,0,tcpFlagSyn,[]⟩ 1100 := ⟨by decide,by decide,by decide,by decide⟩

theorem numbered_iff_client : Numbered 1100 [] (transmits (effectsOn 1
    (events tcpInit (handshake++[getRequest,clientSends tcpFlagAck 69 1205 []])))) :=
  (numbered_iff 1 [] (clientSends tcpFlagSyn 50 0 []) _ 1100
    [clientSends tcpFlagAck 51 1101 [],getRequest,clientSends tcpFlagAck 69 1205 []]
    opens_client ⟨by decide,by decide,by decide,trivial⟩
    ⟨acksSyn_client,fun h => absurd h (by decide),fun h => absurd h (by decide),trivial⟩).mpr
    ⟨fun h => absurd h.1 (by decide),fun h => absurd h.1 (by decide),
      fun h => absurd h.1 (by decide),trivial⟩

/-- The last ACK of the regular exchange has the number of the server's FIN. -/
theorem numbered_stale : ¬∀ (i : Slot) (past : List Action) (a : Action) (syn : Segment)
    (iss : UInt32) (as : List Action),Opens i past a syn iss →
    InUse i (run tcpInit (past++[a])) as →
    Machine.Along tcpStep (fun t b => AcksSyn iss (t.sockets i) (slotInput i t b))
      (run tcpInit (past++[a])) as →
    Numbered iss [] (transmits (effectsOn i (events (run tcpInit past) (a::as)))) := by
  intro h
  have hn := h 1 [] (clientSends tcpFlagSyn 50 0 []) _ 1100
    [clientSends tcpFlagAck 51 1101 [],getRequest,clientSends tcpFlagAck 69 1205 [],
      clientSends (tcpFlagFin|||tcpFlagAck) 69 1205 []]
    opens_client ⟨by decide,by decide,by decide,by decide +kernel,trivial⟩
    ⟨acksSyn_client,fun h => absurd h (by decide),fun h => absurd h (by decide),
      fun h => absurd h (by decide +kernel),trivial⟩
  revert hn
  decide +kernel

end Cllm.Tcp
