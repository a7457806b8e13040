import Cllm.Framework.Refinement
import Cllm.Http.Locality
import Cllm.Tcp.Delivery

namespace Cllm.Tcp

open Libc Network Http

/-- The response to the bytes of a request. -/
def answerTo (rr : HttpRequest → HttpResponse) (q : List UInt8) : HttpResponse :=
  match httpParseRequest q q.length with
  | some (some req) => rr req
  | _ => badRequest

/-- Nothing is sent but SYNs and ACKs. -/
def Bare (es : List Effect) : Prop := ∀ o∈transmits es,o.payload=[] ∧ sentFin o=false

theorem bare_nil : Bare [] := by
  intro o ho
  cases ho

theorem Bare.append {x y : List Effect} (hx : Bare x) (hy : Bare y) : Bare (x++y) := by
  intro o ho
  rw [transmits_append] at ho
  rcases List.mem_append.mp ho with ho|ho
  · exact hx o ho
  · exact hy o ho

theorem bare_ctrl (s : TcpSocket) {flags : UInt8} (hf : flags&&&tcpFlagFin=0) :
    Bare [tcpSendCtrl s flags] := by
  intro o ho
  obtain rfl : o=ctrlSegment s flags := by simpa [tcpSendCtrl] using ho
  refine ⟨rfl,?_⟩
  rw [sentFin_eq flags rfl]
  simpa using hf

theorem PureAcks.bare {seq : UInt32} {es : List Effect} (h : PureAcks seq (transmits es)) :
    Bare es := by
  intro o ho
  obtain ⟨hflags,hpayload,-⟩ := h o ho
  exact ⟨hpayload,(sentFin_eq _ hflags).trans (by decide)⟩

section Steps

variable {rr : HttpRequest → HttpResponse} {s s' : TcpSocket} {seg : Segment} {es : List Effect}

/-- What is behind the request in the buffer does not matter to the response. -/
theorem respond_answerTo (rr : HttpRequest → HttpResponse) {n : Nat}
    (hn : n ≤ s.rxBuf.bytes.length) :
    (respond rr s n).1=answerTo rr (s.rxBuf.bytes.take n) := by
  have hlength : (s.rxBuf.bytes.take n).length=n := List.length_take_of_le hn
  rw [answerTo,hlength,httpParseRequest_take hn,respond]
  cases httpParseRequest s.rxBuf.bytes n with
  | none => rfl
  | some parsed => cases parsed <;> rfl

/-- A step that parses something answers it, and waits. -/
theorem Transition.answers (h : Transition rr s seg s' es) {q : List UInt8} (hq : q∈parses es) :
    respondedWith rr es=some (answerTo rr q) ∧ s'.state.Waiting := by
  cases h with
  | pending =>
    rw [parses_append,parses_stored] at hq
    simp [apply_ite parses,tcpSendCtrl] at hq
  | answered n hs hd hr =>
    rw [findRequestEnd_eq] at hr
    have hn : n ≤ (s.stored seg).1.rxBuf.bytes.length :=
      (Search.firstEnd_some hr).2.1.trans (List.length_take_le' _ _)
    rw [parses_append,parses_stored,parses_answer] at hq
    obtain rfl := List.mem_singleton.mp hq
    refine ⟨?_,.inl rfl⟩
    rw [respondedWith_answer rr _ n (parses_stored s seg) (routes_stored s seg)]
    exact congrArg some (respond_answerTo rr hn)
  | _ => simp [tcpSendCtrl] at hq

/-- A step that parses nothing sends no data and no FIN. -/
theorem Transition.bare (h : Transition rr s seg s' es) (hp : parses es=[]) : Bare es := by
  have hack (s : TcpSocket) : Bare [tcpSendCtrl s tcpFlagAck] := bare_ctrl s (by decide)
  cases h with
  | pending =>
    have hstored : Bare ((s.stored seg).2++dataAck (s.stored seg).1 seg) :=
      (pureAcks_stored s seg).bare
    apply hstored.append
    split_ifs
    · exact bare_nil
    · apply hack
  | answered n =>
    rw [parses_append,parses_answer] at hp
    simp at hp
  | synAck => exact bare_ctrl _ (by decide)
  | handshake => apply hack
  | fin => apply hack
  | secondFin => apply hack
  | closed => apply hack
  | _ => exact bare_nil

theorem socketPeriodic_bare (now : UInt32) (s : TcpSocket) : Bare (socketPeriodic now s).2 := by
  rw [socketPeriodic]
  split_ifs
  · exact bare_ctrl s (by decide)
  · exact bare_nil

variable {i : Slot} {x : SlotInput}

theorem slotStep_bare (hp : parses (slotStep i s x).2=[]) : Bare (slotStep i s x).2 := by
  cases x with
  | idle => exact bare_nil
  | deliver rr ip now seg => exact (socketReceive_transition rr ip now s seg).bare hp
  | accept rr ip now seg =>
    exact (socketReceive_transition rr ip now (synSocket i now ip seg) seg).bare hp
  | tick now => apply socketPeriodic_bare

/-- Without a segment a slot keeps its state and its buffer. -/
theorem slotStep_quiet (hx : x.segment=none) : (slotStep i s x).1.state=s.state ∧
    (slotStep i s x).1.rxLen=s.rxLen ∧ parses (slotStep i s x).2=[] := by
  cases x with
  | idle => exact ⟨rfl,rfl,rfl⟩
  | deliver => cases hx
  | accept => cases hx
  | tick now =>
    obtain ⟨-,hl,hp,-⟩ := socketPeriodic_frame now s
    exact ⟨socketPeriodic_state now s,hl,hp⟩

/-- A SYN takes a free slot. -/
theorem slotStep_syn (hs : s.state=.closed) (hx : Receives s x) (hseg : x.segment=some seg)
    (ha : seg.acks=false) : (slotStep i s x).1.state=.synReceived ∧
      (slotStep i s x).1.rxLen=0 ∧ parses (slotStep i s x).2=[] := by
  cases x with
  | idle => cases hseg
  | tick now => cases hseg
  | deliver rr ip now seg => exact absurd hs (matches_iff.mp hx).1
  | accept rr ip now seg' =>
    obtain rfl := Option.some.inj hseg
    have ht := socketReceive_transition rr ip now (synSocket i now ip seg') seg'
    rcases ht.synReceived rfl with ⟨-,hstate,heffects⟩|⟨hacks,-⟩
    · rw [slotStep,hstate,heffects]
      exact ⟨rfl,rfl,rfl⟩
    · cases ha.symm.trans hacks

/-- The ACK of the SYN-ACK opens the connection. -/
theorem slotStep_ack (hs : s.state=.synReceived) (hx : Receives s x) (hseg : x.segment=some seg)
    (ha : seg.acks=true) : (slotStep i s x).1.state=.established ∧
      (slotStep i s x).1.rxLen=s.rxLen ∧ parses (slotStep i s x).2=[] := by
  cases x with
  | idle => cases hseg
  | tick now => cases hseg
  | accept rr ip now seg => cases hx.1.symm.trans hs
  | deliver rr ip now seg' =>
    obtain rfl := Option.some.inj hseg
    rcases (socketReceive_transition rr ip now s seg').synReceived hs with
      ⟨hacks,-⟩|⟨-,hstate,heffects⟩
    · cases ha.symm.trans hacks
    · rw [slotStep,hstate,heffects]
      exact ⟨rfl,rfl,rfl⟩

/-- While it waits a connection sends nothing. -/
theorem slotStep_silent (hs : s.state.Waiting) (hx : Receives s x) (hd : x.DataOnly) :
    (slotStep i s x).2=[] := by
  cases x with
  | idle => rfl
  | deliver rr ip now seg =>
    exact ((socketReceive_transition rr ip now s seg).waits hs (hd seg rfl).fin).2.2
  | accept rr ip now seg =>
    have hc := hx.1
    rcases hs with hs|hs <;> cases hs.symm.trans hc
  | tick now =>
    rw [slotStep,socketPeriodic,if_neg]
    rintro ⟨hr,-⟩
    rcases hs with hs|hs <;> cases hs.symm.trans hr

end Steps

section Runs

variable {i : Slot} {t : TcpStack} {as : List Action}

theorem effectsOn_cons (a : Action) (as : List Action) : effectsOn i (events t (a::as))=
    effectsOn i (tcpStep t a).2++effectsOn i (events (tcpStep t a).1 as) := by
  rw [events,Machine.outputs_cons,effectsOn_append]

theorem effectsOn_run_append (as bs : List Action) : effectsOn i (events t (as++bs))=
    effectsOn i (events t as)++effectsOn i (events (run t as) bs) := by
  rw [events,Machine.outputs_append,effectsOn_append]

theorem bare_run (hp : parses (effectsOn i (events t as))=[]) :
    Bare (effectsOn i (events t as)) := by
  induction as generalizing t with
  | nil => exact bare_nil
  | cons a as ih =>
    rw [effectsOn_cons,parses_append,List.append_eq_nil_iff] at hp
    rw [effectsOn_cons]
    refine Bare.append ?_ (ih hp.2)
    have hfirst := hp.1
    rw [tcpStep_effects] at hfirst ⊢
    exact slotStep_bare hfirst

theorem quiet_run (h : segmentsTo i t as=[]) :
    ((run t as).sockets i).state=(t.sockets i).state ∧
      ((run t as).sockets i).rxLen=(t.sockets i).rxLen ∧
      parses (effectsOn i (events t as))=[] := by
  induction as generalizing t with
  | nil => exact ⟨rfl,rfl,rfl⟩
  | cons a as ih =>
    rw [segmentsTo_cons,List.append_eq_nil_iff,Option.toList_eq_nil_iff] at h
    obtain ⟨hstate,hlen,hparses⟩ := slotStep_quiet (i := i) (s := t.sockets i) h.1
    rw [← tcpStep_sockets] at hstate hlen
    rw [← tcpStep_effects] at hparses
    obtain ⟨hstates,hlens,hrest⟩ := ih h.2
    refine ⟨hstates.trans hstate,hlens.trans hlen,?_⟩
    rw [effectsOn_cons,parses_append,hparses,hrest]
    rfl

theorem silent_run (hs : (t.sockets i).state.Waiting) (hd : ∀ seg∈segmentsTo i t as,seg.IsData) :
    effectsOn i (events t as)=[] := by
  have hrun := Machine.history_along (slotStep i) (fun s _ es => s.state.Waiting ∧ es=[])
    (fun s h o x ⟨hs,ho⟩ hx => by
      refine ⟨(slotStep_waits hs hx.1 hx.2).1,?_⟩
      rw [ho,slotStep_silent hs hx.1 hx.2]
      rfl)
    (h := []) (o := []) ⟨hs,rfl⟩ (along_data hd)
  rw [events_slot]
  simpa using hrun.2

/-- The action that brings the first of the slot's segments. -/
theorem segmentsTo_split {seg : Segment} {segs : List Segment} (h : segmentsTo i t as=seg::segs) :
    ∃ before a after,as=before++a::after ∧ segmentsTo i t before=[] ∧
      (slotInput i (run t before) a).segment=some seg ∧
      segmentsTo i (tcpStep (run t before) a).1 after=segs := by
  induction as generalizing t with
  | nil => cases h
  | cons a as ih =>
    rw [segmentsTo_cons] at h
    cases hx : (slotInput i t a).segment with
    | none =>
      rw [hx] at h
      obtain ⟨before,b,after,rfl,hbefore,hb,hafter⟩ := ih h
      refine ⟨a::before,b,after,rfl,?_,hb,hafter⟩
      rw [segmentsTo_cons,hx,hbefore]
      rfl
    | some seg' =>
      rw [hx] at h
      obtain ⟨rfl,hsegs⟩ := List.cons.inj h
      exact ⟨[],a,as,rfl,rfl,hx,hsegs⟩

/-- The call that parses something. -/
theorem parses_split {q : List UInt8} (h : parses (effectsOn i (events t as))=[q]) :
    ∃ before a after,as=before++a::after ∧ parses (effectsOn i (events t before))=[] ∧
      q∈parses (effectsOn i (tcpStep (run t before) a).2) := by
  induction as generalizing t with
  | nil => cases h
  | cons a as ih =>
    rw [effectsOn_cons,parses_append] at h
    cases hp : parses (effectsOn i (tcpStep t a).2) with
    | nil =>
      rw [hp] at h
      obtain ⟨before,b,after,rfl,hbefore,hq⟩ := ih h
      refine ⟨a::before,b,after,rfl,?_,hq⟩
      rw [effectsOn_cons,parses_append,hp,hbefore]
      rfl
    | cons q' qs =>
      rw [hp] at h
      obtain ⟨rfl,-⟩ := List.cons.inj h
      refine ⟨[],a,as,rfl,rfl,?_⟩
      show q'∈parses (effectsOn i (tcpStep t a).2)
      rw [hp]
      exact List.mem_cons_self

end Runs

/-- What the slot of a client does in a run: it sends no data until the request is complete, the
call that brings its last bytes answers it, and nothing follows. -/
def Completes (i : Slot) (t : TcpStack) (as : List Action) (q : List UInt8) : Prop :=
  ∃ before rr ip packet after,as=before++.receive rr ip packet::after ∧
    Bare (effectsOn i (events t before)) ∧
    respondedWith rr (effectsOn i (tcpStep (run t before) (.receive rr ip packet)).2)=
      some (answerTo rr q) ∧
    effectsOn i (events (run t (before++[.receive rr ip packet])) after)=[]

section Connection

variable {i : Slot} {t : TcpStack} {as : List Action} {stream : List UInt8}

/-- A connection that is open answers the first request in its stream. -/
theorem open_completes (hs : (t.sockets i).state=.established) (hl : (t.sockets i).rxLen=0)
    (hd : ∀ seg∈segmentsTo i t as,seg.IsData)
    (hstream : (segmentsTo i t as).flatMap Segment.payload=stream)
    (hlen : stream.length < tcpRxBufSize) {n : Nat} (hn : Search.firstEnd crlfCrlf stream=some n) :
    Completes i t as (stream.take n) := by
  have hp := parses_stream hs hl hd hstream hlen
  rw [requestsIn,hn] at hp
  obtain ⟨before,a,after,rfl,hbefore,hq⟩ := parses_split hp
  have hdata : ∀ seg∈segmentsTo i (tcpStep (run t before) a).1 after,seg.IsData := by
    intro seg hseg
    apply hd
    rw [segmentsTo_append,segmentsTo_cons]
    exact List.mem_append_right _ (List.mem_append_right _ hseg)
  rw [tcpStep_effects] at hq
  cases a with
  | periodic =>
    obtain ⟨-,-,hnone⟩ := slotStep_quiet (i := i) (s := (run t before).sockets i)
      (x := slotInput i (run t before) .periodic) rfl
    rw [hnone] at hq
    cases hq
  | receive rr ip packet =>
    have hanswer : respondedWith rr (slotStep i ((run t before).sockets i)
          (slotInput i (run t before) (.receive rr ip packet))).2=
            some (answerTo rr (stream.take n)) ∧
        (slotStep i ((run t before).sockets i)
          (slotInput i (run t before) (.receive rr ip packet))).1.state.Waiting := by
      rcases slotInput_receive i (run t before) rr ip packet with hx|⟨seg,hx|hx⟩
      · rw [hx] at hq
        cases hq
      · rw [hx] at hq ⊢
        exact (socketReceive_transition ..).answers hq
      · rw [hx] at hq ⊢
        exact (socketReceive_transition ..).answers hq
    rw [← tcpStep_effects,← tcpStep_sockets] at hanswer
    refine ⟨before,rr,ip,packet,after,rfl,bare_run hbefore,hanswer.1,?_⟩
    rw [run_concat]
    exact silent_run hanswer.2 hdata

/-- What happens before does not show, when it parses nothing. -/
theorem Completes.after {q : List UInt8} (before : List Action)
    (hp : parses (effectsOn i (events t before))=[]) (h : Completes i (run t before) as q) :
    Completes i t (before++as) q := by
  obtain ⟨pre,rr,ip,packet,post,rfl,hbare,hresponse,hsilent⟩ := h
  refine ⟨before++pre,rr,ip,packet,post,(List.append_assoc ..).symm,?_,?_,?_⟩
  · rw [effectsOn_run_append]
    exact (bare_run hp).append hbare
  · rw [run,Machine.runState_append]
    exact hresponse
  · rw [List.append_assoc,run,Machine.runState_append]
    exact hsilent

/-- A client that opens a connection in a free slot with a SYN and an ACK and then sends a request
is answered, whatever arrives for other slots meanwhile and however the request is cut. -/
theorem connection_completes (hfree : (t.sockets i).state=.closed) {syn ack : Segment}
    {data : List Segment} (hsegments : segmentsTo i t as=syn::ack::data) (hsyn : syn.acks=false)
    (hack : ack.acks=true) (hdata : ∀ seg∈data,seg.IsData)
    (hstream : data.flatMap Segment.payload=stream) (hlen : stream.length < tcpRxBufSize) {n : Nat}
    (hn : Search.firstEnd crlfCrlf stream=some n) : Completes i t as (stream.take n) := by
  -- up to the SYN
  obtain ⟨idle,a,rest,rfl,hidle,ha,hrest⟩ := segmentsTo_split hsegments
  obtain ⟨hstate,-,hparses⟩ := quiet_run hidle
  obtain ⟨hopened,hempty,hsilent⟩ := slotStep_syn (i := i) (hstate.trans hfree)
    (slotInput_receives i (run t idle) a) ha hsyn
  rw [← tcpStep_sockets] at hopened hempty
  rw [← tcpStep_effects] at hsilent
  -- up to the ACK
  obtain ⟨wait,b,rest',rfl,hwait,hb,hrest'⟩ := segmentsTo_split hrest
  obtain ⟨hstate',hlen',hparses'⟩ := quiet_run hwait
  obtain ⟨hestablished,hkept,hsilent'⟩ := slotStep_ack (i := i) (hstate'.trans hopened)
    (slotInput_receives i _ b) hb hack
  rw [← tcpStep_sockets] at hestablished hkept
  rw [← tcpStep_effects] at hsilent'
  have hdone := open_completes hestablished (hkept.trans (hlen'.trans hempty))
    (by rwa [hrest']) (by rw [hrest',hstream]) hlen hn
  have hthen : Completes i (tcpStep (run t idle) a).1 (wait++b::rest') (stream.take n) := by
    rw [List.append_cons]
    refine Completes.after (wait++[b]) ?_ ?_
    · rw [effectsOn_run_append,parses_append,hparses',effectsOn_cons,parses_append,hsilent']
      rfl
    · rwa [run_concat]
  rw [List.append_cons]
  refine Completes.after (idle++[a]) ?_ ?_
  · rw [effectsOn_run_append,parses_append,hparses,effectsOn_cons,parses_append,hsilent]
    rfl
  · rwa [run_concat]

end Connection

end Cllm.Tcp
