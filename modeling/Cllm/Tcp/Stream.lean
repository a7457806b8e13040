import Cllm.Http.RequestBounds
import Cllm.Tcp.Lifecycle

namespace Cllm.Tcp

open Libc Network Http

abbrev crlfCrlf : List UInt8 := [cr,lf,cr,lf]

/-- The bytes a slot is given, in order. -/
def fed (xs : List SlotInput) : List UInt8 :=
  (xs.filterMap SlotInput.segment).flatMap Segment.payload

theorem fed_append (xs ys : List SlotInput) : fed (xs++ys)=fed xs++fed ys := by
  simp [fed]

section Storing

variable (s : TcpSocket) (seg : Segment)

@[simp] theorem stored_state : (s.stored seg).1.state=s.state := by
  simp [TcpSocket.stored,TcpSocket.ackPayload]

/-- What is copied is what the buffer grows by. -/
theorem stored_received : (s.stored seg).1.received=s.received++copies (s.stored seg).2 := by
  rcases storePayload_cases (s.ackPayload seg) seg.payload with ⟨-,-,he,-,hr⟩|⟨-,h⟩
  · simp only [TcpSocket.stored,he,hr]
    simp
    rfl
  · simp only [TcpSocket.stored,h]
    simp
    rfl

theorem stored_rxLen : (s.stored seg).1.rxLen=s.rxLen+(copies (s.stored seg).2).length := by
  rcases storePayload_cases (s.ackPayload seg) seg.payload with ⟨-,-,he,hr,-⟩|⟨-,h⟩
  · simp only [TcpSocket.stored,he,hr]
    simp
    rfl
  · simp only [TcpSocket.stored,h]
    simp
    rfl

theorem copies_stored (hr : s.HasRoom seg.payload) : copies (s.stored seg).2=seg.payload := by
  rcases storePayload_cases (s.ackPayload seg) seg.payload with ⟨-,-,he,-⟩|⟨h,he⟩
  · simp [TcpSocket.stored,he]
  · rcases h with h|h
    · rw [TcpSocket.stored,he,h]; rfl
    · exact absurd hr h

theorem parses_stored : parses ((s.stored seg).2++dataAck (s.stored seg).1 seg)=[] := by
  rcases storePayload_effects (s.ackPayload seg) seg.payload with h|h <;>
    simp [TcpSocket.stored,h,dataAck,apply_ite parses,tcpSendCtrl]

theorem transmits_stored : transmits ((s.stored seg).2++dataAck (s.stored seg).1 seg)=
    transmits (dataAck (s.stored seg).1 seg) := by
  rcases storePayload_effects (s.ackPayload seg) seg.payload with h|h <;>
    simp [TcpSocket.stored,h]

theorem routes_stored : routes ((s.stored seg).2++dataAck (s.stored seg).1 seg)=[] := by
  rcases storePayload_effects (s.ackPayload seg) seg.payload with h|h <;>
    simp [TcpSocket.stored,h,dataAck,apply_ite routes,tcpSendCtrl]

theorem copies_dataAck : copies (dataAck s seg)=[] := by
  simp [dataAck,apply_ite copies,tcpSendCtrl]

end Storing

theorem copies_answer (rr : HttpRequest → HttpResponse) (s : TcpSocket) (n : Nat) :
    copies (answer rr s n).2=[] := by
  simp only [answer]
  rcases respond_effects rr s n with h|⟨req,-,h⟩ <;>
    rcases sendResponse_eq s (respond rr s n).1 with ⟨data,hd⟩|hd <;> rw [h,hd] <;> rfl

/-- A prefix of the received bytes is a prefix of the buffer. -/
theorem received_take {s : TcpSocket} {n : Nat} (h : n ≤ s.received.length) :
    s.rxBuf.bytes.take n=s.received.take n := by
  have hn : n ≤ s.rxLen := h.trans (List.length_take_le _ _)
  rw [TcpSocket.received,List.take_take,Nat.min_eq_left hn]

/-- What the data branch does with a data segment. -/
theorem Transition.data {rr : HttpRequest → HttpResponse} {s s' : TcpSocket} {seg : Segment}
    {es : List Effect} (h : Transition rr s seg s' es) (hs : s.state.Serving) (hd : seg.IsData) :
    copies es=copies (s.stored seg).2 ∧
      ((Search.firstEnd crlfCrlf (s.received++copies es)=none ∧ parses es=[] ∧
          s'=(s.stored seg).1) ∨
        ∃ n,Search.firstEnd crlfCrlf (s.received++copies es)=some n ∧
          parses es=[(s.received++copies es).take n] ∧ s'=(answer rr (s.stored seg).1 n).1) := by
  cases h with
  | pending _ _ hr =>
    have hc : copies ((s.stored seg).2++dataAck (s.stored seg).1 seg++
        if (s.stored seg).1.rxLen>0 then [] else [tcpSendCtrl (s.stored seg).1 tcpFlagAck])=
        copies (s.stored seg).2 := by
      simp [copies_dataAck,apply_ite copies,tcpSendCtrl]
    refine ⟨hc,.inl ⟨?_,?_,rfl⟩⟩
    · rw [hc,← stored_received,← findRequestEnd_eq,hr]
    · rw [parses_append,parses_stored]
      simp [apply_ite parses,tcpSendCtrl]
  | answered n _ _ hr =>
    have hc : copies ((s.stored seg).2++dataAck (s.stored seg).1 seg++
        (answer rr (s.stored seg).1 n).2)=copies (s.stored seg).2 := by
      simp [copies_dataAck,copies_answer]
    rw [findRequestEnd_eq] at hr
    refine ⟨hc,.inr ⟨n,?_,?_,rfl⟩⟩
    · rw [hc,← stored_received,hr]
    · rw [parses_append,parses_stored,parses_answer,hc,← stored_received,List.nil_append,
        received_take (Search.firstEnd_some hr).2.1]
  | default h1 => rcases hs with hs|hs <;> simp [hs] at h1
  | _ => simp_all [TcpState.Serving,hd.syn,hd.fin,hd.acks]

/-- The states after the answer in which a connection waits for its peer. -/
def TcpState.Waiting (state : TcpState) : Prop := state=.finWait1 ∨ state=.finWait2

theorem Transition.waits {rr : HttpRequest → HttpResponse} {s s' : TcpSocket} {seg : Segment}
    {es : List Effect} (h : Transition rr s seg s' es) (hs : s.state.Waiting)
    (hf : seg.fin=false) : s'.state.Waiting ∧ s'.rxLen=s.rxLen ∧ es=[] := by
  cases h with
  | finAcked => exact ⟨.inr rfl,rfl,rfl⟩
  | finIgnored => exact ⟨hs,rfl,rfl⟩
  | waiting => exact ⟨hs,rfl,rfl⟩
  | default h1 => exact ⟨hs,rfl,rfl⟩
  | _ => rcases hs with hs|hs <;> simp_all [TcpState.Serving]

/-- A connection that has copied the bytes `bs` and parsed `ps`: it still collects, or it has
answered the first request in them. -/
inductive Framing (s : TcpSocket) (bs : List UInt8) : List (List UInt8) → Prop
  | collecting (hs : s.state.Serving) (hb : s.received=bs) (hl : s.rxLen=bs.length)
      (hn : Search.firstEnd crlfCrlf bs=none) : Framing s bs []
  | answered (n : Nat) (hs : s.state.Waiting) (hl : s.rxLen=0)
      (hn : Search.firstEnd crlfCrlf bs=some n) : Framing s bs [bs.take n]

section Framing

variable {s s' : TcpSocket} {bs : List UInt8} {ps : List (List UInt8)}

theorem Framing.transition {rr : HttpRequest → HttpResponse} {seg : Segment} {es : List Effect}
    (hf : Framing s bs ps) (h : Transition rr s seg s' es) (hd : seg.IsData) :
    Framing s' (bs++copies es) (ps++parses es) := by
  cases hf with
  | collecting hs hb hl hn =>
    obtain ⟨hc,hcase⟩ := h.data hs hd
    rw [hc,hb] at hcase
    rw [hc]
    rcases hcase with ⟨hnone,hp,rfl⟩|⟨n,hsome,hp,rfl⟩
    · rw [hp]
      refine .collecting ((stored_state s seg).symm ▸ hs) ?_ ?_ hnone
      · rw [stored_received,hb]
      · rw [stored_rxLen,hl,List.length_append]
    · rw [hp]
      exact .answered n (.inl rfl) rfl hsome
  | answered n hs hl hn =>
    obtain ⟨hw,hr,rfl⟩ := h.waits hs hd.fin
    rw [parses_nil,copies_nil,List.append_nil,List.append_nil]
    exact .answered n hw (hr.trans hl) hn

/-- Updates of the other fields leave the connection where it is. -/
theorem Framing.congr (hf : Framing s bs ps) (h1 : s'.state=s.state)
    (h2 : s'.received=s.received) (h3 : s'.rxLen=s.rxLen) : Framing s' bs ps := by
  cases hf with
  | collecting hs hb hl hn => exact .collecting (h1 ▸ hs) (h2.trans hb) (h3.trans hl) hn
  | answered n hs hl hn => exact .answered n (h1 ▸ hs) (h3.trans hl) hn

theorem Framing.notClosed (hf : Framing s bs ps) : s.state≠.closed := by
  intro h
  cases hf with
  | collecting hs => rcases hs with hs|hs <;> cases h.symm.trans hs
  | answered n hs => rcases hs with hs|hs <;> cases h.symm.trans hs

/-- The buffer and the requests are read off the copied bytes. -/
theorem Framing.prefixes (hf : Framing s bs ps) : s.received <+: bs ∧ ∀ q∈ps,q <+: bs := by
  cases hf with
  | collecting hs hb => exact ⟨hb ▸ List.prefix_rfl,by simp⟩
  | answered n hs hl =>
    refine ⟨?_,by simpa using List.take_prefix n bs⟩
    rw [TcpSocket.received,hl]
    exact List.nil_prefix

end Framing

theorem socketPeriodic_frame (now : UInt32) (s : TcpSocket) :
    (socketPeriodic now s).1.received=s.received ∧ (socketPeriodic now s).1.rxLen=s.rxLen ∧
      parses (socketPeriodic now s).2=[] ∧ copies (socketPeriodic now s).2=[] := by
  rw [socketPeriodic]
  split_ifs <;> exact ⟨rfl,rfl,rfl,rfl⟩

/-- The segment carries the bytes of the client's stream from position `k` on. -/
structure Segment.Carries (seg : Segment) (stream : List UInt8) (isn : UInt32) (k : Nat) :
    Prop where
  data : seg.IsData
  seq : seg.seq=isn+1+UInt32.ofNat k
  payload : seg.payload <+: stream.drop k

/-- The socket copies the payload of this segment. -/
structure TcpSocket.Stores (s : TcpSocket) (seg : Segment) : Prop where
  serving : s.state.Serving
  payload : seg.payload≠[]
  room : s.HasRoom seg.payload

/-- A segment that is stored begins where the stored bytes end. -/
def InOrder (stream : List UInt8) (isn : UInt32) (s : TcpSocket) (x : SlotInput) : Prop :=
  ∀ seg,x.segment=some seg → s.Stores seg → seg.Carries stream isn s.rxLen

/-- A slot input brings data segments only. -/
def SlotInput.DataOnly (x : SlotInput) : Prop := ∀ seg,x.segment=some seg → seg.IsData

theorem Framing.slotStep {i : Slot} {s : TcpSocket} {x : SlotInput} {bs : List UInt8}
    {ps : List (List UInt8)} (hf : Framing s bs ps) (hx : Receives s x) (hd : x.DataOnly) :
    Framing (slotStep i s x).1 (bs++copies (slotStep i s x).2)
      (ps++parses (slotStep i s x).2) := by
  cases x with
  | idle => simpa [Tcp.slotStep] using hf
  | deliver rr ip now seg =>
    have ht : Framing (s.touch ip now) bs ps := hf.congr rfl rfl rfl
    exact ht.transition (socketReceive_transition rr ip now s seg) (hd seg rfl)
  | accept rr ip now seg => exact absurd hx.1 hf.notClosed
  | tick now =>
    obtain ⟨hb,hl,hp,hc⟩ := socketPeriodic_frame now s
    rw [Tcp.slotStep,hp,hc,List.append_nil,List.append_nil]
    exact hf.congr (socketPeriodic_state now s) hb hl

/-- A connection that collects copies everything there is room for. -/
theorem slotStep_copies {i : Slot} {s : TcpSocket} {x : SlotInput} (hs : s.state.Serving)
    (hx : Receives s x) (hd : x.DataOnly) (hroom : s.rxLen+(fed [x]).length<tcpRxBufSize) :
    copies (slotStep i s x).2=fed [x] ∧ ((slotStep i s x).1.state.Waiting ∨
      (slotStep i s x).1.state.Serving ∧ (slotStep i s x).1.rxLen=s.rxLen+(fed [x]).length) := by
  cases x with
  | idle => exact ⟨rfl,.inr ⟨hs,rfl⟩⟩
  | deliver rr ip now seg =>
    have hfed : fed [.deliver rr ip now seg]=seg.payload := by simp [fed,SlotInput.segment]
    rw [hfed] at hroom ⊢
    have hc := copies_stored (s.touch ip now) seg hroom
    obtain ⟨he,hcase⟩ := (socketReceive_transition rr ip now s seg).data hs (hd seg rfl)
    rw [Tcp.slotStep]
    refine ⟨he.trans hc,?_⟩
    rcases hcase with ⟨-,-,h⟩|⟨n,-,-,h⟩
    · right
      rw [h,stored_state,stored_rxLen,hc]
      exact ⟨hs,rfl⟩
    · left
      rw [h]
      exact .inl rfl
  | accept rr ip now seg =>
    have hc := hx.1
    rcases hs with hs|hs <;> simp [hs] at hc
  | tick now =>
    obtain ⟨-,hl,-,hc⟩ := socketPeriodic_frame now s
    exact ⟨hc,.inr ⟨(socketPeriodic_state now s).symm ▸ hs,hl⟩⟩

/-- One that waits copies nothing and goes on waiting. -/
theorem slotStep_waits {i : Slot} {s : TcpSocket} {x : SlotInput} (hs : s.state.Waiting)
    (hx : Receives s x) (hd : x.DataOnly) :
    (slotStep i s x).1.state.Waiting ∧ copies (slotStep i s x).2=[] := by
  cases x with
  | idle => exact ⟨hs,rfl⟩
  | deliver rr ip now seg =>
    obtain ⟨hw,-,he⟩ := (socketReceive_transition rr ip now s seg).waits hs (hd seg rfl).fin
    exact ⟨hw,by rw [Tcp.slotStep,he]; rfl⟩
  | accept rr ip now seg =>
    have hc := hx.1
    rcases hs with hs|hs <;> simp [hs] at hc
  | tick now =>
    exact ⟨(socketPeriodic_state now s).symm ▸ hs,(socketPeriodic_frame now s).2.2.2⟩

section Runs

variable {i : Slot} {s : TcpSocket} {xs : List SlotInput}

/-- Whatever data arrives, a connection reads its requests off the bytes it has copied. -/
theorem framing_run (hs : s.state.Serving) (hl : s.rxLen=0)
    (hx : Machine.Along (slotStep i) (fun s x => Receives s x ∧ x.DataOnly) s xs) :
    Framing (slotRun i s xs) (copies (slotEffects i s xs)) (parses (slotEffects i s xs)) := by
  have h0 : Framing s [] [] := .collecting hs (by rw [TcpSocket.received,hl]; rfl) hl rfl
  have h := Machine.history_along (slotStep i)
    (fun s _ o => Framing s (copies o) (parses o))
    (fun s h o x ih hx => by
      rw [copies_append,parses_append]
      exact ih.slotStep hx.1 hx.2)
    (h := []) (o := []) h0 hx
  simpa using h

/-- While the bytes fit the buffer, those copied are all that arrived before the answer. -/
theorem copies_run (hs : s.state.Serving) (hl : s.rxLen=0)
    (hx : Machine.Along (slotStep i) (fun s x => Receives s x ∧ x.DataOnly) s xs)
    (hroom : (fed xs).length<tcpRxBufSize) :
    ((slotRun i s xs).state.Serving ∧ (slotRun i s xs).rxLen=(fed xs).length ∧
        copies (slotEffects i s xs)=fed xs) ∨
      ((slotRun i s xs).state.Waiting ∧ copies (slotEffects i s xs) <+: fed xs) := by
  have h := Machine.history_along (slotStep i)
    (fun s h o => (fed h).length<tcpRxBufSize →
      (s.state.Serving ∧ s.rxLen=(fed h).length ∧ copies o=fed h) ∨
        (s.state.Waiting ∧ copies o <+: fed h))
    (fun s h o x ih hx hroom => by
      rw [copies_append,fed_append] at *
      rw [List.length_append] at hroom ⊢
      rcases ih (by omega) with ⟨hs,hl,hc⟩|⟨hw,hc⟩
      · obtain ⟨he,hw|⟨hs,hn⟩⟩ := slotStep_copies (i := i) hs hx.1 hx.2 (by omega)
        · exact .inr ⟨hw,by rw [hc,he]⟩
        · exact .inl ⟨hs,by rw [hn,hl],by rw [hc,he]⟩
      · obtain ⟨hw,he⟩ := slotStep_waits (i := i) hw hx.1 hx.2
        rw [he,List.append_nil]
        exact .inr ⟨hw,hc.trans (List.prefix_append _ _)⟩)
    (h := []) (o := []) (fun _ => .inl ⟨hs,hl,rfl⟩) hx
  simpa using h (by simpa using hroom)

/-- What is copied in a step is the payload of a segment that is stored. -/
theorem slotStep_copied {x : SlotInput} {bs : List UInt8} {ps : List (List UInt8)}
    (hf : Framing s bs ps) (hx : Receives s x) (hd : x.DataOnly) :
    copies (slotStep i s x).2=[] ∨ ∃ seg,x.segment=some seg ∧ s.Stores seg ∧
      s.rxLen=bs.length ∧ copies (slotStep i s x).2=seg.payload := by
  cases hf with
  | answered n hs => exact .inl (slotStep_waits hs hx hd).2
  | collecting hs _ hl =>
    cases x with
    | idle => exact .inl rfl
    | deliver rr ip now seg =>
      rw [slotStep,((socketReceive_transition rr ip now s seg).data hs (hd seg rfl)).1]
      rcases storePayload_cases ((s.touch ip now).ackPayload seg) seg.payload with
        ⟨hne,hroom,he,-⟩|⟨-,he⟩
      · refine .inr ⟨seg,rfl,⟨hs,hne,hroom⟩,hl,?_⟩
        rw [TcpSocket.stored,he]
        simp
      · left
        rw [TcpSocket.stored,he]
        rfl
    | accept rr ip now seg =>
      have hc := hx.1
      rcases hs with hs|hs <;> simp [hs] at hc
    | tick now => exact .inl (socketPeriodic_frame now s).2.2.2

/-- When the stored segments are in order, what is copied is a prefix of the stream. -/
theorem copies_ordered {stream : List UInt8} {isn : UInt32} (hs : s.state.Serving) (hl : s.rxLen=0)
    (hx : Machine.Along (slotStep i) (fun s x => Receives s x ∧ x.DataOnly) s xs)
    (ho : Machine.Along (slotStep i) (InOrder stream isn) s xs) :
    copies (slotEffects i s xs) <+: stream := by
  have h0 : Framing s [] [] := .collecting hs (by rw [TcpSocket.received,hl]; rfl) hl rfl
  have h := Machine.history_along (slotStep i)
    (fun s _ o => Framing s (copies o) (parses o) ∧ copies o <+: stream)
    (fun s h o x ih hx => by
      obtain ⟨⟨hr,hd⟩,ho⟩ := hx
      rw [copies_append,parses_append]
      refine ⟨ih.1.slotStep hr hd,?_⟩
      rcases slotStep_copied ih.1 hr hd (i := i) with he|⟨seg,hseg,hst,hlen,he⟩
      · rw [he,List.append_nil]
        exact ih.2
      · obtain ⟨rest,hrest⟩ := ih.2
        have hp := (ho seg hseg hst).payload
        rw [hlen,← hrest,List.drop_left] at hp
        rw [he,← hrest]
        exact (List.prefix_append_right_inj _).mpr hp)
    (h := []) (o := []) ⟨h0,List.nil_prefix⟩ (hx.and _ ho)
  simpa using h.2

end Runs

section Stack

variable {i : Slot} {t : TcpStack} {as : List Action}

theorem fed_slotInputs : fed (slotInputs i t as)=(segmentsTo i t as).flatMap Segment.payload := rfl

theorem along_data (hd : ∀ seg∈segmentsTo i t as,seg.IsData) :
    Machine.Along (slotStep i) (fun s x => Receives s x ∧ x.DataOnly) (t.sockets i)
      (slotInputs i t as) := by
  have hdata : Machine.Along (slotStep i) (fun _ x => x.DataOnly) (t.sockets i)
      (slotInputs i t as) := Machine.along_of_mem _ (fun x hx seg hseg =>
    hd seg (List.mem_filterMap.mpr ⟨x,hx,hseg⟩)) _
  exact (along_receives i t as).and _ hdata

/-- What a connection parses of a stream that fits the buffer. -/
def requestsIn (stream : List UInt8) : List (List UInt8) :=
  ((Search.firstEnd crlfCrlf stream).map stream.take).toList

theorem requestsIn_append {bs : List UInt8} {n : Nat} (h : Search.firstEnd crlfCrlf bs=some n)
    (rest : List UInt8) : requestsIn (bs++rest)=[bs.take n] := by
  rw [requestsIn,Search.firstEnd_append h rest]
  simp [List.take_append_of_le_length (Search.firstEnd_some h).2.1]

/-- Only the stream matters, not its segments. -/
theorem parses_stream {stream : List UInt8} (hs : (t.sockets i).state=.established)
    (hl : (t.sockets i).rxLen=0) (hd : ∀ seg∈segmentsTo i t as,seg.IsData)
    (hstream : (segmentsTo i t as).flatMap Segment.payload=stream)
    (hlen : stream.length<tcpRxBufSize) :
    parses (effectsOn i (events t as))=requestsIn stream := by
  have hf := framing_run (.inl hs) hl (along_data hd)
  have hc := copies_run (.inl hs) hl (along_data hd) (by rwa [fed_slotInputs,hstream])
  rw [fed_slotInputs,hstream,← events_slot,← run_slot] at hc
  rw [← events_slot,← run_slot] at hf
  generalize parses (effectsOn i (events t as))=ps at *
  cases hf with
  | collecting hs _ _ hn =>
    rcases hc with ⟨-,-,he⟩|⟨hw,-⟩
    · rw [requestsIn,← he,hn]
      rfl
    · rcases hs with hs|hs <;> rcases hw with hw|hw <;> cases hs.symm.trans hw
  | answered n _ _ hn =>
    have hpre : copies (effectsOn i (events t as)) <+: stream := by
      rcases hc with ⟨-,-,he⟩|⟨-,hpre⟩
      · exact he ▸ List.prefix_rfl
      · exact hpre
    obtain ⟨rest,rfl⟩ := hpre
    rw [requestsIn_append hn]

/-- The cut of a stream into segments does not show: a connection parses the shortest prefix
that ends with a blank line, if there is one, and nothing else. -/
theorem parses_segmentation (i : Slot) (t : TcpStack) (as : List Action) (stream : List UInt8)
    (hs : (t.sockets i).state=.established) (hl : (t.sockets i).rxLen=0)
    (hd : ∀ seg∈segmentsTo i t as,seg.IsData)
    (hstream : (segmentsTo i t as).flatMap Segment.payload=stream)
    (hlen : stream.length≤2047) :
    (¬crlfCrlf <:+: stream → parses (effectsOn i (events t as))=[]) ∧
    (crlfCrlf <:+: stream → ∃ q,Search.EndsFirst crlfCrlf stream q ∧
      parses (effectsOn i (events t as))=[q]) := by
  rw [parses_stream hs hl hd hstream (Nat.lt_succ_of_le hlen),requestsIn]
  refine ⟨fun h => ?_,fun h => ?_⟩
  · rw [(Search.firstEnd_eq_none_iff _ _).mpr h]
    rfl
  · cases hn : Search.firstEnd crlfCrlf stream with
    | none => exact absurd h ((Search.firstEnd_eq_none_iff _ _).mp hn)
    | some n => exact ⟨stream.take n,Search.firstEnd_endsFirst hn,rfl⟩

theorem parses_segmentation_split : ∃ q,Search.EndsFirst crlfCrlf (cstr "G\r\n\r\nx") q ∧
    parses (effectsOn 1 (events connected [clientSends tcpFlagAck 51 1101 (cstr "G\r\n"),
      clientSends tcpFlagAck 54 1101 (cstr "\r\nx")]))=[q] :=
  (parses_segmentation 1 connected _ (cstr "G\r\n\r\nx") (by decide) (by decide) (by decide)
    (by decide) (by decide)).2 ⟨cstr "G",cstr "x",by decide⟩

/-- The buffer and the parsed strings are prefixes of the payloads stored, in the order of
their arrival; of the client's stream they are when the stored segments are in order. -/
theorem received_ordered (i : Slot) (t : TcpStack) (as : List Action) (stream : List UInt8)
    (isn : UInt32) (hs : (t.sockets i).state=.established) (hl : (t.sockets i).rxLen=0)
    (hstream : ∀ seg∈segmentsTo i t as,∃ k,seg.Carries stream isn k) :
    (((run t as).sockets i).received <+: copies (effectsOn i (events t as)) ∧
      ∀ q∈parses (effectsOn i (events t as)),q <+: copies (effectsOn i (events t as))) ∧
    (Machine.Along tcpStep (fun t a => InOrder stream isn (t.sockets i) (slotInput i t a)) t as →
      ((run t as).sockets i).received <+: stream ∧
        ∀ q∈parses (effectsOn i (events t as)),q <+: stream) := by
  have hd : ∀ seg∈segmentsTo i t as,seg.IsData := fun seg hseg => by
    obtain ⟨k,hk⟩ := hstream seg hseg
    exact hk.data
  have hf := (framing_run (.inl hs) hl (along_data hd)).prefixes
  rw [← events_slot,← run_slot] at hf
  refine ⟨hf,fun ho => ?_⟩
  have hc := copies_ordered (.inl hs) hl (along_data hd)
    (((slotComponent i).along_inputs (InOrder stream isn) t as).mpr ho)
  rw [← events_slot] at hc
  exact ⟨hf.1.trans hc,fun q hq => (hf.2 q hq).trans hc⟩

/-- Three bytes of the stream, in two segments. -/
def twoSegments : List Action :=
  [clientSends tcpFlagAck 51 1101 (cstr "ab"),clientSends tcpFlagAck 53 1101 (cstr "c")]

theorem received_ordered_inOrder :
    ((run connected twoSegments).sockets 1).received=cstr "abc" ∧
      ((run connected twoSegments).sockets 1).received <+: cstr "abcd" := by
  have hsegs : segmentsTo 1 connected twoSegments=
      [⟨4000,httpPort,51,1101,tcpFlagAck,cstr "ab"⟩,
        ⟨4000,httpPort,53,1101,tcpFlagAck,cstr "c"⟩] := by decide
  have hfirst : Segment.Carries ⟨4000,httpPort,51,1101,tcpFlagAck,cstr "ab"⟩ (cstr "abcd") 50 0 :=
    ⟨by decide,by decide,by decide⟩
  have hsecond : Segment.Carries ⟨4000,httpPort,53,1101,tcpFlagAck,cstr "c"⟩ (cstr "abcd") 50 2 :=
    ⟨by decide,by decide,by decide⟩
  refine ⟨by decide,
    ((received_ordered 1 connected _ (cstr "abcd") 50 (by decide) (by decide) ?_).2 ?_).1⟩
  · rw [hsegs]
    intro seg h
    rcases List.mem_cons.mp h with rfl|h
    · exact ⟨0,hfirst⟩
    · exact ⟨2,List.mem_singleton.mp h ▸ hsecond⟩
  · refine ⟨fun seg h _ => ?_,fun seg h _ => ?_,trivial⟩
    · have hs : (slotInput 1 connected (clientSends tcpFlagAck 51 1101 (cstr "ab"))).segment=
          some ⟨4000,httpPort,51,1101,tcpFlagAck,cstr "ab"⟩ := by decide
      obtain rfl := Option.some.inj (hs.symm.trans h)
      have hl : (connected.sockets 1).rxLen=0 := by decide
      rw [hl]
      exact hfirst
    · let t := (tcpStep connected (clientSends tcpFlagAck 51 1101 (cstr "ab"))).1
      have hs : (slotInput 1 t (clientSends tcpFlagAck 53 1101 (cstr "c"))).segment=
          some ⟨4000,httpPort,53,1101,tcpFlagAck,cstr "c"⟩ := by decide
      obtain rfl := Option.some.inj (hs.symm.trans h)
      have hl : (t.sockets 1).rxLen=2 := by decide
      rw [hl]
      exact hsecond

/-- A segment that arrives twice is stored twice. -/
theorem received_ordered_duplicate : ¬∀ (i : Slot) (t : TcpStack) (as : List Action)
    (stream : List UInt8) (isn : UInt32),(t.sockets i).state=.established →
    (t.sockets i).rxLen=0 → (∀ seg∈segmentsTo i t as,∃ k,seg.Carries stream isn k) →
    ((run t as).sockets i).received <+: stream ∧
      ∀ q∈parses (effectsOn i (events t as)),q <+: stream := by
  intro h
  let first := clientSends tcpFlagAck 51 1101 (cstr "a")
  have hseg : segmentsTo 1 connected [first,first]=List.replicate 2
      ⟨4000,httpPort,51,1101,tcpFlagAck,cstr "a"⟩ := by decide
  have hc : Segment.Carries ⟨4000,httpPort,51,1101,tcpFlagAck,cstr "a"⟩ (cstr "ab") 50 0 :=
    ⟨by decide,by decide,by decide⟩
  have hp := (h 1 connected [first,first] (cstr "ab") 50 (by decide) (by decide) (by
    rw [hseg]
    intro seg hm
    exact ⟨0,List.eq_of_mem_replicate hm ▸ hc⟩)).1
  have hr : ((run connected [first,first]).sockets 1).received=cstr "aa" := by decide
  rw [hr] at hp
  exact absurd hp (by decide)

end Stack

end Cllm.Tcp
