import Cllm.Tcp.Answer

namespace Cllm.Tcp

open Libc Network Http

/-- The states of a connection in the order in which it goes through them. -/
def lifecycle : List TcpState :=
  [.synReceived,.established,.closeWait,.finWait1,.finWait2,.timeWait,.closed]

/-- `b` comes strictly later than `a` in the life of a connection. -/
abbrev TcpState.Before (a b : TcpState) : Prop := [a,b].Sublist lifecycle

/-- How many requests a connection in this state can still make. -/
def TcpState.requestsLeft : TcpState → Nat
  | .synReceived => 1
  | .established => 1
  | .closeWait => 1
  | _ => 0

theorem TcpState.requestsLeft_le (state : TcpState) : state.requestsLeft≤1 := by
  cases state <;> decide

theorem TcpState.Serving.requestsLeft {state : TcpState} (h : state.Serving) :
    state.requestsLeft=1 := by
  rcases h with rfl|rfl <;> rfl

/-- What `es` parses, routes and responds to comes out of a budget that goes from `n` to `m`. -/
structure Spends (es : List Effect) (n m : Nat) : Prop where
  parsed : (parses es).length+m≤n
  routed : (routes es).length+m≤n
  answered : (responses es).length+m≤n

theorem Spends.append {x y : List Effect} {n m k : Nat} (hx : Spends x n m) (hy : Spends y m k) :
    Spends (x++y) n k := by
  obtain ⟨hxp,hxr,hxs⟩ := hx
  obtain ⟨hyp,hyr,hys⟩ := hy
  refine ⟨?_,?_,?_⟩
  · rw [parses_append,List.length_append]; omega
  · rw [routes_append,List.length_append]; omega
  · rw [responses_append,List.length_append]; omega

theorem Spends.nil {n m : Nat} (h : m≤n) : Spends [] n m := ⟨by simpa,by simpa,by simpa⟩

theorem Spends.ctrl (s : TcpSocket) {flags : UInt8} (hf : flags≠tcpFlagAck|||tcpFlagPsh)
    {n m : Nat} (h : m≤n) : Spends [tcpSendCtrl s flags] n m :=
  ⟨by simpa [tcpSendCtrl],by simpa [tcpSendCtrl],by simpa [tcpSendCtrl,ctrlSegment,hf]⟩

theorem Spends.storing (s : TcpSocket) (seg : Segment) (n : Nat) :
    Spends ((s.stored seg).2++dataAck (s.stored seg).1 seg) n n := by
  have hstore : Spends (s.stored seg).2 n n := by
    rcases storePayload_effects (s.ackPayload seg) seg.payload with h|h
    · rw [h]; exact .nil le_rfl
    · rw [h]; exact ⟨by simp,by simp,by simp⟩
  refine hstore.append ?_
  rw [dataAck]
  split_ifs
  · exact .ctrl _ (by decide) le_rfl
  · exact .nil le_rfl

theorem Spends.answering (rr : HttpRequest → HttpResponse) (s : TcpSocket) (n : Nat) :
    Spends (answer rr s n).2 1 0 := by
  have hfin : tcpFlagFin|||tcpFlagAck≠tcpFlagAck|||tcpFlagPsh := by decide
  have hresp : (responses (answer rr s n).2).length≤1 := by
    simp only [answer]
    rcases respond_effects rr s n with h|⟨req,-,h⟩ <;>
      rcases sendResponse_eq s (respond rr s n).1 with ⟨data,hd⟩|hd <;>
        rw [h,hd] <;> simp [tcpSendData,tcpSendCtrl,ctrlSegment,hfin]
  refine ⟨by rw [parses_answer]; rfl,?_,hresp⟩
  rcases routes_answer rr s n with h|⟨req,-,h⟩ <;> simp [h]

namespace Transition

variable {rr : HttpRequest → HttpResponse} {s s' : TcpSocket} {seg : Segment} {es : List Effect}

/-- A segment leaves the state or moves it on. -/
theorem forward (h : Transition rr s seg s' es) (hl : s.state≠.lastAck) :
    s'.state=s.state ∨ s.state.Before s'.state := by
  cases h with
  | listen => exact .inl rfl
  | synAck => exact .inl rfl
  | handshake hs => right; rw [hs]; exact (by decide : TcpState.Before .synReceived .established)
  | straySyn => exact .inl rfl
  | fin hs => right; rw [hs]; exact (by decide : TcpState.Before .established .closeWait)
  | secondFin hs => right; rw [hs]; exact (by decide : TcpState.Before .closeWait .closed)
  | noAck => exact .inl rfl
  | pending => left; simp [TcpSocket.stored,TcpSocket.ackPayload]
  | answered n hs => right; rcases hs with hs|hs <;> rw [hs,answer_state] <;> decide
  | closing hs => right; rw [hs]; exact (by decide : TcpState.Before .finWait1 .timeWait)
  | finAcked hs => right; rw [hs]; exact (by decide : TcpState.Before .finWait1 .finWait2)
  | finIgnored => exact .inl rfl
  | closed hs => right; rw [hs]; exact (by decide : TcpState.Before .finWait2 .closed)
  | waiting => exact .inl rfl
  | lastAck hs => exact absurd hs hl
  | lastAckIgnored => exact .inl rfl
  | default => exact .inl rfl

/-- Only an answered request is parsed, routed or responded to, and it ends the budget. -/
theorem spends (h : Transition rr s seg s' es) :
    Spends es s.state.requestsLeft s'.state.requestsLeft := by
  cases h with
  | listen => exact .nil le_rfl
  | synAck => exact .ctrl _ (by decide) le_rfl
  | handshake hs => rw [hs]; exact .ctrl _ (by decide) le_rfl
  | straySyn => exact .nil le_rfl
  | fin hs => rw [hs]; exact .ctrl _ (by decide) le_rfl
  | secondFin hs => rw [hs]; exact .ctrl _ (by decide) (Nat.zero_le _)
  | noAck => exact .nil le_rfl
  | pending =>
    have hst : (s.stored seg).1.state=s.state := by simp [TcpSocket.stored,TcpSocket.ackPayload]
    rw [hst]
    refine (Spends.storing s seg _).append ?_
    split_ifs
    · exact .nil le_rfl
    · exact .ctrl _ (by decide) le_rfl
  | answered n hs =>
    rw [hs.requestsLeft]
    exact (Spends.storing s seg 1).append (.answering rr _ n)
  | closing hs => rw [hs]; exact .nil le_rfl
  | finAcked hs => rw [hs]; exact .nil le_rfl
  | finIgnored => exact .nil le_rfl
  | closed hs => rw [hs]; exact .ctrl _ (by decide) le_rfl
  | waiting => exact .nil le_rfl
  | lastAck hs => rw [hs]; exact .nil le_rfl
  | lastAckIgnored => exact .nil le_rfl
  | default => exact .nil le_rfl

end Transition

theorem socketPeriodic_state (now : UInt32) (s : TcpSocket) :
    (socketPeriodic now s).1.state=s.state := by
  rw [socketPeriodic]
  split_ifs <;> rfl

theorem socketPeriodic_spends (now : UInt32) (s : TcpSocket) (n : Nat) :
    Spends (socketPeriodic now s).2 n n := by
  rw [socketPeriodic]
  split_ifs
  · exact .ctrl _ (by decide) le_rfl
  · exact .nil le_rfl

/-- The slot is in use whenever one of the actions is taken. -/
abbrev InUse (i : Slot) : TcpStack → List Action → Prop :=
  Machine.Along tcpStep (fun t _ => (t.sockets i).state≠.closed)

theorem InUse.head {i : Slot} {t : TcpStack} {as : List Action} {b : Action} (h : InUse i t (as++[b])) :
    (t.sockets i).state≠.closed := by
  cases as with
  | nil => exact h.1
  | cons a as => exact h.1

section Slots

variable (i : Slot)

/-- A slot that is in use only moves forward. -/
theorem slotStep_forward (s : TcpSocket) (x : SlotInput) (hx : Receives s x)
    (ho : s.state≠.closed) (hl : s.state≠.lastAck) :
    (slotStep i s x).1.state=s.state ∨ s.state.Before (slotStep i s x).1.state := by
  cases x with
  | idle => exact .inl rfl
  | deliver rr ip now seg => exact (socketReceive_transition rr ip now s seg).forward hl
  | accept rr ip now seg => exact absurd hx.1 ho
  | tick now => exact .inl (socketPeriodic_state now s)

theorem slotStep_spends (s : TcpSocket) (x : SlotInput) (hx : Receives s x)
    (ho : s.state≠.closed) :
    Spends (slotStep i s x).2 s.state.requestsLeft (slotStep i s x).1.state.requestsLeft := by
  cases x with
  | idle => exact .nil le_rfl
  | deliver rr ip now seg => exact (socketReceive_transition rr ip now s seg).spends
  | accept rr ip now seg => exact absurd hx.1 ho
  | tick now =>
    simp only [slotStep,socketPeriodic_state]
    exact socketPeriodic_spends now s _

/-- The first step of a connection, or any other, spends at most one request. -/
theorem slotStep_spends_one (s : TcpSocket) (x : SlotInput) :
    Spends (slotStep i s x).2 1 (slotStep i s x).1.state.requestsLeft := by
  have one (es : List Effect) {n m : Nat} (hn : n≤1) (h : Spends es n m) : Spends es 1 m :=
    ⟨h.parsed.trans hn,h.routed.trans hn,h.answered.trans hn⟩
  cases x with
  | idle => exact .nil (TcpState.requestsLeft_le _)
  | deliver rr ip now seg =>
    exact one _ (TcpState.requestsLeft_le _) (socketReceive_transition rr ip now s seg).spends
  | accept rr ip now seg =>
    have h := (socketReceive_transition rr ip now (synSocket i now ip seg) seg).spends
    exact one _ (TcpState.requestsLeft_le _) h
  | tick now =>
    simp only [slotStep,socketPeriodic_state]
    exact one _ (TcpState.requestsLeft_le s.state) (socketPeriodic_spends now s _)

theorem run_spends (t : TcpStack) (as : List Action)
    (ho : InUse i t as) :
    Spends (effectsOn i (events t as)) (t.sockets i).state.requestsLeft
      ((run t as).sockets i).state.requestsLeft := by
  induction as generalizing t with
  | nil => exact .nil le_rfl
  | cons a as ih =>
    have h := slotStep_spends i _ _ (slotInput_receives i t a) ho.1
    rw [← tcpStep_sockets,← tcpStep_effects] at h
    rw [events,Machine.outputs_cons,effectsOn_append]
    exact h.append (ih _ ho.2)

/-- A slot listens, is closed, or is in some state of a connection's life. -/
def TcpState.Known (state : TcpState) : Prop := state=.listen ∨ state∈lifecycle

theorem slotStep_known (s : TcpSocket) (x : SlotInput) (hx : Receives s x)
    (h : s.state.Known) : (slotStep i s x).1.state.Known := by
  have step {a b : TcpState} (ha : a.Known) (h : b=a ∨ a.Before b) : b.Known := by
    rcases h with rfl|h
    · exact ha
    · exact .inr (h.subset (by simp))
  have notLast {a : TcpState} (ha : a.Known) : a≠.lastAck := by
    rintro rfl
    rcases ha with h|h
    · cases h
    · revert h; decide
  cases x with
  | idle => exact h
  | deliver rr ip now seg =>
    exact step h ((socketReceive_transition rr ip now s seg).forward (notLast h))
  | accept rr ip now seg =>
    have hk : ((synSocket i now ip seg).touch ip now).state.Known := .inr (by simp [
      TcpSocket.touch,synSocket,lifecycle])
    exact step hk ((socketReceive_transition rr ip now (synSocket i now ip seg) seg).forward
      (notLast hk))
  | tick now => rwa [slotStep,socketPeriodic_state]

/-- Every slot of every run is in such a state. -/
theorem run_known (as : List Action) : ((run tcpInit as).sockets i).state.Known := by
  rw [run_slot]
  have h0 : (tcpInit.sockets i).state.Known := by
    rw [tcpInit_sockets]
    split_ifs
    · exact .inl rfl
    · exact .inr (by decide)
  exact Machine.invariant_along (slotStep i) (fun s => s.state.Known)
    (fun s x h hx => slotStep_known i s x hx h) h0 (along_receives i tcpInit as)

theorem run_notLastAck (as : List Action) : ((run tcpInit as).sockets i).state≠.lastAck := by
  intro h
  rcases h ▸ run_known i as with h|h
  · cases h
  · revert h; decide

/-- Between its allocation and its return to CLOSED a slot only moves forward, and it parses,
routes and answers at most one request. -/
theorem run_lifecycle (as : List Action) :
    (∀ a,((run tcpInit as).sockets i).state≠.closed →
      ((run tcpInit (as++[a])).sockets i).state=((run tcpInit as).sockets i).state ∨
      ((run tcpInit as).sockets i).state.Before ((run tcpInit (as++[a])).sockets i).state) ∧
    ∀ a bs,InUse i (run tcpInit (as++[a])) bs →
      (parses (effectsOn i (events (run tcpInit as) (a::bs)))).length≤1 ∧
      (routes (effectsOn i (events (run tcpInit as) (a::bs)))).length≤1 ∧
      (responses (effectsOn i (events (run tcpInit as) (a::bs)))).length≤1 := by
  refine ⟨fun a ho => ?_,fun a bs ho => ?_⟩
  · rw [run_concat,tcpStep_sockets]
    exact slotStep_forward i _ _ (slotInput_receives i (run tcpInit as) a) ho
      (run_notLastAck i as)
  · have hfirst := slotStep_spends_one i ((run tcpInit as).sockets i)
      (slotInput i (run tcpInit as) a)
    rw [← tcpStep_sockets,← tcpStep_effects] at hfirst
    rw [run_concat] at ho
    have h := hfirst.append (run_spends i _ bs ho)
    rw [← effectsOn_append] at h
    exact ⟨(Nat.le_add_right _ _).trans h.parsed,(Nat.le_add_right _ _).trans h.routed,
      (Nat.le_add_right _ _).trans h.answered⟩

end Slots

theorem run_lifecycle_client :
    (((run tcpInit [clientSends tcpFlagSyn 50 0 []]).sockets 1).state.Before
      ((run tcpInit handshake).sockets 1).state) ∧
    (parses (effectsOn 1 (events tcpInit (handshake++[getRequest])))).length≤1 := by
  refine ⟨?_,?_⟩
  · rcases (run_lifecycle 1 [clientSends tcpFlagSyn 50 0 []]).1
      (clientSends tcpFlagAck 51 1101 []) (by decide) with hs|hs
    · exact absurd hs (by decide)
    · exact hs
  · exact ((run_lifecycle 1 []).2 (clientSends tcpFlagSyn 50 0 [])
      [clientSends tcpFlagAck 51 1101 [],getRequest] ⟨by decide,by decide,trivial⟩).1

end Cllm.Tcp
