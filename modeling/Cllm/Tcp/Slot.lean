import Cllm.Tcp.Receive

namespace Cllm.Tcp

open Libc Network Http

/-- What a call into the stack means to one slot. -/
inductive SlotInput where
  | idle
  | deliver (routeRequest : HttpRequest → HttpResponse) (remoteIp now : UInt32) (seg : Segment)
  | accept (routeRequest : HttpRequest → HttpResponse) (remoteIp now : UInt32) (seg : Segment)
  | tick (now : UInt32)

def slotStep (i : Slot) (s : TcpSocket) : SlotInput → TcpSocket × List Effect
  | .idle => (s,[])
  | .deliver routeRequest remoteIp now seg => socketReceive routeRequest remoteIp now s seg
  | .accept routeRequest remoteIp now seg =>
    socketReceive routeRequest remoteIp now (synSocket i now remoteIp seg) seg
  | .tick now => socketPeriodic now s

/-- The segment a call brings to the slot. -/
def SlotInput.segment : SlotInput → Option Segment
  | .deliver _ _ _ seg => some seg
  | .accept _ _ _ seg => some seg
  | _ => none

/-- What a segment means to the slot, once it is known where it goes. -/
def segmentInput (i : Slot) (routeRequest : HttpRequest → HttpResponse) (remoteIp now : UInt32)
    (seg : Segment) : Target → SlotInput
  | .found j => if j=i then .deliver routeRequest remoteIp now seg else .idle
  | .allocated j => if j=i then .accept routeRequest remoteIp now seg else .idle
  | .nowhere => .idle

def slotInput (i : Slot) (t : TcpStack) : Action → SlotInput
  | .periodic => .tick (t.now+1)
  | .receive routeRequest remoteIp packet =>
    match tcpSegment packet with
    | none => .idle
    | some seg =>
      segmentInput i routeRequest remoteIp t.now seg (target t.sockets remoteIp seg)

theorem effectsOn_append (i : Slot) (x y : List Event) :
    effectsOn i (x++y)=effectsOn i x++effectsOn i y := List.filterMap_append

theorem effectsOn_map (i j : Slot) (es : List Effect) :
    effectsOn i (es.map (⟨some j,·⟩))=if j=i then es else [] := by
  by_cases h : j=i
  · simp [effectsOn,h,List.filterMap_map]
  · simp [effectsOn,h,List.filterMap_map]

private theorem effectsOn_walk (i : Slot) (f : Slot → List Effect) {l : List Slot}
    (hl : l.Nodup) :
    effectsOn i (l.flatMap fun j => (f j).map (⟨some j,·⟩))=if i∈l then f i else [] := by
  induction l with
  | nil => rfl
  | cons j l ih =>
    obtain ⟨hj,hl⟩ := List.nodup_cons.mp hl
    rw [List.flatMap_cons,effectsOn_append,effectsOn_map,ih hl]
    by_cases h : j=i
    · subst h; simp [hj]
    · simp [h,Ne.symm h]

/-- A walk over all slots leaves each slot what was done for it. -/
theorem effectsOn_flatMap (i : Slot) (f : Slot → List Effect) :
    effectsOn i ((List.finRange tcpMaxSockets).flatMap fun j => (f j).map (⟨some j,·⟩))=f i := by
  rw [effectsOn_walk i f (List.nodup_finRange _),if_pos (List.mem_finRange i)]

theorem tcpInput_slot (i : Slot) (rr : HttpRequest → HttpResponse) (ip : UInt32) (seg : Segment)
    (t : TcpStack) :
    ((tcpInput rr ip seg t).1.sockets i,effectsOn i (tcpInput rr ip seg t).2)=
      slotStep i (t.sockets i) (segmentInput i rr ip t.now seg (target t.sockets ip seg)) := by
  rw [tcpInput]
  cases target t.sockets ip seg with
  | found j =>
    by_cases h : j=i
    · subst h; simp [segmentInput,slotStep,effectsOn_map]
    · simp [segmentInput,slotStep,effectsOn_map,h,Function.update_of_ne (Ne.symm h)]
  | allocated j =>
    by_cases h : j=i
    · subst h; simp [segmentInput,slotStep,effectsOn_map]
    · simp [segmentInput,slotStep,effectsOn_map,h,Function.update_of_ne (Ne.symm h)]
  | nowhere =>
    by_cases h : seg.rst
    · simp [segmentInput,slotStep,effectsOn,h]
    · simp [segmentInput,slotStep,effectsOn,h]

theorem tcpStep_slot (i : Slot) (t : TcpStack) (a : Action) :
    ((tcpStep t a).1.sockets i,effectsOn i (tcpStep t a).2)=
      slotStep i (t.sockets i) (slotInput i t a) := by
  cases a with
  | periodic =>
    simp only [tcpStep,tcpPeriodic,slotStep,slotInput]
    rw [effectsOn_flatMap i fun j => (socketPeriodic (t.now+1) (t.sockets j)).2]
  | receive rr ip packet =>
    simp only [tcpStep,tcpReceive,slotInput]
    cases tcpSegment packet with
    | none => rfl
    | some seg => exact tcpInput_slot i rr ip seg t

theorem tcpStep_sockets (i : Slot) (t : TcpStack) (a : Action) :
    (tcpStep t a).1.sockets i=(slotStep i (t.sockets i) (slotInput i t a)).1 :=
  congrArg Prod.fst (tcpStep_slot i t a)

theorem tcpStep_effects (i : Slot) (t : TcpStack) (a : Action) :
    effectsOn i (tcpStep t a).2=(slotStep i (t.sockets i) (slotInput i t a)).2 :=
  congrArg Prod.snd (tcpStep_slot i t a)

theorem run_concat (t : TcpStack) (as : List Action) (a : Action) :
    run t (as++[a])=(tcpStep (run t as) a).1 := Machine.runState_append tcpStep t as [a]

/-- Each slot is a machine of its own inside the stack. -/
def slotComponent (i : Slot) : Machine.Component tcpStep (slotStep i) where
  view t := t.sockets i
  input := slotInput i
  seen := effectsOn i
  seen_nil := rfl
  seen_append := effectsOn_append i
  view_step := tcpStep_sockets i
  seen_step := tcpStep_effects i

/-- What a run of the stack brings to one slot. -/
abbrev slotInputs (i : Slot) : TcpStack → List Action → List SlotInput :=
  (slotComponent i).inputs

abbrev slotRun (i : Slot) := Machine.runState (slotStep i)
abbrev slotEffects (i : Slot) := Machine.outputs (slotStep i)

theorem run_slot (i : Slot) (t : TcpStack) (as : List Action) :
    (run t as).sockets i=slotRun i (t.sockets i) (slotInputs i t as) :=
  (slotComponent i).view_run t as

theorem events_slot (i : Slot) (t : TcpStack) (as : List Action) :
    effectsOn i (events t as)=slotEffects i (t.sockets i) (slotInputs i t as) :=
  (slotComponent i).seen_run t as

/-- The segments a run brings to the slot, in order. -/
def segmentsTo (i : Slot) (t : TcpStack) (as : List Action) : List Segment :=
  (slotInputs i t as).filterMap SlotInput.segment

/-- What holds of a slot when it is given an input. -/
def Receives (s : TcpSocket) : SlotInput → Prop
  | .deliver _ remoteIp _ seg => s.matches remoteIp seg.srcPort seg.dstPort false=true
  | .accept _ _ _ seg => s.state=.closed ∧ seg.syn=true
  | _ => True

theorem target_found {sockets : Sockets} {ip : UInt32} {seg : Segment} {i : Slot}
    (h : target sockets ip seg=.found i) :
    (sockets i).matches ip seg.srcPort seg.dstPort false=true := by
  rw [target] at h
  split at h
  · next j hj =>
    obtain rfl := Target.found.inj h
    exact socketLookup_some hj
  · repeat' split at h
    all_goals cases h

theorem target_allocated {sockets : Sockets} {ip : UInt32} {seg : Segment} {i : Slot}
    (h : target sockets ip seg=.allocated i) :
    socketLookup sockets ip seg.srcPort seg.dstPort false=none ∧ seg.syn=true ∧
      (sockets i).state=.closed := by
  rw [target] at h
  split at h
  · cases h
  · next hl =>
    split_ifs at h with hs
    · split at h
      · split at h
        · next j table hj =>
          obtain rfl := Target.allocated.inj h
          exact ⟨hl,hs,(socketAlloc_some hj).1⟩
        · cases h
      · cases h

theorem slotInput_receives (i : Slot) (t : TcpStack) (a : Action) :
    Receives (t.sockets i) (slotInput i t a) := by
  cases a with
  | periodic => trivial
  | receive rr ip packet =>
    rw [slotInput]
    cases tcpSegment packet with
    | none => trivial
    | some seg =>
      simp only
      cases hj : target t.sockets ip seg with
      | found j =>
        rw [segmentInput]
        split_ifs with h
        · exact h ▸ target_found hj
        · trivial
      | allocated j =>
        rw [segmentInput]
        split_ifs with h
        · exact h ▸ (target_allocated hj).2.symm
        · trivial
      | nowhere => trivial

theorem slotInput_receive (i : Slot) (t : TcpStack) (rr : HttpRequest → HttpResponse)
    (ip : UInt32) (packet : List UInt8) : slotInput i t (.receive rr ip packet)=.idle ∨
      ∃ seg,slotInput i t (.receive rr ip packet)=.deliver rr ip t.now seg ∨
        slotInput i t (.receive rr ip packet)=.accept rr ip t.now seg := by
  rw [slotInput]
  cases tcpSegment packet with
  | none => exact .inl rfl
  | some seg =>
    simp only
    cases target t.sockets ip seg with
    | found j =>
      by_cases h : j=i
      · exact .inr ⟨seg,.inl (by rw [segmentInput,if_pos h])⟩
      · exact .inl (by rw [segmentInput,if_neg h])
    | allocated j =>
      by_cases h : j=i
      · exact .inr ⟨seg,.inr (by rw [segmentInput,if_pos h])⟩
      · exact .inl (by rw [segmentInput,if_neg h])
    | nowhere => exact .inl rfl

theorem along_receives (i : Slot) (t : TcpStack) (as : List Action) :
    Machine.Along (slotStep i) Receives (t.sockets i) (slotInputs i t as) :=
  ((slotComponent i).along_inputs Receives t as).mpr
    (Machine.along_of_forall _ (slotInput_receives i) t as)

/-- The arrival of a segment from port 4000 of 10.0.2.2; any request in it is refused. -/
def clientSends (flags : UInt8) (seq ack : UInt32) (payload : List UInt8) : Action :=
  .receive (fun _ => badRequest) 0x0A000202 (Segment.packet ⟨4000,httpPort,seq,ack,flags,payload⟩)

/-- That client's handshake; its connection is in slot 1. -/
def handshake : List Action := [clientSends tcpFlagSyn 50 0 [],clientSends tcpFlagAck 51 1101 []]

/-- Its first request, of 18 bytes. -/
def getRequest : Action := clientSends tcpFlagAck 51 1101 (cstr "GET / HTTP/1.1\r\n\r\n")

/-- The stack after the handshake. -/
def connected : TcpStack := run tcpInit handshake

end Cllm.Tcp
