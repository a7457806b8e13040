import Cllm.Framework.Search
import Cllm.Tcp.Slot

namespace Cllm.Tcp

open Libc Network Http

/-- The states that share the data branch. -/
def TcpState.Serving (state : TcpState) : Prop := state=.established ∨ state=.closeWait

/-- The segments the data branch does not turn away by their flags. -/
structure Segment.IsData (seg : Segment) : Prop where
  syn : seg.syn=false
  fin : seg.fin=false
  acks : seg.acks=true

instance (seg : Segment) : Decidable seg.IsData :=
  decidable_of_iff (seg.syn=false ∧ seg.fin=false ∧ seg.acks=true)
    ⟨fun h => ⟨h.1,h.2.1,h.2.2⟩,fun h => ⟨h.syn,h.fin,h.acks⟩⟩

/-- s->ack = seq + (uint32_t)payload_len -/
def TcpSocket.ackPayload (s : TcpSocket) (seg : Segment) : TcpSocket :=
  {s with ack := seg.seq+UInt32.ofNat seg.payload.length}

/-- The socket and the copied bytes when the data branch looks for a request. -/
abbrev TcpSocket.stored (s : TcpSocket) (seg : Segment) : TcpSocket × List Effect :=
  storePayload (s.ackPayload seg) seg.payload

/-- The ACK of a segment that carries data. -/
def dataAck (s : TcpSocket) (seg : Segment) : List Effect :=
  if seg.payload.length>0 then [tcpSendCtrl s tcpFlagAck] else []

/-- The transition table of tcp_receive's switch: every case it distinguishes, with its guards,
the socket after it and what it has sent, copied and called. -/
inductive Transition (routeRequest : HttpRequest → HttpResponse) (s : TcpSocket)
    (seg : Segment) : TcpSocket → List Effect → Prop
  | listen (hs : s.state=.listen) : Transition routeRequest s seg s []
  | synAck (hs : s.state=.synReceived) (ha : seg.acks=false) :
      Transition routeRequest s seg {s with ack := seg.seq+1}
        [tcpSendCtrl {s with ack := seg.seq+1} (tcpFlagSyn|||tcpFlagAck)]
  | handshake (hs : s.state=.synReceived) (ha : seg.acks=true) :
      Transition routeRequest s seg {s with ack := seg.seq+1,state := .established,seq := seg.ack}
        [tcpSendCtrl {s with ack := seg.seq+1,state := .established,seq := seg.ack} tcpFlagAck]
  | straySyn (hs : s.state.Serving) (hy : seg.syn=true) : Transition routeRequest s seg s []
  | fin (hs : s.state=.established) (hy : seg.syn=false) (hf : seg.fin=true) :
      Transition routeRequest s seg
        {s with ack := seg.seq+UInt32.ofNat seg.payload.length+1,state := .closeWait}
        [tcpSendCtrl {s with ack := seg.seq+UInt32.ofNat seg.payload.length+1} tcpFlagAck]
  | secondFin (hs : s.state=.closeWait) (hy : seg.syn=false) (hf : seg.fin=true) :
      Transition routeRequest s seg
        (socketClose {s with ack := seg.seq+UInt32.ofNat seg.payload.length+1})
        [tcpSendCtrl {s with ack := seg.seq+UInt32.ofNat seg.payload.length+1} tcpFlagAck]
  | noAck (hs : s.state.Serving) (hy : seg.syn=false) (hf : seg.fin=false) (ha : seg.acks=false) :
      Transition routeRequest s seg (s.ackPayload seg) []
  | pending (hs : s.state.Serving) (hd : seg.IsData)
      (hr : findRequestEnd (s.stored seg).1.received=none) :
      Transition routeRequest s seg (s.stored seg).1
        ((s.stored seg).2++dataAck (s.stored seg).1 seg++
          if (s.stored seg).1.rxLen>0 then [] else [tcpSendCtrl (s.stored seg).1 tcpFlagAck])
  | answered (n : Nat) (hs : s.state.Serving) (hd : seg.IsData)
      (hr : findRequestEnd (s.stored seg).1.received=some n) :
      Transition routeRequest s seg (answer routeRequest (s.stored seg).1 n).1
        ((s.stored seg).2++dataAck (s.stored seg).1 seg++
          (answer routeRequest (s.stored seg).1 n).2)
  | closing (hs : s.state=.finWait1) (hf : seg.fin=true) :
      Transition routeRequest s seg {s with ack := s.ack+1,state := .timeWait} []
  | finAcked (hs : s.state=.finWait1) (hf : seg.fin=false) (ha : seg.acks=true) :
      Transition routeRequest s seg {s with state := .finWait2} []
  | finIgnored (hs : s.state=.finWait1) (hf : seg.fin=false) (ha : seg.acks=false) :
      Transition routeRequest s seg s []
  | closed (hs : s.state=.finWait2) (hf : seg.fin=true) :
      Transition routeRequest s seg (socketClose {s with ack := s.ack+1})
        [tcpSendCtrl {s with ack := s.ack+1} tcpFlagAck]
  | waiting (hs : s.state=.finWait2) (hf : seg.fin=false) : Transition routeRequest s seg s []
  | lastAck (hs : s.state=.lastAck) (ha : seg.acks=true) :
      Transition routeRequest s seg (socketClose s) []
  | lastAckIgnored (hs : s.state=.lastAck) (ha : seg.acks=false) :
      Transition routeRequest s seg s []
  | default (hs : s.state=.closed ∨ s.state=.synSent ∨ s.state=.closing ∨ s.state=.timeWait) :
      Transition routeRequest s seg s []

theorem findRequestEnd_eq (xs : List UInt8) :
    findRequestEnd xs=Search.firstEnd [cr,lf,cr,lf] xs := by
  fun_induction findRequestEnd xs with
  | case1 a b c d rest h =>
    obtain ⟨rfl,rfl,rfl,rfl⟩ := h
    simp [Search.firstEnd]
  | case2 a b c d rest h ih =>
    rw [Search.firstEnd,if_neg,ih]
    simpa [List.cons_prefix_cons,eq_comm] using h
  | case3 xs h =>
    symm
    rw [Search.firstEnd_eq_none_iff]
    intro hin
    obtain ⟨a,b,c,d,rest,rfl⟩ : ∃ a b c d rest,xs=a::b::c::d::rest := by
      have hl := hin.length_le
      rcases xs with _|⟨a,_|⟨b,_|⟨c,_|⟨d,rest⟩⟩⟩⟩
      · simp at hl
      · simp at hl
      · simp at hl
      · simp at hl
      · exact ⟨a,b,c,d,rest,rfl⟩
    exact h a b c d rest rfl

theorem receiveData_transition (rr : HttpRequest → HttpResponse) {s : TcpSocket} {seg : Segment}
    (hs : s.state.Serving) (hd : seg.IsData) :
    Transition rr s seg (receiveData rr (s.ackPayload seg) seg.payload).1
      (receiveData rr (s.ackPayload seg) seg.payload).2 := by
  rw [receiveData]
  by_cases hl : (s.stored seg).1.rxLen>0
  · simp only [if_pos hl]
    cases hr : findRequestEnd (s.stored seg).1.received with
    | none =>
      have h := @Transition.pending rr s seg hs hd hr
      rwa [if_pos hl,List.append_nil] at h
    | some n => exact .answered n hs hd hr
  · have hz : (s.stored seg).1.rxLen=0 := by omega
    have hr : findRequestEnd (s.stored seg).1.received=none := by
      rw [TcpSocket.received,hz]; rfl
    have h := @Transition.pending rr s seg hs hd hr
    simp only [if_neg hl] at h ⊢
    exact h

theorem receiveEstablished_transition (rr : HttpRequest → HttpResponse) {s : TcpSocket}
    (seg : Segment) (hs : s.state.Serving) :
    Transition rr s seg (receiveEstablished rr s seg).1 (receiveEstablished rr s seg).2 := by
  rw [receiveEstablished]
  cases hy : seg.syn with
  | true => exact .straySyn hs hy
  | false =>
    cases hf : seg.fin with
    | true =>
      rcases hs with hs|hs
      · simpa [hs] using @Transition.fin rr s seg hs hy hf
      · simpa [hs,socketClose] using @Transition.secondFin rr s seg hs hy hf
    | false =>
      cases ha : seg.acks with
      | false => exact .noAck hs hy hf ha
      | true => exact receiveData_transition rr hs ⟨hy,hf,ha⟩

/-- The switch does what the table says. -/
theorem socketReceive_transition (rr : HttpRequest → HttpResponse) (ip now : UInt32)
    (s : TcpSocket) (seg : Segment) :
    Transition rr (s.touch ip now) seg (socketReceive rr ip now s seg).1
      (socketReceive rr ip now s seg).2 := by
  rw [socketReceive]
  generalize s.touch ip now=s
  cases hs : s.state with
  | closed => exact .default (by simp [hs])
  | listen => exact .listen hs
  | synSent => exact .default (by simp [hs])
  | synReceived =>
    simp only [receiveSynReceived]
    cases ha : seg.acks with
    | false => exact .synAck hs ha
    | true => exact .handshake hs ha
  | established => exact receiveEstablished_transition rr seg (.inl hs)
  | finWait1 =>
    simp only [receiveFinWait1]
    cases hf : seg.fin with
    | true => exact .closing hs hf
    | false =>
      cases ha : seg.acks with
      | false => exact .finIgnored hs hf ha
      | true => exact .finAcked hs hf ha
  | finWait2 =>
    simp only [receiveFinWait2]
    cases hf : seg.fin with
    | true => exact .closed hs hf
    | false => exact .waiting hs hf
  | closeWait => exact receiveEstablished_transition rr seg (.inr hs)
  | closing => exact .default (by simp [hs])
  | lastAck =>
    simp only [receiveLastAck]
    cases ha : seg.acks with
    | false => exact .lastAckIgnored hs ha
    | true => exact .lastAck hs ha
  | timeWait => exact .default (by simp [hs])

end Cllm.Tcp
