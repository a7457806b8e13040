import Cllm.Tcp.Transition

namespace Cllm.Tcp

open Libc Network Http

@[simp] def Effect.transmitted : Effect → Option OutSegment
  | .transmit o => some o
  | _ => none

/-- The segments of tcp_send_data. -/
@[simp] def Effect.responded : Effect → Option OutSegment
  | .transmit o => if o.flags=tcpFlagAck|||tcpFlagPsh then some o else none
  | _ => none

@[simp] def Effect.parsed : Effect → Option (List UInt8)
  | .parse request => some request
  | _ => none

@[simp] def Effect.routed : Effect → Option HttpRequest
  | .route request => some request
  | _ => none

@[simp] def Effect.copied : Effect → List UInt8
  | .store payload => payload
  | _ => []

def transmits (es : List Effect) : List OutSegment := es.filterMap Effect.transmitted
def responses (es : List Effect) : List OutSegment := es.filterMap Effect.responded
def parses (es : List Effect) : List (List UInt8) := es.filterMap Effect.parsed
def routes (es : List Effect) : List HttpRequest := es.filterMap Effect.routed
def copies (es : List Effect) : List UInt8 := es.flatMap Effect.copied

section Effects

variable (e : Effect) (x y : List Effect)

@[simp] theorem transmits_nil : transmits []=[] := rfl
@[simp] theorem responses_nil : responses []=[] := rfl
@[simp] theorem parses_nil : parses []=[] := rfl
@[simp] theorem routes_nil : routes []=[] := rfl
@[simp] theorem copies_nil : copies []=[] := rfl

private theorem filterMap_cons_toList {β : Type} (f : Effect → Option β) (e : Effect)
    (x : List Effect) : (e::x).filterMap f=(f e).toList++x.filterMap f := by
  rw [List.filterMap_cons]
  cases f e <;> rfl

@[simp] theorem transmits_cons : transmits (e::x)=e.transmitted.toList++transmits x :=
  filterMap_cons_toList _ e x

@[simp] theorem responses_cons : responses (e::x)=e.responded.toList++responses x :=
  filterMap_cons_toList _ e x

@[simp] theorem parses_cons : parses (e::x)=e.parsed.toList++parses x :=
  filterMap_cons_toList _ e x

@[simp] theorem routes_cons : routes (e::x)=e.routed.toList++routes x :=
  filterMap_cons_toList _ e x

@[simp] theorem copies_cons : copies (e::x)=e.copied++copies x := List.flatMap_cons

@[simp] theorem transmits_append : transmits (x++y)=transmits x++transmits y :=
  List.filterMap_append

@[simp] theorem responses_append : responses (x++y)=responses x++responses y :=
  List.filterMap_append

@[simp] theorem parses_append : parses (x++y)=parses x++parses y := List.filterMap_append

@[simp] theorem routes_append : routes (x++y)=routes x++routes y := List.filterMap_append

@[simp] theorem copies_append : copies (x++y)=copies x++copies y := List.flatMap_append

end Effects

section Storing

variable (s : TcpSocket) (payload : List UInt8)

/-- The buffer takes the payload: the bound of the source is strict. -/
def TcpSocket.HasRoom : Prop := s.rxLen+payload.length<tcpRxBufSize

/-- What a data segment leaves in the receive buffer is stored whole or not at all. -/
theorem storePayload_cases :
    (payload≠[] ∧ s.HasRoom payload ∧ (storePayload s payload).2=[.store payload] ∧
      (storePayload s payload).1.rxLen=s.rxLen+payload.length ∧
      (storePayload s payload).1.received=s.received++payload) ∨
    ((payload=[] ∨ ¬s.HasRoom payload) ∧ storePayload s payload=(s,[])) := by
  by_cases h : payload.length>0 ∧ s.rxLen+payload.length<tcpRxBufSize
  · refine .inl ⟨List.length_pos_iff.mp h.1,h.2,?_,?_,?_⟩
    · simp [storePayload,h]
    · simp [storePayload,h]
    · simp only [storePayload,dif_pos h,TcpSocket.received]
      exact Buffer.take_write _ _ _ h.2.le
  · refine .inr ⟨?_,by rw [storePayload,dif_neg h]⟩
    rw [not_and_or] at h
    exact h.imp (fun h => by simpa using h) id

theorem storePayload_eq : ∃ b n,(storePayload s payload).1={s with rxBuf := b,rxLen := n} := by
  rw [storePayload]
  split_ifs
  · exact ⟨_,_,rfl⟩
  · exact ⟨_,_,rfl⟩

@[simp] theorem storePayload_state : (storePayload s payload).1.state=s.state := by
  obtain ⟨b,n,h⟩ := storePayload_eq s payload
  rw [h]

@[simp] theorem storePayload_seq : (storePayload s payload).1.seq=s.seq := by
  obtain ⟨b,n,h⟩ := storePayload_eq s payload
  rw [h]

@[simp] theorem storePayload_ack : (storePayload s payload).1.ack=s.ack := by
  obtain ⟨b,n,h⟩ := storePayload_eq s payload
  rw [h]

/-- The bytes copied are the payload or none. -/
theorem storePayload_effects : (storePayload s payload).2=[] ∨
    (storePayload s payload).2=[.store payload] := by
  rcases storePayload_cases s payload with ⟨-,-,h,-⟩|⟨-,h⟩
  · exact .inr h
  · exact .inl (by rw [h])

end Storing

section Answering

variable (rr : HttpRequest → HttpResponse) (s : TcpSocket) (n : Nat)

/-- One parse, and one routed request when the parser accepts. -/
theorem respond_effects : (respond rr s n).2=[.parse (s.rxBuf.bytes.take n)] ∨
    ∃ req,httpParseRequest s.rxBuf.bytes n=some (some req) ∧
      (respond rr s n).2=[.parse (s.rxBuf.bytes.take n),.route req] := by
  rw [respond]
  cases h : httpParseRequest s.rxBuf.bytes n with
  | none => exact .inl rfl
  | some p =>
    cases p with
    | none => exact .inl rfl
    | some req => exact .inr ⟨req,rfl,rfl⟩

theorem transmits_respond : transmits (respond rr s n).2=[] := by
  rcases respond_effects rr s n with h|⟨req,-,h⟩ <;> rw [h] <;> rfl

/-- The response goes out whole, or not at all when it does not fit response_buf. -/
theorem sendResponse_cases (resp : HttpResponse) :
    (∃ body,strncpy resp.body.bytes resp.bodyLength=some body ∧
      resp.messageSize<responseBufSize ∧
      sendResponse s resp=tcpSendData s (resp.message body)) ∨
    (¬resp.messageSize<responseBufSize ∧ sendResponse s resp=(s,[])) := by
  obtain ⟨g,hg,hrc,hok,-⟩ := httpGenerateResponse_spec resp responseBufSize
  simp only [sendResponse,hg]
  by_cases h : g.rc=0
  · obtain ⟨body,hb,hbuf,hlen⟩ := hok h
    refine .inl ⟨body,hb,hrc.mp h,?_⟩
    rw [if_pos h,hbuf,hlen,← message_length resp hb,List.take_length]
  · exact .inr ⟨fun hs => h (hrc.mpr hs),by rw [if_neg h]⟩

/-- The state and the numbers after the response: it moves seq by its own length. -/
theorem sendResponse_eq (resp : HttpResponse) :
    (∃ data,sendResponse s resp=tcpSendData s data) ∨ sendResponse s resp=(s,[]) := by
  rcases sendResponse_cases s resp with ⟨body,-,-,h⟩|⟨-,h⟩
  · exact .inl ⟨_,h⟩
  · exact .inr h

/-- An answer sends the response and then FIN. -/
theorem transmits_answer : transmits (answer rr s n).2=
    transmits ((sendResponse s (respond rr s n).1).2++
      [tcpSendCtrl (sendResponse s (respond rr s n).1).1 (tcpFlagFin|||tcpFlagAck)]) := by
  simp only [answer,transmits_append,transmits_respond,List.nil_append]
  rfl

@[simp] theorem answer_state : (answer rr s n).1.state=.finWait1 := rfl

@[simp] theorem answer_rxLen : (answer rr s n).1.rxLen=0 := rfl

@[simp] theorem answer_ack : (answer rr s n).1.ack=s.ack := by
  simp only [answer]
  rcases sendResponse_eq s (respond rr s n).1 with ⟨data,h⟩|h <;> rw [h]
  rfl

/-- Answering makes one parse. -/
theorem parses_answer : parses (answer rr s n).2=[s.rxBuf.bytes.take n] := by
  simp only [answer]
  rcases respond_effects rr s n with h|⟨req,-,h⟩ <;>
    rcases sendResponse_eq s (respond rr s n).1 with ⟨data,hd⟩|hd <;>
      rw [h,hd] <;> rfl

theorem routes_answer : routes (answer rr s n).2=[] ∨
    ∃ req,httpParseRequest s.rxBuf.bytes n=some (some req) ∧
      routes (answer rr s n).2=[req] := by
  simp only [answer]
  rcases respond_effects rr s n with h|⟨req,hp,h⟩
  · left
    rcases sendResponse_eq s (respond rr s n).1 with ⟨data,hd⟩|hd <;> rw [h,hd] <;> rfl
  · refine .inr ⟨req,hp,?_⟩
    rcases sendResponse_eq s (respond rr s n).1 with ⟨data,hd⟩|hd <;> rw [h,hd] <;> rfl

end Answering

end Cllm.Tcp
