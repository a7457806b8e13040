import Cllm.Api.Routes
import Cllm.Api.Sending
import Cllm.Http.ReadBack
import Cllm.Tcp.Conversation

namespace Cllm.Api

open Libc Network Cllm.Json Http Tcp

/-- The statuses of the handlers. -/
def statuses : List Int := [200,400,404,405,500]

/-- An answer with JSON headers and one of the statuses. -/
structure Regular (response : HttpResponse) : Prop where
  json : Json response
  status : response.statusCode∈statuses

section Statuses

variable {response : HttpResponse}

theorem Regular.of_same {other : HttpResponse} (h : Regular response)
    (hheaders : other.headers=response.headers) (hstatus : other.statusCode=response.statusCode) :
    Regular other := ⟨h.json.of_headers hheaders,hstatus ▸ h.status⟩

theorem Regular.writeBody (h : Regular response) (calls : List (Call httpResponseBodySize)) :
    Regular (writeBody response calls) := h.of_same rfl rfl

theorem Regular.measureBody (h : Regular response) : Regular (measureBody response) :=
  h.of_same rfl rfl

theorem Regular.setBody (h : Regular response) (text : List UInt8) :
    Regular (setBody response text) := h.of_same rfl rfl

theorem regular_headers (hs : response.statusCode∈statuses) : Regular (setJsonHeaders response) :=
  ⟨json_setJsonHeaders response,hs⟩

theorem regular_okResponse (response : HttpResponse) : Regular (okResponse response) :=
  regular_headers (by decide : (200 : Int)∈statuses)

theorem regular_invalidRequest (response : HttpResponse) {statusCode : Int}
    (hs : statusCode∈statuses) (message param code : List UInt8) :
    Regular (invalidRequest response statusCode message param code) :=
  ⟨json_buildErrorResponse ..,hs⟩

theorem regular_handlePost {R : Type} {parse : List UInt8 → Nat → Except Fault R}
    {field : List UInt8} {missing : R → Bool}
    {respond : R → ApiContext → HttpResponse → ApiContext × HttpResponse}
    (h : ∀ req context response,Regular (respond req context response).2) (context : ApiContext)
    (request : HttpRequest) (response : HttpResponse) :
    Regular (handlePost parse field missing respond context request response).2 := by
  unfold handlePost
  split
  · exact regular_invalidRequest _ (by decide) ..
  split
  · exact regular_invalidRequest _ (by decide) ..
  split
  · exact regular_invalidRequest _ (by decide) ..
  split
  · exact regular_invalidRequest _ (by decide) ..
  · exact h ..

theorem regular_fixedBody (response : HttpResponse) (text : List UInt8) :
    Regular (fixedBody response text) := ((regular_okResponse response).setBody text).measureBody

theorem regular_handleModelMetadata (environment : Environment) (response : HttpResponse) :
    Regular (handleModelMetadata environment response) := by
  unfold handleModelMetadata
  dsimp only
  split
  · exact ⟨(json_okResponse response).of_headers rfl,(by decide : (500 : Int)∈statuses)⟩
  · exact (regular_okResponse response).of_same rfl rfl

end Statuses

section Routes

variable (environment : Environment) (context : ApiContext) (request : HttpRequest)
  (response : HttpResponse)

theorem regular_handleV1Completions :
    Regular (handleV1Completions environment context request response).2 :=
  regular_handlePost (fun _ _ response => (regular_okResponse response).writeBody _) ..

theorem regular_handleV1ChatCompletions :
    Regular (handleV1ChatCompletions environment context request response).2 :=
  regular_handlePost (fun _ _ response => (regular_okResponse response).writeBody _) ..

theorem regular_handleV1Embeddings :
    Regular (handleV1Embeddings environment context request response).2 :=
  regular_handlePost (fun _ _ response => (regular_okResponse response).writeBody _) ..

theorem regular_handleV1Models : Regular (handleV1Models context request response).2 := by
  unfold handleV1Models
  split
  · exact regular_invalidRequest _ (by decide) ..
  · exact (regular_okResponse response).writeBody _

theorem regular_handleTokenize : Regular (handleTokenize context request response).2 :=
  regular_handlePost (fun _ _ response => (regular_okResponse response).writeBody _) ..

theorem regular_handleDetokenize : Regular (handleDetokenize context request response).2 :=
  regular_handlePost (fun _ _ response => (regular_okResponse response).writeBody _) ..

/-- Whatever the request, the answer is regular. -/
theorem regular_routeRequest : Regular (routeRequest environment context request response).2 := by
  apply route_always Regular
  · exact regular_handleV1Completions ..
  apply route_always Regular
  · exact regular_handleV1ChatCompletions ..
  apply route_always Regular
  · exact regular_handleV1Embeddings ..
  apply route_always Regular
  · exact regular_handleV1Models ..
  apply route_always Regular
  · exact regular_handleTokenize ..
  apply route_always Regular
  · exact regular_handleDetokenize ..
  apply route_always Regular
  · exact (regular_fixedBody ..).measureBody
  apply route_always Regular
  · exact (regular_handleModelMetadata ..).measureBody
  apply route_always Regular
  · exact (regular_fixedBody ..).measureBody
  apply route_always Regular
  · exact (regular_fixedBody ..).measureBody
  apply Regular.measureBody
  apply Regular.setBody
  exact ⟨(json_setJsonHeaders response).of_headers rfl,(by decide : (404 : Int)∈statuses)⟩

/-- So is what tcp_receive answers to bytes that are no request. -/
theorem regular_badRequest : Regular badRequest := by
  refine ⟨?_,by decide⟩
  rw [Json,HttpResponse.headersText]
  decide

theorem regular_respond (s : TcpSocket) (requestLen : Nat) :
    Regular (respond (fun request => (routeRequest environment context request response).2) s
      requestLen).1 := by
  rw [respond]
  split
  · exact regular_routeRequest ..
  · exact regular_badRequest

end Routes

/-- The header lines of an answer. -/
def answerHeaders (response : HttpResponse) : List (List UInt8) :=
  [cstr "Content-Type: application/json",
    cstr "Content-Length: "++uintText response.bodyLength 10 false]

theorem separable_json : Separable [cstr "Content-Type: application/json"] := by
  refine ⟨?_,?_⟩
  · rw [List.forall_mem_singleton]
    decide
  · rw [List.forall_mem_singleton]
    decide

theorem sentCode_status {statusCode : Int} (h : statusCode∈statuses) :
    sentCode statusCode=statusCode.toNat := by
  have hall : ∀ s∈statuses,sentCode s=s.toNat := by decide
  exact hall statusCode h

/-- What is generated for a regular answer is read back. -/
theorem Regular.readBack {response : HttpResponse} (h : Regular response) (rest : List UInt8) :
    ∃ g body,httpGenerateResponse response responseBufSize=some g ∧ g.rc=0 ∧
      strncpy response.body.bytes response.bodyLength=some body ∧
      readResponse (g.buffer.take g.length++rest)=
        some (⟨response.statusCode.toNat,answerHeaders response,body⟩,rest) := by
  obtain ⟨g,hg,hrc⟩ := h.json.sent
  obtain ⟨g',hg',-,hok,-⟩ := httpGenerateResponse_spec response responseBufSize
  obtain rfl := Option.some.inj (hg.symm.trans hg')
  obtain ⟨body,hbody,hbuffer,hlength⟩ := hok hrc
  have hwhole : g.buffer.take g.length=response.message body := by
    rw [hbuffer,hlength,← message_length response hbody,List.take_length]
  have hheaders : response.headersText=
      Lines.ended crlf [cstr "Content-Type: application/json"] := by
    rw [show response.headersText=jsonHeaders from h.json]
    decide
  refine ⟨g,body,hg,hrc,hbody,?_⟩
  rw [hwhole,readResponse_message hheaders separable_json (strncpy_length hbody),
    sentCode_status h.status]
  rfl

/-- Whatever bytes a connection has received, tcp_receive has a response for them that fits its
buffer, and a client that reads the status line, the headers and as many bytes as Content-Length
says has the status and the body of that response, and nothing of what comes behind it. -/
theorem respond_readBack (environment : Environment) (context : ApiContext)
    (response : HttpResponse) (s : TcpSocket) (requestLen : Nat) (rest : List UInt8) :
    let answer := (respond (fun request => (routeRequest environment context request response).2)
      s requestLen).1
    ∃ g body,httpGenerateResponse answer responseBufSize=some g ∧ g.rc=0 ∧
      strncpy answer.body.bytes answer.bodyLength=some body ∧ answer.statusCode∈statuses ∧
      readResponse (g.buffer.take g.length++rest)=
        some (⟨answer.statusCode.toNat,answerHeaders answer,body⟩,rest) := by
  intro answer
  have hregular : Regular answer := regular_respond environment context response s requestLen
  obtain ⟨g,body,hg,hrc,hbody,hread⟩ := hregular.readBack rest
  exact ⟨g,body,hg,hrc,hbody,hregular.status,hread⟩

/-- The bytes that a client has from the frames up to the first FIN. -/
def streamOf : List Frame → List UInt8
  | [] => []
  | f::fs => if frameFlags f&&&tcpFlagFin≠0 then [] else framePayload f++streamOf fs

theorem streamOf_carried {seq : UInt32} {data : List UInt8} {fs : List Frame}
    (h : Carried seq data fs) : streamOf fs=data := by
  induction fs generalizing seq data with
  | nil => exact absurd h not_false
  | cons f fs ih =>
    rw [Carried] at h
    rw [streamOf]
    by_cases hfin : frameFlags f&&&tcpFlagFin≠0
    · rw [if_pos hfin] at h ⊢
      exact h.1.symm
    · rw [if_neg hfin] at h ⊢
      obtain ⟨-,-,⟨rest,rfl⟩,hrest⟩ := h
      rw [List.drop_left] at hrest
      rw [ih hrest]

theorem respondedWith_regular {rr : HttpRequest → HttpResponse} {es : List Effect}
    {response : HttpResponse} (hrr : ∀ request,Regular (rr request))
    (h : respondedWith rr es=some response) : Regular response := by
  rw [respondedWith] at h
  split at h
  · cases h
  · obtain rfl := Option.some.inj h
    cases (routes es).head? with
    | none => exact regular_badRequest
    | some request => exact hrr request

/-- The router of a kernel. -/
def router (environment : Environment) (context : ApiContext) (response : HttpResponse) :
    HttpRequest → HttpResponse :=
  fun request => (routeRequest environment context request response).2

/-- A client that puts together what these frames carry before the FIN reads the status, the
headers and the whole body of the response, and has nothing left over. -/
def ReadBack (fs : List Frame) (response : HttpResponse) : Prop :=
  ∃ body,strncpy response.body.bytes response.bodyLength=some body ∧
    response.statusCode∈statuses ∧
    readResponse (streamOf fs)=some (⟨response.statusCode.toNat,answerHeaders response,body⟩,[])

section Wire

variable {environment : Environment} {context : ApiContext} {initial : HttpResponse} {i : Slot}
  {t : TcpStack}

/-- When a call answers a request, and the answer is at most the 1460 bytes that one packet has
for it, its client reads it back. -/
theorem answer_readBack {response : HttpResponse} {ip : UInt32} {packet : List UInt8} {net : Net}
    (hresponse : respondedWith (router environment context initial) (effectsOn i
      (tcpStep t (.receive (router environment context initial) ip packet)).2)=some response)
    (hmac : ∃ m,arpLookup net.arpTable ((tcpStep t
      (.receive (router environment context initial) ip packet)).1.sockets i).remoteIp=some m)
    (hsize : response.messageSize ≤ netMtu-ipHdrLen-tcpHdrLen) :
    ReadBack (sendAll net (transmits (effectsOn i (tcpStep t
      (.receive (router environment context initial) ip packet)).2))).2 response := by
  have hregular : Regular response :=
    respondedWith_regular (fun _ => regular_routeRequest ..) hresponse
  obtain ⟨g,body,hg,-,hbody,hread⟩ := hregular.readBack []
  rw [tcpStep_effects] at hresponse ⊢
  rw [tcpStep_sockets] at hmac
  obtain ⟨g',hg',-,hcarried⟩ :=
    (slotStep_delivered (slotInput_receive i t _ ip packet) hresponse hmac).mpr hsize
  obtain rfl := Option.some.inj (hg.symm.trans hg')
  rw [List.append_nil] at hread
  refine ⟨body,hbody,hregular.status,?_⟩
  rw [streamOf_carried hcarried,hread]

/-- A call of the kernel, whose malloc, memory and g_api_ctx are its own. -/
def Routed : Action → Prop
  | .periodic => True
  | .receive rr _ _ => ∃ environment context initial,rr=router environment context initial

/-- A client that takes a free slot with a SYN and an ACK and sends up to 2047 bytes with a blank
line in them, in segments of any size, is answered once. Whatever arrives for other slots
meanwhile, it is sent no data before the first blank line has arrived and nothing after the answer;
what is answered is the response of route_request to the bytes up to this blank line, and the
client reads it back when it fits one packet. -/
theorem client_served (i : Slot) (t : TcpStack) (as : List Action) (syn ack : Segment)
    (data : List Segment) (stream : List UInt8) (hrouters : ∀ a∈as,Routed a)
    (hfree : (t.sockets i).state=.closed) (hsegments : segmentsTo i t as=syn::ack::data)
    (hsyn : syn.acks=false) (hack : ack.acks=true) (hdata : ∀ seg∈data,seg.IsData)
    (hstream : data.flatMap Segment.payload=stream) (hlen : stream.length ≤ 2047)
    (hend : crlfCrlf <:+: stream) :
    ∃ q before environment context initial ip packet after,
      let a : Action := .receive (router environment context initial) ip packet
      let answer := answerTo (router environment context initial) q
      as=before++a::after ∧ Search.EndsFirst crlfCrlf stream q ∧
      Bare (effectsOn i (events t before)) ∧
      respondedWith (router environment context initial)
        (effectsOn i (tcpStep (run t before) a).2)=some answer ∧
      effectsOn i (events (run t (before++[a])) after)=[] ∧
      ∀ net : Net,(∃ m,arpLookup net.arpTable
          ((tcpStep (run t before) a).1.sockets i).remoteIp=some m) →
        answer.messageSize ≤ netMtu-ipHdrLen-tcpHdrLen →
        ReadBack (sendAll net (transmits (effectsOn i (tcpStep (run t before) a).2))).2 answer := by
  obtain ⟨n,hn⟩ : ∃ n,Search.firstEnd crlfCrlf stream=some n := by
    cases hn : Search.firstEnd crlfCrlf stream with
    | none => exact absurd hend ((Search.firstEnd_eq_none_iff _ _).mp hn)
    | some n => exact ⟨n,rfl⟩
  obtain ⟨before,rr,ip,packet,after,rfl,hbare,hresponse,hsilent⟩ :=
    connection_completes hfree hsegments hsyn hack hdata hstream (Nat.lt_succ_of_le hlen) hn
  obtain ⟨environment,context,initial,rfl⟩ :=
    hrouters (.receive rr ip packet) (List.mem_append_right _ List.mem_cons_self)
  refine ⟨stream.take n,before,environment,context,initial,ip,packet,after,rfl,
    Search.firstEnd_endsFirst hn,hbare,hresponse,hsilent,?_⟩
  intro net hmac hsize
  exact answer_readBack hresponse hmac hsize

end Wire

/-- What arrives from this port of 10.0.2.2. -/
def arrives (srcPort : UInt16) (flags : UInt8) (payload : List UInt8) : Action :=
  .receive (router anyEnvironment ⟨false,0,0⟩ badRequest) 0x0A000202
    (Segment.packet ⟨srcPort,httpPort,50,1101,flags,payload⟩)

/-- A request in two segments, while another client connects and the timer runs. -/
def visit : List Action :=
  [arrives 4000 tcpFlagSyn [],arrives 4001 tcpFlagSyn [],.periodic,arrives 4000 tcpFlagAck [],
    arrives 4000 tcpFlagAck (cstr "GET /hea"),arrives 4001 tcpFlagAck [],.periodic,
    arrives 4000 tcpFlagAck (cstr "lth HTTP/1.1\r\n\r\n")]

theorem client_served_visit :
    ∃ q before environment context initial ip packet after,
      let a : Action := .receive (router environment context initial) ip packet
      let answer := answerTo (router environment context initial) q
      visit=before++a::after ∧
      Search.EndsFirst crlfCrlf (cstr "GET /health HTTP/1.1\r\n\r\n") q ∧
      Bare (effectsOn 1 (events tcpInit before)) ∧
      respondedWith (router environment context initial)
        (effectsOn 1 (tcpStep (run tcpInit before) a).2)=some answer ∧
      effectsOn 1 (events (run tcpInit (before++[a])) after)=[] ∧
      ∀ net : Net,(∃ m,arpLookup net.arpTable
          ((tcpStep (run tcpInit before) a).1.sockets 1).remoteIp=some m) →
        answer.messageSize ≤ netMtu-ipHdrLen-tcpHdrLen →
        ReadBack (sendAll net (transmits
          (effectsOn 1 (tcpStep (run tcpInit before) a).2))).2 answer := by
  have hrouters : ∀ a∈visit,Routed a := by
    have harrives (srcPort : UInt16) (flags : UInt8) (payload : List UInt8) :
        Routed (arrives srcPort flags payload) := ⟨_,_,_,rfl⟩
    simp only [visit,List.forall_mem_cons,harrives,true_and]
    exact ⟨trivial,trivial,List.forall_mem_nil _⟩
  exact client_served 1 tcpInit visit ⟨4000,httpPort,50,1101,tcpFlagSyn,[]⟩
    ⟨4000,httpPort,50,1101,tcpFlagAck,[]⟩
    [⟨4000,httpPort,50,1101,tcpFlagAck,cstr "GET /hea"⟩,
      ⟨4000,httpPort,50,1101,tcpFlagAck,cstr "lth HTTP/1.1\r\n\r\n"⟩] _ hrouters (by decide)
    (by decide +kernel) (by decide) (by decide) (by decide) (by decide +kernel) (by decide)
    ⟨cstr "GET /health HTTP/1.1",[],by decide⟩

end Cllm.Api
