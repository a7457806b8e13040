import Cllm.Api.Handlers
import Cllm.Libc.Format
import Cllm.Tcp.Receive

namespace Cllm.Api

open Libc Json Http Tcp

/-- The whole message of a response: status line, headers, Content-Length, blank line and body. -/
def fullMessage (response : HttpResponse) : List UInt8 :=
  statusFormat response.statusCode++response.headersText++
    (cstr "Content-Length: "++Conversion.numeral 10 response.bodyLength++[cr,lf])++[cr,lf]++
    response.body.bytes.take response.bodyLength

section Generate

variable {response : HttpResponse}

theorem contentLengthLine_numeral (response : HttpResponse) :
    response.contentLengthLine=
      cstr "Content-Length: "++Conversion.numeral 10 response.bodyLength++[cr,lf] := by
  have hfits := response.body_fits
  have hlt : response.bodyLength < 10^32 := lt_of_le_of_lt hfits (by decide)
  rw [HttpResponse.contentLengthLine,uintText_lower (by decide) (by decide) hlt,
    List.append_assoc]

theorem body_of_nulFree (h : response.NulFree) :
    strncpy response.body.bytes response.bodyLength=
      some (response.body.bytes.take response.bodyLength) := by
  apply strncpy_of_not_mem _ h
  rw [response.body.size]
  exact response.body_fits

theorem fullMessage_eq (response : HttpResponse) : fullMessage response=
    response.message (response.body.bytes.take response.bodyLength) := by
  rw [fullMessage,HttpResponse.message,contentLengthLine_numeral]

theorem fullMessage_length (h : response.NulFree) :
    (fullMessage response).length=response.messageSize := by
  rw [fullMessage_eq,message_length response (body_of_nulFree h)]

/-- http_generate_response writes the message exactly when it is shorter than the capacity, and
never goes past that. -/
theorem httpGenerateResponse_message (h : response.NulFree) {capacity : Nat}
    (hc : 64 ≤ capacity) :
    ∃ g,httpGenerateResponse response capacity=some g ∧ g.buffer.length ≤ capacity ∧
      if (fullMessage response).length < capacity then
        g.rc=0 ∧ g.buffer=fullMessage response ∧ g.length=(fullMessage response).length
      else g.rc=-1 ∧ g.length=capacity := by
  obtain ⟨g,hg,hrc,hok,hfail,hroom⟩ := httpGenerateResponse_spec response capacity
  refine ⟨g,hg,hroom hc,?_⟩
  rw [fullMessage_length h]
  split
  · next hlt =>
    have h0 := hrc.mpr hlt
    obtain ⟨body,hbody,hbuffer,hlength⟩ := hok h0
    rw [body_of_nulFree h] at hbody
    rw [fullMessage_eq,Option.some.inj hbody]
    exact ⟨h0,hbuffer,hlength⟩
  · next hge => exact hfail fun h0 => hge (hrc.mp h0)

end Generate

/-- The only headers that the handlers set. -/
def jsonHeaders : List UInt8 := cstr "Content-Type: application/json\r\n"

def Json (response : HttpResponse) : Prop := response.headersText=jsonHeaders

section Headers

variable {response : HttpResponse}

/-- Nothing but the headers counts. -/
theorem Json.of_headers {other : HttpResponse} (h : Json response)
    (he : other.headers=response.headers) : Json other := by
  rw [Json,HttpResponse.headersText,he]
  exact h

theorem Json.writeBody (h : Json response) (calls : List (Call httpResponseBodySize)) :
    Json (writeBody response calls) := h.of_headers rfl

theorem Json.measureBody (h : Json response) : Json (measureBody response) := h.of_headers rfl

theorem Json.setBody (h : Json response) (text : List UInt8) : Json (setBody response text) :=
  h.of_headers rfl

theorem json_setJsonHeaders (response : HttpResponse) : Json (setJsonHeaders response) := by
  obtain ⟨rest,hbytes⟩ := safeStrcpy_bytes response.headers headers_pos jsonHeaders
  have htext : copiedText 1024 jsonHeaders=jsonHeaders := by decide
  have hz : 0∉jsonHeaders := by decide
  have hlen : strlen (jsonHeaders++0::rest)=some jsonHeaders.length := strlen_append hz rest
  have hheaders : (setJsonHeaders response).headers.bytes=jsonHeaders++0::rest := by
    rw [htext] at hbytes
    exact hbytes
  rw [Json,HttpResponse.headersText,hheaders,hlen]
  exact List.take_left' rfl

theorem json_okResponse (response : HttpResponse) : Json (okResponse response) :=
  json_setJsonHeaders _

theorem json_buildErrorResponse (response : HttpResponse) (statusCode : Int)
    (message type param code : List UInt8) :
    Json (buildErrorResponse response statusCode message type param code) :=
  (json_setJsonHeaders {response with statusCode := statusCode}).writeBody _

theorem json_handlePost {R : Type} {parse : List UInt8 → Nat → Except Fault R}
    {field : List UInt8} {missing : R → Bool}
    {respond : R → ApiContext → HttpResponse → ApiContext × HttpResponse}
    (h : ∀ req context response,Json (respond req context response).2) (context : ApiContext)
    (request : HttpRequest) (response : HttpResponse) :
    Json (handlePost parse field missing respond context request response).2 := by
  unfold handlePost
  split
  · exact json_buildErrorResponse ..
  split
  · exact json_buildErrorResponse ..
  split
  · exact json_buildErrorResponse ..
  split
  · exact json_buildErrorResponse ..
  · exact h ..

section Handlers

variable (environment : Environment) (context : ApiContext) (request : HttpRequest)
  (response : HttpResponse)

theorem json_handleV1Completions :
    Json (handleV1Completions environment context request response).2 :=
  json_handlePost (fun _ _ response => (json_okResponse response).writeBody _) ..

theorem json_handleV1ChatCompletions :
    Json (handleV1ChatCompletions environment context request response).2 :=
  json_handlePost (fun _ _ response => (json_okResponse response).writeBody _) ..

theorem json_handleV1Embeddings :
    Json (handleV1Embeddings environment context request response).2 :=
  json_handlePost (fun _ _ response => (json_okResponse response).writeBody _) ..

theorem json_handleV1Models : Json (handleV1Models context request response).2 := by
  unfold handleV1Models
  split
  · exact json_buildErrorResponse ..
  · exact (json_okResponse response).writeBody _

theorem json_handleTokenize : Json (handleTokenize context request response).2 :=
  json_handlePost (fun _ _ response => (json_okResponse response).writeBody _) ..

theorem json_handleDetokenize : Json (handleDetokenize context request response).2 :=
  json_handlePost (fun _ _ response => (json_okResponse response).writeBody _) ..

theorem json_fixedBody (text : List UInt8) : Json (fixedBody response text) :=
  ((json_okResponse response).setBody text).measureBody

theorem json_handleModelMetadata : Json (handleModelMetadata environment response) := by
  unfold handleModelMetadata
  dsimp only
  split
  · apply Json.measureBody
    apply Json.setBody
    exact (json_okResponse response).of_headers rfl
  · apply Json.measureBody
    exact (json_okResponse response).of_headers rfl

/-- Whatever the request, the headers are the JSON ones. -/
theorem json_routeRequest : Json (routeRequest environment context request response).2 := by
  apply route_always Json
  · exact json_handleV1Completions ..
  apply route_always Json
  · exact json_handleV1ChatCompletions ..
  apply route_always Json
  · exact json_handleV1Embeddings ..
  apply route_always Json
  · exact json_handleV1Models ..
  apply route_always Json
  · exact json_handleTokenize ..
  apply route_always Json
  · exact json_handleDetokenize ..
  apply route_always Json
  · exact (json_fixedBody ..).measureBody
  apply route_always Json
  · exact (json_handleModelMetadata ..).measureBody
  apply route_always Json
  · exact (json_fixedBody ..).measureBody
  apply route_always Json
  · exact (json_fixedBody ..).measureBody
  apply Json.measureBody
  apply Json.setBody
  exact (json_setJsonHeaders response).of_headers rfl

end Handlers

end Headers

/-- With these headers every response fits the buffer of tcp_receive. -/
theorem Json.sent {response : HttpResponse} (h : Json response) :
    ∃ g,httpGenerateResponse response responseBufSize=some g ∧ g.rc=0 := by
  obtain ⟨g,hg,hrc,-⟩ := httpGenerateResponse_spec response responseBufSize
  refine ⟨g,hg,hrc.mpr ?_⟩
  have hstatus := (statusFormat_plain response.statusCode).2.2.1
  have hline := (contentLengthLine_plain response).2
  have hbody := response.body_fits
  have hheaders : response.headersText.length=32 := by
    rw [h]
    decide
  have hsize : httpResponseBodySize=16384 := rfl
  have hroom : responseBufSize=16640 := rfl
  rw [HttpResponse.messageSize,hheaders]
  omega

theorem httpGenerateResponse_exact {capacity : Nat} (hc : 64 ≤ capacity) :
    (∀ response : HttpResponse,response.NulFree → response.bodyLength < httpResponseBodySize →
      ∃ g,httpGenerateResponse response capacity=some g ∧ g.buffer.length ≤ capacity ∧
        if (fullMessage response).length < capacity then
          g.rc=0 ∧ g.buffer=fullMessage response ∧ g.length=(fullMessage response).length
        else g.rc=-1 ∧ g.length=capacity) ∧
    ∀ (environment : Environment) (context : ApiContext) (request : HttpRequest)
      (response : HttpResponse),
      ∃ g,httpGenerateResponse (routeRequest environment context request response).2
        responseBufSize=some g ∧ g.rc=0 := by
  constructor
  · intro response hnul _
    exact httpGenerateResponse_message hnul hc
  · intro environment context request response
    exact (json_routeRequest environment context request response).sent

theorem httpGenerateResponse_exact_badRequest :
    ∃ g,httpGenerateResponse badRequest 64=some g ∧ g.buffer.length ≤ 64 ∧ g.rc=-1 ∧
      g.length=64 := by
  have hnul : badRequest.NulFree := by
    unfold HttpResponse.NulFree
    decide
  obtain ⟨g,hg,hroom,hexact⟩ := (httpGenerateResponse_exact (le_refl 64)).1 badRequest hnul
    (by decide)
  have hlong : ¬(fullMessage badRequest).length < 64 := by
    rw [fullMessage_length hnul]
    decide
  rw [if_neg hlong] at hexact
  exact ⟨g,hg,hroom,hexact⟩

end Cllm.Api
