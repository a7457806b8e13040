import Cllm.Libc.Decimal

namespace Cllm.Http

open Libc

abbrev httpResponseBodySize : Nat := 16384

/-- http_response_t; its headers are a NUL-terminated string and its body is inside the array. -/
structure HttpResponse where
  statusCode : Int
  headers : Buffer 1024
  body : Buffer httpResponseBodySize
  bodyLength : Nat
  headers_nul : 0∈headers.bytes
  body_fits : bodyLength≤httpResponseBodySize

/-- The format string of the status line. -/
def statusFormat (statusCode : Int) : List UInt8 :=
  if statusCode=200 then cstr "HTTP/1.1 200 OK\r\n"
  else if statusCode=400 then cstr "HTTP/1.1 400 Bad Request\r\n"
  else if statusCode=404 then cstr "HTTP/1.1 404 Not Found\r\n"
  else if statusCode=405 then cstr "HTTP/1.1 405 Method Not Allowed\r\n"
  else if statusCode=422 then cstr "HTTP/1.1 422 Unprocessable Entity\r\n"
  else if statusCode=500 then cstr "HTTP/1.1 500 Internal Server Error\r\n"
  else if statusCode=503 then cstr "HTTP/1.1 503 Service Unavailable\r\n"
  else cstr "HTTP/1.1 200 OK\r\n"

/-- The return code, the bytes written from the start of the buffer, and `*length` after. -/
structure Generated where
  rc : Int
  buffer : List UInt8
  length : Nat

/-- http_generate_response into a buffer of `length` bytes. -/
def httpGenerateResponse (response : HttpResponse) (length : Nat) : Option Generated := do
  let status := snprintf (List.replicate 64 0) 64 (statusFormat response.statusCode) []
  if status.2≥64 then return ⟨-1,[],length⟩
  let statusLine ← strncpy status.1 status.2
  let headersLen ← strlen response.headers.bytes
  if headersLen>0 ∧ statusLine.length+headersLen≥length then return ⟨-1,statusLine,length⟩
  let headers ← strncpy response.headers.bytes headersLen
  let buffer := statusLine++headers
  let content := snprintf (List.replicate 64 0) 64 (cstr "Content-Length: %zu\r\n")
    [.word (UInt32.ofNat response.bodyLength)]
  if content.2≥64 ∨ buffer.length+content.2≥length then return ⟨-1,buffer,length⟩
  let contentLength ← strncpy content.1 content.2
  let buffer := buffer++contentLength
  if buffer.length+2≥length then return ⟨-1,buffer,length⟩
  let buffer := buffer++[cr,lf]
  if response.bodyLength>0 ∧ buffer.length+response.bodyLength≥length then
    return ⟨-1,buffer,length⟩
  let body ← strncpy response.body.bytes response.bodyLength
  let buffer := buffer++body
  return ⟨0,buffer,buffer.length⟩

namespace HttpResponse

variable (response : HttpResponse)

/-- The headers up to their NUL. -/
def headersText : List UInt8 :=
  response.headers.bytes.take ((strlen response.headers.bytes).getD 0)

def contentLengthLine : List UInt8 :=
  cstr "Content-Length: "++(uintText response.bodyLength 10 false++[cr,lf])

/-- The size of the full message, in terms of the response's own fields. -/
def messageSize : Nat :=
  (statusFormat response.statusCode).length+response.headersText.length+
    response.contentLengthLine.length+2+response.bodyLength

/-- The message for the given body bytes. -/
def message (body : List UInt8) : List UInt8 :=
  statusFormat response.statusCode++response.headersText++response.contentLengthLine++[cr,lf]++body

/-- Inside body_length the body has no NUL. -/
def NulFree : Prop := 0∉response.body.bytes.take response.bodyLength

end HttpResponse

theorem statusFormat_cases (P : List UInt8 → Prop) (code : Int)
    (h : ∀ s∈["HTTP/1.1 200 OK\r\n","HTTP/1.1 400 Bad Request\r\n","HTTP/1.1 404 Not Found\r\n",
      "HTTP/1.1 405 Method Not Allowed\r\n","HTTP/1.1 422 Unprocessable Entity\r\n",
      "HTTP/1.1 500 Internal Server Error\r\n","HTTP/1.1 503 Service Unavailable\r\n"],
      P (cstr s)) : P (statusFormat code) := by
  rw [statusFormat]
  split_ifs <;> exact h _ (by simp)

/-- No status line contains a conversion or a NUL, and each fits its array. -/
theorem statusFormat_plain (code : Int) : 37∉statusFormat code ∧ 0∉statusFormat code ∧
    (statusFormat code).length<64 ∧ 0<(statusFormat code).length :=
  statusFormat_cases (fun f => 37∉f ∧ 0∉f ∧ f.length<64 ∧ 0<f.length) code (by decide)

theorem snprintf_status (code : Int) :
    (snprintf (List.replicate 64 0) 64 (statusFormat code) []).2=(statusFormat code).length ∧
    strncpy (snprintf (List.replicate 64 0) 64 (statusFormat code) []).1
      (statusFormat code).length=some (statusFormat code) := by
  obtain ⟨hf,hz,hl,-⟩ := statusFormat_plain code
  have hloop := formatLoop_literal (statusFormat code) [] hf [] ⟨List.replicate 64 0,64,0⟩
  rw [List.append_nil] at hloop
  have h := vsnprintf_fits hloop hl (by simp) (by decide)
  refine ⟨h.1,?_⟩
  rw [snprintf,h.2,strncpy_of_not_mem (by simp) (by simpa using hz)]
  simp

section Message

variable (response : HttpResponse)

theorem contentLengthLine_plain : 0∉response.contentLengthLine ∧
    response.contentLengthLine.length<64 := by
  have hl := uintText_length response.bodyLength 10 false
  have hc : (cstr "Content-Length: ").length=16 := by decide
  have hz : 0∉cstr "Content-Length: " := by decide
  have hd : 0∉uintText response.bodyLength 10 false := fun h =>
    absurd (uintText_digit h).1 (by decide)
  refine ⟨?_,?_⟩
  · simp only [HttpResponse.contentLengthLine,List.mem_append,not_or]
    exact ⟨hz,hd,by decide⟩
  · simp only [HttpResponse.contentLengthLine,List.length_append,hc,List.length_cons,
      List.length_nil]
    omega

theorem snprintf_contentLength :
    let content := snprintf (List.replicate 64 0) 64 (cstr "Content-Length: %zu\r\n")
      [.word (UInt32.ofNat response.bodyLength)]
    content.2=response.contentLengthLine.length ∧
    strncpy content.1 content.2=some response.contentLengthLine := by
  obtain ⟨hz,hl⟩ := contentLengthLine_plain response
  have hfmt : cstr "Content-Length: %zu\r\n"=
      cstr "Content-Length: "++(cstr "%zu"++([cr,lf]++[])) := by decide
  have hn : (UInt32.ofNat response.bodyLength).toNat=response.bodyLength := by
    have hsmall : httpResponseBodySize<UInt32.size := by decide
    exact UInt32.toNat_ofNat_of_lt (response.body_fits.trans_lt hsmall)
  have hloop : formatLoop (cstr "Content-Length: %zu\r\n")
      [.word (UInt32.ofNat response.bodyLength)] ⟨List.replicate 64 0,64,0⟩=
      appendStr ⟨List.replicate 64 0,64,0⟩ response.contentLengthLine := by
    rw [hfmt,formatLoop_literal _ _ (by decide),formatLoop_zu,
      formatLoop_literal _ _ (by decide),hn,← appendStr_append,← appendStr_append]
    rfl
  have h := vsnprintf_fits hloop hl (by simp) (by decide)
  refine ⟨h.1,?_⟩
  rw [snprintf,h.1,h.2,strncpy_of_not_mem (by simp) (by simpa using hz)]
  simp

theorem strlen_headers : ∃ n,strlen response.headers.bytes=some n ∧
    strncpy response.headers.bytes n=some response.headersText ∧
    response.headersText.length=n := by
  obtain ⟨n,hn⟩ := Option.isSome_iff_exists.mp (strlen_isSome response.headers_nul)
  obtain ⟨hlt,hz⟩ := strlen_some hn
  refine ⟨n,hn,?_,?_⟩
  · rw [strncpy_of_not_mem hlt.le hz,HttpResponse.headersText,hn,Option.getD_some]
  · rw [HttpResponse.headersText,hn,Option.getD_some,List.length_take_of_le hlt.le]

/-- The message is generated exactly when it is shorter than the buffer; otherwise the length
stays. -/
theorem httpGenerateResponse_spec (length : Nat) :
    ∃ g,httpGenerateResponse response length=some g ∧
      (g.rc=0 ↔ response.messageSize<length) ∧
      (g.rc=0 → ∃ body,strncpy response.body.bytes response.bodyLength=some body ∧
        g.buffer=response.message body ∧ g.length=response.messageSize) ∧
      (g.rc≠0 → g.rc=-1 ∧ g.length=length) ∧ (64 ≤ length → g.buffer.length ≤ length) := by
  obtain ⟨hs,hcopy⟩ := snprintf_status response.statusCode
  obtain ⟨-,-,hslt,hspos⟩ := statusFormat_plain response.statusCode
  obtain ⟨n,hn,hh,hhl⟩ := strlen_headers response
  obtain ⟨hc,hccopy⟩ := snprintf_contentLength response
  have hclt := (contentLengthLine_plain response).2
  obtain ⟨body,hbody⟩ := Option.isSome_iff_exists.mp
    (strncpy_isSome (s := response.body.bytes) (n := response.bodyLength)
      (by rw [response.body.size]; exact response.body_fits))
  have hbl := strncpy_length hbody
  have hsize : response.messageSize=(statusFormat response.statusCode).length+n+
      response.contentLengthLine.length+2+response.bodyLength := by
    rw [HttpResponse.messageSize,hhl]
  rw [httpGenerateResponse]
  rw [hc] at hccopy
  have h64 : ¬(statusFormat response.statusCode).length≥64 := by omega
  have h64' : ¬response.contentLengthLine.length≥64 := by omega
  simp only [hs,h64,if_false,hcopy,hn,hh,hc,h64',false_or,hccopy,hbody,Option.bind_eq_bind,
    Option.bind_some,List.length_append,List.length_cons,List.length_nil,hhl]
  -- each check fails only for a message that does not fit
  split_ifs with h1 h2 h3 h4
  · exact ⟨_,rfl,by simp; omega,by simp,by simp,by simp; omega⟩
  · exact ⟨_,rfl,by simp; omega,by simp,by simp,by simp [hhl]; omega⟩
  · exact ⟨_,rfl,by simp; omega,by simp,by simp,by simp [hhl]; omega⟩
  · exact ⟨_,rfl,by simp; omega,by simp,by simp,by simp [hhl]; omega⟩
  · refine ⟨_,rfl,by simp; omega,fun _ => ⟨body,rfl,?_,?_⟩,by simp,by simp [hhl,hbl]; omega⟩
    · simp [HttpResponse.message]
    · simp [hsize,hbl]

theorem message_length {body : List UInt8}
    (h : strncpy response.body.bytes response.bodyLength=some body) :
    (response.message body).length=response.messageSize := by
  have hbl := strncpy_length h
  simp [HttpResponse.message,HttpResponse.messageSize,hbl]
  omega

theorem messageSize_pos : 0<response.messageSize := by
  have := (statusFormat_plain response.statusCode).2.2.2
  rw [HttpResponse.messageSize]
  omega

end Message

end Cllm.Http
