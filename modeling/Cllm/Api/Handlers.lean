import Cllm.Api.Llm
import Cllm.Http.Request
import Cllm.Http.Response
import Cllm.Json.Fraction
import Cllm.Libc.SafeString

namespace Cllm.Api

open Libc Json Http Ieee754

/-- api_context_t; llmCtx is whether llm_ctx is set, as api_v1_init has it. -/
structure ApiContext where
  llmCtx : Bool
  requestCounter : UInt64
  createdTime : Int64

/-- A string in an address space of 4 GiB that has the body of a response beside it. -/
abbrev StoredString := {s : List UInt8 // 0∉s ∧ s.length+httpResponseBodySize ≤ 2^32}

/-- What a handler depends on besides its arguments: what malloc returns in the turns of
llm_generate, the string at an address, and how the compiler evaluates `float` expressions. -/
structure Environment where
  mallocs : Nat → Bool
  memory : UInt32 → StoredString
  evaluation : FltEval

theorem headers_pos : 0 < 1024 := by decide

theorem body_pos : 0 < httpResponseBodySize := by decide

theorem safeStrcpy_nul {n : Nat} (dst : Buffer n) (h : 0 < n) (src : List UInt8) :
    0∈(safeStrcpy dst h src).bytes := by
  obtain ⟨rest,hbytes⟩ := safeStrcpy_bytes dst h src
  rw [hbytes]
  exact List.mem_append_right _ List.mem_cons_self

theorem strlen_fits {n : Nat} (b : Buffer n) : (strlen b.bytes).getD 0 ≤ n := by
  cases h : strlen b.bytes with
  | none => exact Nat.zero_le n
  | some k =>
    have hlt := (strlen_some h).1
    rw [b.size] at hlt
    exact hlt.le

section Response

variable (response : HttpResponse)

def setJsonHeaders : HttpResponse :=
  {response with
    headers := safeStrcpy response.headers headers_pos (cstr "Content-Type: application/json\r\n")
    headers_nul := safeStrcpy_nul ..}

/-- response->body_length = strlen(response->body) -/
def measureBody : HttpResponse :=
  {response with
    bodyLength := (strlen response.body.bytes).getD 0
    body_fits := strlen_fits response.body}

/-- safe_strcpy(response->body, ...) -/
def setBody (text : List UInt8) : HttpResponse :=
  {response with body := safeStrcpy response.body body_pos text}

/-- The calls on a writer over the body, and response->body_length = json_writer_length(&w). -/
def writeBody (calls : List (Call httpResponseBodySize)) : HttpResponse :=
  let w := (all calls (jsonWriterInit response.body)).1
  {response with body := w.buf,bodyLength := jsonWriterLength w,body_fits := w.fits}

/-- The last two members of an error, null without a text. -/
def kvStringOrNull (key value : List UInt8) : Call httpResponseBodySize :=
  if value.headD 0≠0 then jsonWriteKvString key value else jsonWriteKvNull key

def buildErrorResponse (statusCode : Int) (message type param code : List UInt8) : HttpResponse :=
  writeBody (setJsonHeaders {response with statusCode := statusCode})
    [jsonWriteObjectStart,jsonWriteKey (cstr "error"),jsonWriteObjectStart,
      jsonWriteKvString (cstr "message") message,jsonWriteKvString (cstr "type") type,
      kvStringOrNull (cstr "param") param,kvStringOrNull (cstr "code") code,
      jsonWriteObjectEnd,jsonWriteObjectEnd]

end Response

/-- MODEL_ID -/
def modelId : List UInt8 := cstr "embedded-llama"

/-- generate_request_id into a buffer of 64 bytes: the context after it and the string. -/
def generateRequestId (context : ApiContext) (pre : List UInt8) : ApiContext × List UInt8 :=
  let counter := context.requestCounter+1
  ({context with requestCounter := counter},
    cut ((Buffer.zero 64).snprintf (cstr "%s-%016llx")
      [.str (some pre),.word counter.toUInt32,.word (counter >>> 32).toUInt32]).1.bytes)

def isPostRequest (request : HttpRequest) : Bool :=
  strncmp request.method.bytes (cstr "POST") 5=0

def isGetRequest (request : HttpRequest) : Bool := strncmp request.method.bytes (cstr "GET") 4=0

def invalidRequest (response : HttpResponse) (statusCode : Int) (message param code : List UInt8) :
    HttpResponse :=
  buildErrorResponse response statusCode message (cstr "invalid_request_error") param code

/-- What the POST handlers share: the errors for a wrong method, no body, a body that is not
understood and a missing field, and otherwise what `respond` makes of the request. -/
def handlePost {R : Type} (parse : List UInt8 → Nat → Except Fault R) (field : List UInt8)
    (missing : R → Bool) (respond : R → ApiContext → HttpResponse → ApiContext × HttpResponse)
    (context : ApiContext) (request : HttpRequest) (response : HttpResponse) :
    ApiContext × HttpResponse :=
  if isPostRequest request=false then
    (context,invalidRequest response 405 (cstr "Method not allowed") []
      (cstr "method_not_allowed"))
  else if request.bodyLength=0 then
    (context,invalidRequest response 400 (cstr "Request body is empty") [] (cstr "empty_body"))
  else
    match parse request.body.bytes request.bodyLength with
    | .error _ =>
      (context,invalidRequest response 400 (cstr "Invalid JSON") [] (cstr "json_parse_error"))
    | .ok req =>
      if missing req then
        (context,invalidRequest response 400 (cstr "Missing required field: "++field) field
          (cstr "missing_field"))
      else respond req context response

/-- response->status_code = 200 and the JSON headers. -/
def okResponse (response : HttpResponse) : HttpResponse :=
  setJsonHeaders {response with statusCode := 200}

section Handlers

variable (environment : Environment)

def completionCalls (context : ApiContext) (id text : List UInt8) (nTokens : Int32) :
    List (Call httpResponseBodySize) :=
  [jsonWriteObjectStart,jsonWriteKvString (cstr "id") id,
    jsonWriteKvString (cstr "object") (cstr "text_completion"),
    jsonWriteKvInt64 (cstr "created") context.createdTime,
    jsonWriteKvString (cstr "model") modelId,
    jsonWriteKey (cstr "choices"),jsonWriteArrayStart,jsonWriteObjectStart,
    jsonWriteKvString (cstr "text") text,jsonWriteKvInt (cstr "index") 0,
    jsonWriteKvNull (cstr "logprobs"),jsonWriteKvString (cstr "finish_reason") (cstr "stop"),
    jsonWriteObjectEnd,jsonWriteArrayEnd,
    jsonWriteKey (cstr "usage"),jsonWriteObjectStart,
    jsonWriteKvInt (cstr "prompt_tokens") nTokens,jsonWriteKvInt (cstr "completion_tokens") 1,
    jsonWriteKvInt (cstr "total_tokens") (nTokens+1),jsonWriteObjectEnd,jsonWriteObjectEnd]

def handleV1Completions : ApiContext → HttpRequest → HttpResponse → ApiContext × HttpResponse :=
  handlePost (parseCompletionRequest (φ := Binary32) Binary64) (cstr "prompt")
    (fun req => req.prompt.bytes.headD 0=0)
    fun req context response =>
      let nTokens : Int32 :=
        if context.llmCtx then Int32.ofNat (llmTokenize req.prompt.bytes maxTokens).length else 0
      let text :=
        if context.llmCtx then generatedText environment.mallocs req.prompt.bytes req.maxTokens
        else cstr " [model not loaded]"
      let id := generateRequestId context (cstr "cmpl")
      (id.1,writeBody (okResponse response) (completionCalls id.1 id.2 text nTokens))

/-- The messages in one prompt, with line feeds between them. -/
def joinMessages : CField maxPromptLength → List ChatMessage → CField maxPromptLength
  | prompt,[] => prompt
  | prompt,[message] => safeStrcat prompt message.content.bytes
  | prompt,message::messages =>
    joinMessages (safeStrcat (safeStrcat prompt message.content.bytes) (cstr "\n")) messages

def placeholder : List UInt8 :=
  cstr "Hello! I'm a placeholder response from the CLLM unikernel."

def chatCalls (context : ApiContext) (id text : List UInt8) (promptTokens : Int32) :
    List (Call httpResponseBodySize) :=
  let completionTokens := Int32.ofNat (cut text).length
  [jsonWriteObjectStart,jsonWriteKvString (cstr "id") id,
    jsonWriteKvString (cstr "object") (cstr "chat.completion"),
    jsonWriteKvInt64 (cstr "created") context.createdTime,
    jsonWriteKvString (cstr "model") modelId,
    jsonWriteKey (cstr "choices"),jsonWriteArrayStart,jsonWriteObjectStart,
    jsonWriteKvInt (cstr "index") 0,
    jsonWriteKey (cstr "message"),jsonWriteObjectStart,
    jsonWriteKvString (cstr "role") (cstr "assistant"),jsonWriteKvString (cstr "content") text,
    jsonWriteObjectEnd,
    jsonWriteKvString (cstr "finish_reason") (cstr "stop"),jsonWriteObjectEnd,jsonWriteArrayEnd,
    jsonWriteKey (cstr "usage"),jsonWriteObjectStart,
    jsonWriteKvInt (cstr "prompt_tokens") promptTokens,
    jsonWriteKvInt (cstr "completion_tokens") completionTokens,
    jsonWriteKvInt (cstr "total_tokens") (promptTokens+completionTokens),
    jsonWriteObjectEnd,jsonWriteObjectEnd]

def handleV1ChatCompletions :
    ApiContext → HttpRequest → HttpResponse → ApiContext × HttpResponse :=
  handlePost (parseChatRequest (φ := Binary32) Binary64) (cstr "messages")
    (fun req => req.messages.1.length=0)
    fun req context response =>
      let prompt := joinMessages (.empty _ maxPromptLength_pos) req.messages.1
      let text :=
        if context.llmCtx then generatedText environment.mallocs prompt.bytes req.maxTokens
        else placeholder
      let promptTokens :=
        req.messages.1.foldl (fun n message => n+Int32.ofNat (cut message.content.bytes).length) 0
      let id := generateRequestId context (cstr "chatcmpl")
      (id.1,writeBody (okResponse response) (chatCalls id.1 id.2 text promptTokens))

/-- The placeholder: 0.1f to 0.8f. -/
def embedding : List Binary32 := [1,2,3,4,5,6,7,8].map fun n => .decimal binary32 n 1

def embeddingCalls (promptTokens : Int32) : List (Call httpResponseBodySize) :=
  [jsonWriteObjectStart,jsonWriteKvString (cstr "object") (cstr "list"),
    jsonWriteKey (cstr "data"),jsonWriteArrayStart,jsonWriteObjectStart,
    jsonWriteKvString (cstr "object") (cstr "embedding"),jsonWriteKvInt (cstr "index") 0,
    jsonWriteKey (cstr "embedding"),jsonWriteFloatArray environment.evaluation.format embedding,
    jsonWriteObjectEnd,jsonWriteArrayEnd,
    jsonWriteKvString (cstr "model") modelId,
    jsonWriteKey (cstr "usage"),jsonWriteObjectStart,
    jsonWriteKvInt (cstr "prompt_tokens") promptTokens,
    jsonWriteKvInt (cstr "total_tokens") promptTokens,jsonWriteObjectEnd,jsonWriteObjectEnd]

def handleV1Embeddings : ApiContext → HttpRequest → HttpResponse → ApiContext × HttpResponse :=
  handlePost (parseEmbeddingRequest Binary64) (cstr "input")
    (fun req => req.input.bytes.headD 0=0)
    fun req context response =>
      (context,writeBody (okResponse response)
        (embeddingCalls environment (Int32.ofNat (cut req.input.bytes).length)))

def modelCalls (context : ApiContext) : List (Call httpResponseBodySize) :=
  [jsonWriteObjectStart,jsonWriteKvString (cstr "object") (cstr "list"),
    jsonWriteKey (cstr "data"),jsonWriteArrayStart,jsonWriteObjectStart,
    jsonWriteKvString (cstr "id") modelId,jsonWriteKvString (cstr "object") (cstr "model"),
    jsonWriteKvInt64 (cstr "created") context.createdTime,
    jsonWriteKvString (cstr "owned_by") (cstr "cllm-unikernel"),jsonWriteObjectEnd,
    jsonWriteArrayEnd,jsonWriteObjectEnd]

def handleV1Models (context : ApiContext) (request : HttpRequest) (response : HttpResponse) :
    ApiContext × HttpResponse :=
  if isGetRequest request=false then
    (context,invalidRequest response 405 (cstr "Method not allowed") []
      (cstr "method_not_allowed"))
  else (context,writeBody (okResponse response) (modelCalls context))

/-- The tokens of handle_tokenize, without a context those of its fallback. -/
def tokenized (context : ApiContext) (content : List UInt8) : List Int32 :=
  if context.llmCtx then llmTokenize content maxTokens
  else ((cut content).take maxTokens).map tokenOf

def tokenizeCalls (tokens : List Int32) : List (Call httpResponseBodySize) :=
  [jsonWriteObjectStart,jsonWriteKey (cstr "tokens"),jsonWriteIntArray tokens,jsonWriteObjectEnd]

def handleTokenize : ApiContext → HttpRequest → HttpResponse → ApiContext × HttpResponse :=
  handlePost (parseTokenizeRequest Binary64) (cstr "content")
    (fun req => req.content.bytes.headD 0=0)
    fun req context response =>
      (context,writeBody (okResponse response)
        (tokenizeCalls (tokenized context req.content.bytes)))

/-- The bytes in front of the NUL of `text` in handle_detokenize; the fallback keeps seven bits of
a token. -/
def detokenized (context : ApiContext) (tokens : List Int32) : List UInt8 :=
  if context.llmCtx then llmDetokenize tokens maxPromptLength
  else (tokens.take (maxPromptLength-1)).map fun token => charOf (token&&&0x7F)

def detokenizeCalls (text : List UInt8) : List (Call httpResponseBodySize) :=
  [jsonWriteObjectStart,jsonWriteKvString (cstr "content") text,jsonWriteObjectEnd]

def handleDetokenize : ApiContext → HttpRequest → HttpResponse → ApiContext × HttpResponse :=
  handlePost (parseDetokenizeRequest Binary64) (cstr "tokens")
    (fun req => req.tokens.1.length=0)
    fun req context response =>
      (context,writeBody (okResponse response)
        (detokenizeCalls (detokenized context req.tokens.1)))

/-- A handler with a fixed body. -/
def fixedBody (response : HttpResponse) (text : List UInt8) : HttpResponse :=
  measureBody (setBody (okResponse response) text)

def handleHealthCheck (response : HttpResponse) : HttpResponse :=
  fixedBody response (cstr "\x7b\"status\": \"ok\"\x7d")

def handleLoadModel (response : HttpResponse) : HttpResponse :=
  fixedBody response
    (cstr "\x7b\"status\": \"loading\", \"message\": \"Model loading not yet implemented\"\x7d")

def handleCompletion (response : HttpResponse) : HttpResponse :=
  fixedBody response (cstr
    "\x7b\"status\": \"generating\", \"message\": \"Text completion not yet implemented\"\x7d")

def metadataFormat : List UInt8 :=
  cstr "\x7b\"magic\":\"%c%c%c%c\",\"version\":%u,\"tensor_count\":%u,\"kv_count\":%u," ++
    cstr "\"architecture\":\"%s\",\"context_length\":%u\x7d"

/-- A number as an argument, with the string at its address. -/
def wordArg (v : UInt32) : VaArg := .cell v (environment.memory v).1

/-- A `char` as an argument, which is an `int` by then. -/
def charArg (c : UInt8) : VaArg := wordArg environment c.toInt8.toInt32.toUInt32

def metadataArgs (data : ModelMetadata) : List VaArg :=
  (List.ofFn fun i => charArg environment (data.magic i))++
    [wordArg environment data.version,wordArg environment data.tensorCount,
    wordArg environment data.kvCount,.str (some (cut data.architecture.bytes)),
    wordArg environment data.contextLength]

/-- A length that the cast to `int` makes negative is over the size as well. -/
def handleModelMetadata (response : HttpResponse) : HttpResponse :=
  let response := okResponse response
  let r := response.body.snprintf metadataFormat (metadataArgs environment cGetModelMetadata)
  let response := {response with body := r.1}
  if httpResponseBodySize ≤ r.2 then
    measureBody (setBody {response with statusCode := 500}
      (cstr "\x7b\"error\":\"failed to format metadata\"\x7d"))
  else measureBody response

/-- The path begins with a route of `n` characters. -/
def routed (request : HttpRequest) (route : List UInt8) (n : Nat) : Bool :=
  strncmp request.path.bytes route n=0

def routeRequest (context : ApiContext) (request : HttpRequest) (response : HttpResponse) :
    ApiContext × HttpResponse :=
  let response := setJsonHeaders response
  if routed request (cstr "/v1/completions") 15 then
    handleV1Completions environment context request response
  else if routed request (cstr "/v1/chat/completions") 20 then
    handleV1ChatCompletions environment context request response
  else if routed request (cstr "/v1/embeddings") 14 then
    handleV1Embeddings environment context request response
  else if routed request (cstr "/v1/models") 10 then handleV1Models context request response
  else if routed request (cstr "/tokenize") 9 then handleTokenize context request response
  else if routed request (cstr "/detokenize") 11 then handleDetokenize context request response
  else if routed request (cstr "/health") 8 then
    (context,measureBody (handleHealthCheck response))
  else if routed request (cstr "/model/metadata") 15 then
    (context,measureBody (handleModelMetadata environment response))
  else if routed request (cstr "/model/load") 12 then
    (context,measureBody (handleLoadModel response))
  else if routed request (cstr "/completion") 11 then
    (context,measureBody (handleCompletion response))
  else
    (context,measureBody (setBody {response with statusCode := 404}
      (cstr "\x7b\"error\":\"not found\"\x7d")))

/-- What holds of the answer to one route and to all others. -/
theorem route_always (P : HttpResponse → Prop) {routed : Bool}
    {answer other : ApiContext × HttpResponse} (h : P answer.2) (ho : P other.2) :
    P (if routed then answer else other).2 := by
  cases routed
  · exact ho
  · exact h

end Handlers

end Cllm.Api
