import Cllm.Api.Tokens
import Cllm.Framework.Quotes
import Cllm.Json.Growth

namespace Cllm.Api

open Libc Json Http Rfc8259 Ieee754

/-- The body is one JSON text, and the string in the array has the length that the response
gives. -/
structure JsonBody (response : HttpResponse) : Prop where
  spells : ∃ v,Spells v (bodyText response)
  length : strlen response.body.bytes=some response.bodyLength
  room : response.bodyLength < httpResponseBodySize

/-- A JSON text has no NUL, and so ends in front of the one behind it. -/
theorem jsonBody_of_terminated {response : HttpResponse} {text rest : List UInt8}
    (hbytes : response.body.bytes=text++0::rest) (hlength : response.bodyLength=text.length)
    (hspells : ∃ v,Spells v text) : JsonBody response := by
  have htext : bodyText response=text := by
    rw [bodyText,hbytes,hlength]
    exact List.take_left' rfl
  have hzero : 0∉text := by
    obtain ⟨v,hv⟩ := hspells
    exact hv.closed.zero_not_mem
  have hstrlen : strlen response.body.bytes=some response.bodyLength := by
    rw [hbytes,hlength]
    exact strlen_append hzero rest
  refine ⟨?_,hstrlen,?_⟩
  · rw [htext]
    exact hspells
  · have hlt := (strlen_some hstrlen).1
    rwa [response.body.size] at hlt

theorem jsonBody_writeBody (response : HttpResponse) {calls : List (Call httpResponseBodySize)}
    (item : Item httpResponseBodySize) (hcalls : ∀ w,(all calls w).1=(item.call w).1)
    (hgrows : ∀ f∈calls,Grows f) (hlen : item.value.texts.flatten.length < httpResponseBodySize) :
    JsonBody (writeBody response calls) := by
  have htext := bodyText_writeBody response item hcalls hlen
  have hended := (grows_all hgrows (jsonWriterInit response.body)).ended
    (ended_init body_pos response.body)
  apply jsonBody_of_terminated hended.bytes
  · exact (Writer.length_text _).symm
  · refine ⟨item.value,?_⟩
    change Spells item.value (bodyText (writeBody response calls))
    rw [htext]
    exact spells_flatten item.value

theorem stringItem_length (s : List UInt8) :
    (@Item.string httpResponseBodySize s).value.texts.flatten.length ≤ 2*s.length+2 := by
  have hlen := escapedText_length (cut s)
  have hcut := cut_length s
  change (Value.string (stringLiteral (cut s))).texts.flatten.length ≤ 2*s.length+2
  rw [Value.texts,List.flatten_singleton,Literal.text,stringLiteral_inner,List.length_cons,
    List.length_append,List.length_singleton]
  omega

/-- A name that is put out as it stands. -/
def Plain (k : List UInt8) : Prop := ∀ c∈k,32≤c ∧ c≠34 ∧ c≠92

instance (k : List UInt8) : Decidable (Plain k) := List.decidableBAll _ k

theorem errorNames_plain : Plain (cstr "error") ∧ Plain (cstr "message") ∧ Plain (cstr "type") ∧
    Plain (cstr "param") ∧ Plain (cstr "code") := by
  repeat rw [cstr_ofList]
  decide

section Errors

variable {size : Nat}

/-- A string, or null for the empty one. -/
def stringOrNull (value : List UInt8) : Item size :=
  if value.headD 0≠0 then .string value else .null

def errorItem (message type param code : List UInt8) : Item size :=
  .object [.pair ⟨cstr "error",errorNames_plain.1⟩
    (.object [.kv ⟨cstr "message",errorNames_plain.2.1⟩ (.string message),
      .kv ⟨cstr "type",errorNames_plain.2.2.1⟩ (.string type),
      .kv ⟨cstr "param",errorNames_plain.2.2.2.1⟩ (stringOrNull param),
      .kv ⟨cstr "code",errorNames_plain.2.2.2.2⟩ (stringOrNull code)])]

end Errors

theorem kvStringOrNull_item (key value : List UInt8) :
    kvStringOrNull key value=attempt [jsonWriteKey key,(stringOrNull value).call] := by
  unfold kvStringOrNull stringOrNull
  split
  · rfl
  · rfl

theorem grows_kvStringOrNull (key value : List UInt8) : Grows (kvStringOrNull key value) := by
  unfold kvStringOrNull
  split
  · exact grows_kvString key value
  · exact grows_kvNull key

theorem jsonBody_buildErrorResponse (response : HttpResponse) (statusCode : Int)
    {message type param code : List UInt8}
    (hlen : (@errorItem httpResponseBodySize message type param code).value.texts.flatten.length <
      httpResponseBodySize) :
    JsonBody (buildErrorResponse response statusCode message type param code) := by
  apply jsonBody_writeBody _ (errorItem message type param code) _ _ hlen
  · intro w
    rw [kvStringOrNull_item,kvStringOrNull_item]
    simp only [errorItem,Item.object,Member.pair,Member.kv,List.map_cons,List.map_nil,
      List.cons_append,List.nil_append,all_cons,all_nil]
    rfl
  · simp [grows_kvStringOrNull]

/-- The message, the parameter and the code of the errors that a POST handler answers with. -/
def errors (field : List UInt8) : List (List UInt8 × List UInt8 × List UInt8) :=
  [(cstr "Method not allowed",[],cstr "method_not_allowed"),
    (cstr "Request body is empty",[],cstr "empty_body"),
    (cstr "Invalid JSON",[],cstr "json_parse_error"),
    (cstr "Missing required field: "++field,field,cstr "missing_field")]

/-- The fields that a request can lack. -/
def requiredFields : List (List UInt8) :=
  [cstr "prompt",cstr "messages",cstr "input",cstr "content",cstr "tokens"]

theorem stringOrNull_length (s : List UInt8) :
    (@stringOrNull httpResponseBodySize s).value.texts.flatten.length ≤ 2*s.length+4 := by
  unfold stringOrNull
  split
  · have hlen := stringItem_length s
    omega
  · change 4 ≤ 2*s.length+4
    omega

theorem errorItem_length (message type param code : List UInt8) :
    (@errorItem httpResponseBodySize message type param code).value.texts.flatten.length ≤
      2*(message.length+type.length+param.length+code.length)+60 := by
  have hmessage := stringItem_length message
  have htype := stringItem_length type
  have hparam := stringOrNull_length param
  have hcode := stringOrNull_length code
  have hcomma : (comma true).length=1 ∧ (comma false).length=0 := by decide
  have hnames : (cstr "error").length=5 ∧ (cstr "message").length=7 ∧ (cstr "type").length=4 ∧
      (cstr "param").length=5 ∧ (cstr "code").length=4 := by
    repeat rw [cstr_ofList]
    decide
  simp only [errorItem,Item.object,Member.pair,Member.kv,List.map_cons,List.map_nil,Member.entry,
    object_text,membersText,memberText]
  simp only [List.length_cons,List.length_append,List.length_nil,Name.length_text,hcomma,hnames]
  omega

theorem errors_length : ∀ field∈requiredFields,∀ e∈errors field,
    e.1.length+e.2.1.length+e.2.2.length ≤ 256 := by
  unfold requiredFields errors
  repeat rw [cstr_ofList]
  decide

theorem errors_fit (field : List UInt8) (hfield : field∈requiredFields)
    (e : List UInt8 × List UInt8 × List UInt8) (he : e∈errors field) :
    (@errorItem httpResponseBodySize e.1 (cstr "invalid_request_error") e.2.1
      e.2.2).value.texts.flatten.length < httpResponseBodySize := by
  have hlen := errorItem_length e.1 (cstr "invalid_request_error") e.2.1 e.2.2
  have herror := errors_length field hfield e he
  have htype : (cstr "invalid_request_error").length=21 := by
    rw [cstr_ofList]
    decide
  have hsize : httpResponseBodySize=16384 := rfl
  omega

theorem jsonBody_invalidRequest (response : HttpResponse) (statusCode : Int)
    {field : List UInt8} (hfield : field∈requiredFields)
    {e : List UInt8 × List UInt8 × List UInt8} (he : e∈errors field) :
    JsonBody (invalidRequest response statusCode e.1 e.2.1 e.2.2) :=
  jsonBody_buildErrorResponse response statusCode (errors_fit field hfield e he)

section Post

variable {R : Type} {parse : List UInt8 → Nat → Except Fault R} {field : List UInt8}
  {missing : R → Bool} {respond : R → ApiContext → HttpResponse → ApiContext × HttpResponse}

/-- A request that is understood is answered, and the others get an error. -/
theorem handlePost_cases (context : ApiContext) (request : HttpRequest) (response : HttpResponse) :
    (∃ req,Understood parse missing request req ∧
      handlePost parse field missing respond context request response=
        respond req context response) ∨
    (¬∃ req,Understood parse missing request req) ∧ ∃ statusCode,∃ e∈errors field,
      handlePost parse field missing respond context request response=
        (context,invalidRequest response statusCode e.1 e.2.1 e.2.2) := by
  unfold handlePost
  by_cases hpost : isPostRequest request=false
  · rw [if_pos hpost]
    refine Or.inr ⟨?_,405,(cstr "Method not allowed",[],cstr "method_not_allowed"),
      by simp [errors],rfl⟩
    intro h
    obtain ⟨req,hreq⟩ := h
    rw [hreq.post] at hpost
    cases hpost
  rw [if_neg hpost]
  rw [Bool.not_eq_false] at hpost
  by_cases hlen : request.bodyLength=0
  · rw [if_pos hlen]
    refine Or.inr ⟨?_,400,(cstr "Request body is empty",[],cstr "empty_body"),by simp [errors],rfl⟩
    intro h
    obtain ⟨req,hreq⟩ := h
    exact hreq.nonempty hlen
  rw [if_neg hlen]
  cases hparse : parse request.body.bytes request.bodyLength with
  | error fault =>
    refine Or.inr ⟨?_,400,(cstr "Invalid JSON",[],cstr "json_parse_error"),by simp [errors],rfl⟩
    intro h
    obtain ⟨req,hreq⟩ := h
    have hok := hreq.parsed
    rw [hparse] at hok
    cases hok
  | ok req =>
    dsimp only
    by_cases hmissing : missing req=true
    · rw [if_pos hmissing]
      refine Or.inr ⟨?_,400,(cstr "Missing required field: "++field,field,cstr "missing_field"),
        by simp [errors],rfl⟩
      intro h
      obtain ⟨req',hreq⟩ := h
      have hok := hreq.parsed
      rw [hparse] at hok
      injection hok with hok
      have hpresent := hreq.present
      rw [← hok,hmissing] at hpresent
      cases hpresent
    · rw [if_neg hmissing]
      rw [Bool.not_eq_true] at hmissing
      exact Or.inl ⟨req,⟨hpost,hlen,hparse,hmissing⟩,rfl⟩

theorem jsonBody_handlePost (hfield : field∈requiredFields)
    (h : ∀ req context response,JsonBody (respond req context response).2) (context : ApiContext)
    (request : HttpRequest) (response : HttpResponse) :
    JsonBody (handlePost parse field missing respond context request response).2 := by
  obtain ⟨req,-,heq⟩ | ⟨-,statusCode,e,he,heq⟩ :=
    @handlePost_cases R parse field missing respond context request response
  · rw [heq]
    exact h req context response
  · rw [heq]
    exact jsonBody_invalidRequest response statusCode hfield he

/-- The same for an answer that is never JSON. -/
theorem jsonBody_handlePost_iff (hfield : field∈requiredFields)
    (h : ∀ req context response,¬JsonBody (respond req context response).2) (context : ApiContext)
    (request : HttpRequest) (response : HttpResponse) :
    JsonBody (handlePost parse field missing respond context request response).2 ↔
      ¬∃ req,Understood parse missing request req := by
  obtain ⟨req,hreq,heq⟩ | ⟨hnone,statusCode,e,he,heq⟩ :=
    @handlePost_cases R parse field missing respond context request response
  · rw [heq]
    exact iff_of_false (h req context response) fun hnone => hnone ⟨req,hreq⟩
  · rw [heq]
    exact iff_of_true (jsonBody_invalidRequest response statusCode hfield he) hnone

end Post

theorem jsonBody_handleTokenize (context : ApiContext) (request : HttpRequest)
    (response : HttpResponse) : JsonBody (handleTokenize context request response).2 := by
  apply jsonBody_handlePost (by simp [requiredFields])
  intro req context response
  have htokens : ∃ s : List UInt8,tokenized context req.content.bytes=s.map tokenOf ∧
      s.length ≤ maxTokens := by
    refine ⟨(cut req.content.bytes).take maxTokens,?_,List.length_take_le ..⟩
    unfold tokenized llmTokenize
    exact ite_self _
  obtain ⟨s,hs,hlen⟩ := htokens
  have hvalue := tokensValue_length s
  have hmax : maxTokens=2048 := rfl
  have hsize : httpResponseBodySize=16384 := rfl
  dsimp only
  rw [hs]
  apply jsonBody_writeBody _ (tokensItem (s.map tokenOf)) (tokenizeCalls_item _)
  · simp [tokenizeCalls]
  · change (tokensValue (s.map tokenOf)).texts.flatten.length < _
    omega

theorem detokenized_length (context : ApiContext) (tokens : List Int32) :
    (detokenized context tokens).length ≤ tokens.length := by
  unfold detokenized llmDetokenize
  split
  · rw [List.length_map]
    exact List.length_take_le' ..
  · rw [List.length_map]
    exact List.length_take_le' ..

theorem jsonBody_handleDetokenize (context : ApiContext) (request : HttpRequest)
    (response : HttpResponse) : JsonBody (handleDetokenize context request response).2 := by
  apply jsonBody_handlePost (by simp [requiredFields])
  intro req context response
  have hlen := detokenized_length context req.tokens.1
  have htokens := req.tokens.2
  have hcut := cut_length (detokenized context req.tokens.1)
  have hvalue := contentObject_length (cut (detokenized context req.tokens.1))
  have hmax : maxTokens=2048 := rfl
  have hsize : httpResponseBodySize=16384 := rfl
  apply jsonBody_writeBody _ (contentItem _) (detokenizeCalls_item _)
  · simp [detokenizeCalls]
  · rw [contentItem_value]
    omega

theorem embeddingNames_plain : Plain (cstr "object") ∧ Plain (cstr "data") ∧
    Plain (cstr "index") ∧ Plain (cstr "embedding") ∧ Plain (cstr "model") ∧
    Plain (cstr "usage") ∧ Plain (cstr "prompt_tokens") ∧ Plain (cstr "total_tokens") := by
  repeat rw [cstr_ofList]
  decide

section Embeddings

variable {size : Nat}

def tenthItem (evaluation : FltEval) (n : {n : Nat // n∈[1,2,3,4,5,6,7,8]}) : Item size :=
  .fraction evaluation.format (.decimal binary32 n.1 1) (fractional_tenth evaluation n.2)

def tenthItems (evaluation : FltEval) : List (Item size) :=
  [1,2,3,4,5,6,7,8].attach.map (tenthItem evaluation)

def embeddingItem (evaluation : FltEval) (promptTokens : Int32) : Item size :=
  .object [.kv ⟨cstr "object",embeddingNames_plain.1⟩ (.string (cstr "list")),
    .pair ⟨cstr "data",embeddingNames_plain.2.1⟩
      (.array [.object [.kv ⟨cstr "object",embeddingNames_plain.1⟩ (.string (cstr "embedding")),
        .kv ⟨cstr "index",embeddingNames_plain.2.2.1⟩ (.int 0),
        .pair ⟨cstr "embedding",embeddingNames_plain.2.2.2.1⟩ (.packed (tenthItems evaluation))]]),
    .kv ⟨cstr "model",embeddingNames_plain.2.2.2.2.1⟩ (.string modelId),
    .pair ⟨cstr "usage",embeddingNames_plain.2.2.2.2.2.1⟩
      (.object [.kv ⟨cstr "prompt_tokens",embeddingNames_plain.2.2.2.2.2.2.1⟩ (.int promptTokens),
        .kv ⟨cstr "total_tokens",embeddingNames_plain.2.2.2.2.2.2.2⟩ (.int promptTokens)])]

end Embeddings

theorem embeddingCalls_item (environment : Environment) (promptTokens : Int32)
    (w : Writer httpResponseBodySize) : (all (embeddingCalls environment promptTokens) w).1=
      ((embeddingItem environment.evaluation promptTokens).call w).1 := by
  have hfloats : (jsonWriteFloatArray environment.evaluation.format embedding :
      Call httpResponseBodySize)=(Item.packed (tenthItems environment.evaluation)).call := by
    rw [jsonWriteFloatArray,embedding,List.map_map]
    rfl
  simp only [embeddingCalls,hfloats,embeddingItem,Item.object,Item.array,Member.pair,Member.kv,
    List.map_cons,List.map_nil,List.cons_append,List.nil_append,all_cons,all_nil]
  rfl

theorem tenthItem_length (evaluation : FltEval) (n : {n : Nat // n∈[1,2,3,4,5,6,7,8]}) :
    (@tenthItem httpResponseBodySize evaluation n).value.texts.flatten.length ≤ 13 := by
  have hk := (fractional_tenth evaluation n.2).2.2
  have hlen := intText_length (trimZeros 10 (fractionPart evaluation.format
    (.decimal binary32 n.1 1) 0))
  change (Value.number (fractionNumeral _)).texts.flatten.length ≤ 13
  rw [Value.texts,List.flatten_singleton,fractionNumeral_text hk,List.length_cons,List.length_cons]
  omega

theorem intItem_length (i : Int32) :
    (@Item.int httpResponseBodySize i).value.texts.flatten.length ≤ 11 := by
  change (Value.number (intNumeral i)).texts.flatten.length ≤ 11
  rw [Value.texts,List.flatten_singleton,intNumeral_text]
  exact intText_length i

theorem embeddingItem_length (evaluation : FltEval) (promptTokens : Int32) :
    (@embeddingItem httpResponseBodySize evaluation promptTokens).value.texts.flatten.length <
      httpResponseBodySize := by
  have hlist := stringItem_length (cstr "list")
  have hembedding := stringItem_length (cstr "embedding")
  have hmodel := stringItem_length modelId
  have hindex := intItem_length 0
  have htokens := intItem_length promptTokens
  have hvalues : ∀ v∈(@tenthItems httpResponseBodySize evaluation).map Item.value,
      v.texts.flatten.length ≤ 13 := by
    intro v hv
    obtain ⟨item,hitem,rfl⟩ := List.mem_map.mp hv
    obtain ⟨n,-,rfl⟩ := List.mem_map.mp hitem
    exact tenthItem_length evaluation n
  have hfloats := elementsText_length false hvalues
  have hcount : ((@tenthItems httpResponseBodySize evaluation).map Item.value).length=8 := rfl
  have hcomma : (comma true).length=1 ∧ (comma false).length=0 := by decide
  have hnames : (cstr "object").length=6 ∧ (cstr "data").length=4 ∧ (cstr "index").length=5 ∧
      (cstr "embedding").length=9 ∧ (cstr "model").length=5 ∧ (cstr "usage").length=5 ∧
      (cstr "prompt_tokens").length=13 ∧ (cstr "total_tokens").length=12 := by
    repeat rw [cstr_ofList]
    decide
  have hstrings : (cstr "list").length=4 ∧ modelId.length=14 := by
    repeat rw [cstr_ofList]
    decide
  have hsize : httpResponseBodySize=16384 := rfl
  simp only [embeddingItem,Item.object,Item.array,Item.packed,Member.pair,Member.kv,List.map_cons,
    List.map_nil,Member.entry,object_text,array_text,membersText,memberText,elementsText]
  simp only [List.length_cons,List.length_append,List.length_nil,Name.length_text,hcomma,hnames]
  omega

theorem jsonBody_handleV1Embeddings (environment : Environment) (context : ApiContext)
    (request : HttpRequest) (response : HttpResponse) :
    JsonBody (handleV1Embeddings environment context request response).2 := by
  apply jsonBody_handlePost (by simp [requiredFields])
  intro req context response
  apply jsonBody_writeBody _ (embeddingItem environment.evaluation _)
  · apply embeddingCalls_item
  · simp [embeddingCalls]
  · apply embeddingItem_length

end Cllm.Api
