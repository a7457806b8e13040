import Cllm.Api.Created
import Cllm.Json.Leading

namespace Cllm.Api

open Libc Json Http Rfc8259 Ieee754

/-- A string that the array ends is the whole body. -/
theorem jsonBody_measureBody {response : HttpResponse} {text rest : List UInt8}
    (hbytes : response.body.bytes=text++0::rest) (hzero : 0∉text) :
    JsonBody (measureBody response) ↔ ∃ v,Spells v text := by
  have hbody : (measureBody response).body.bytes=text++0::rest := hbytes
  have hlength : (measureBody response).bodyLength=text.length := by
    change (strlen response.body.bytes).getD 0=text.length
    rw [hbytes,strlen_append hzero,Option.getD_some]
  constructor
  · intro h
    have hspells := h.spells
    rwa [bodyText,hbody,hlength,List.take_left' rfl] at hspells
  · intro h
    exact jsonBody_of_terminated hbody hlength h

theorem measureBody_measureBody (response : HttpResponse) :
    measureBody (measureBody response)=measureBody response := rfl

/-- A text that is short enough is stored as it is. -/
theorem jsonBody_setBody (response : HttpResponse) {text : List UInt8}
    (hspells : ∃ v,Spells v text) (hlen : text.length < httpResponseBodySize) :
    JsonBody (measureBody (setBody response text)) := by
  have hzero : 0∉text := by
    obtain ⟨v,hv⟩ := hspells
    exact hv.closed.zero_not_mem
  obtain ⟨rest,hbytes⟩ := safeStrcpy_bytes response.body body_pos text
  have htext : copiedText httpResponseBodySize text=text := by
    rw [copiedText,cut_of_not_mem hzero]
    exact List.take_of_length_le (by omega)
  rw [htext] at hbytes
  exact (jsonBody_measureBody hbytes hzero).mpr hspells

/-- An object of strings. -/
def strings (ms : List (List UInt8 × List UInt8)) : Value :=
  .object (Members.of (ms.map fun m => (stringLiteral m.1,.string (stringLiteral m.2))))

theorem spells_health : ∃ v,Spells v (cstr "\x7b\"status\": \"ok\"\x7d") := by
  refine ⟨strings [(cstr "status",cstr "ok")],spells_of_tokens [([],[123]),
    ([],cstr "\"status\""),([],[58]),([32],cstr "\"ok\""),([],[125])] (by simp [Blank]) ?_ ?_⟩
  · repeat rw [cstr_ofList]
    decide
  · repeat rw [cstr_ofList]
    decide

theorem spells_loading : ∃ v,Spells v (cstr
    "\x7b\"status\": \"loading\", \"message\": \"Model loading not yet implemented\"\x7d") := by
  refine ⟨strings [(cstr "status",cstr "loading"),
      (cstr "message",cstr "Model loading not yet implemented")],
    spells_of_tokens [([],[123]),([],cstr "\"status\""),([],[58]),([32],cstr "\"loading\""),
      ([],[44]),([32],cstr "\"message\""),([],[58]),
      ([32],cstr "\"Model loading not yet implemented\""),([],[125])] (by simp [Blank]) ?_ ?_⟩
  · repeat rw [cstr_ofList]
    decide
  · repeat rw [cstr_ofList]
    decide

theorem spells_generating : ∃ v,Spells v (cstr
    "\x7b\"status\": \"generating\", \"message\": \"Text completion not yet implemented\"\x7d") := by
  refine ⟨strings [(cstr "status",cstr "generating"),
      (cstr "message",cstr "Text completion not yet implemented")],
    spells_of_tokens [([],[123]),([],cstr "\"status\""),([],[58]),([32],cstr "\"generating\""),
      ([],[44]),([32],cstr "\"message\""),([],[58]),
      ([32],cstr "\"Text completion not yet implemented\""),([],[125])] (by simp [Blank]) ?_ ?_⟩
  · repeat rw [cstr_ofList]
    decide
  · repeat rw [cstr_ofList]
    decide

/-- An error without blanks. -/
theorem spells_error (k : Name) :
    ∃ v,Spells v (cstr "\x7b\"error\":"++(k.literal.text++cstr "\x7d")) := by
  have hhead : cstr "\x7b\"error\":"=[123]++((stringLiteral (cstr "error")).text++[58]) := by
    repeat rw [cstr_ofList]
    decide
  refine ⟨.object (.cons (stringLiteral (cstr "error")) (.string k.literal) .nil),
    spells_of_tokens [([],[123]),([],(stringLiteral (cstr "error")).text),([],[58]),
      ([],k.literal.text),([],[125])] (by simp) rfl ?_⟩
  rw [hhead]
  simp
  rfl

/-- What the format puts out: %c has no branch, so the numbers are the characters of the magic,
and the architecture is the string at the address of its last one. -/
def metadataText (s : List UInt8) : List UInt8 :=
  cstr "\x7b\"magic\":\"%c%c%c%c\",\"version\":71,\"tensor_count\":71,\"kv_count\":85," ++
    (cstr "\"architecture\":\"" ++ (s ++ cstr "\",\"context_length\":3\x7d"))

section Formatted

variable (g : List UInt8) (more : List VaArg) (v : UInt32) (s : List UInt8)

theorem formatted_unsigned_cell : formatted (37::117::g) (.cell v s::more)=
    putBefore (uintText v.toNat 10 false) (formatted g more) := by
  rw [formatted_conversion]
  rfl

theorem formatted_string_cell : formatted (37::115::g) (.cell v s::more)=
    putBefore s (formatted g more) := by
  rw [formatted_conversion]
  rfl

end Formatted

theorem metadataFormat_eq : metadataFormat=
    cstr "\x7b\"magic\":\""++(37::99::37::99::37::99::37::99::
    (cstr "\",\"version\":"++(37::117::(cstr ",\"tensor_count\":"++(37::117::
    (cstr ",\"kv_count\":"++(37::117::(cstr ",\"architecture\":\""++(37::115::
    (cstr "\",\"context_length\":"++(37::117::(cstr "\x7d"++[])))))))))))) := by
  rw [metadataFormat]
  repeat rw [cstr_ofList]
  decide

theorem metadataArgs_eq (environment : Environment) :
    metadataArgs environment cGetModelMetadata=
      wordArg environment 71::wordArg environment 71::wordArg environment 85::
        wordArg environment 70::wordArg environment 3::
        (metadataArgs environment cGetModelMetadata).drop 5 := by
  rw [metadataArgs]
  simp only [List.ofFn_succ,List.ofFn_zero]
  rfl

theorem metadata_plain : 37∉cstr "\x7b\"magic\":\"" ∧ 37∉cstr "\",\"version\":" ∧
    37∉cstr ",\"tensor_count\":" ∧ 37∉cstr ",\"kv_count\":" ∧ 37∉cstr ",\"architecture\":\"" ∧
    37∉cstr "\",\"context_length\":" ∧ 37∉cstr "\x7d" ∧ (99 : UInt8)∉cstr "sdiuxXpz%" := by
  repeat rw [cstr_ofList]
  decide

theorem formatted_metadata (environment : Environment) :
    (formatted metadataFormat (metadataArgs environment cGetModelMetadata)).1=
      metadataText (environment.memory 70).1 := by
  obtain ⟨h1,h2,h3,h4,h5,h6,h7,hc⟩ := metadata_plain
  rw [metadataFormat_eq,metadataArgs_eq]
  generalize (metadataArgs environment cGetModelMetadata).drop 5=more
  unfold wordArg
  rw [formatted_text h1,formatted_other _ hc,formatted_other _ hc,formatted_other _ hc,
    formatted_other _ hc,formatted_text h2,formatted_unsigned_cell,formatted_text h3,
    formatted_unsigned_cell,formatted_text h4,formatted_unsigned_cell,formatted_text h5,
    formatted_string_cell,formatted_text h6,formatted_unsigned_cell,formatted_text h7]
  have hhead : cstr "\x7b\"magic\":\""++([37,99]++([37,99]++([37,99]++([37,99]++
      (cstr "\",\"version\":"++(uintText (71 : UInt32).toNat 10 false++
      (cstr ",\"tensor_count\":"++(uintText (71 : UInt32).toNat 10 false++
      (cstr ",\"kv_count\":"++(uintText (85 : UInt32).toNat 10 false++
      cstr ",\"architecture\":\""))))))))))=
      cstr "\x7b\"magic\":\"%c%c%c%c\",\"version\":71,\"tensor_count\":71,\"kv_count\":85,"++
        cstr "\"architecture\":\"" := by
    repeat rw [cstr_ofList]
    decide
  have hlast : cstr "\",\"context_length\":"++(uintText (3 : UInt32).toNat 10 false++
      (cstr "\x7d"++[]))=cstr "\",\"context_length\":3\x7d" := by
    repeat rw [cstr_ofList]
    decide
  rw [metadataText,← List.append_assoc,← hhead,← hlast]
  simp only [putBefore,formatted,List.append_assoc]

/-- The last two members as an object of their own. -/
def lastMembers (s : List UInt8) : List UInt8 :=
  cstr "\x7b\"architecture\":\"" ++ (s ++ cstr "\",\"context_length\":3\x7d")

/-- A member and a comma in front of what follows. -/
def led (key : List UInt8) (v : Value) (x : List UInt8) : List UInt8 :=
  (stringLiteral key).text++58::(v.texts.flatten++44::x)

theorem led_append (key : List UInt8) (v : Value) (x y : List UInt8) :
    led key v x++y=led key v (x++y) := by
  simp [led]

/-- The members in front of the architecture are in order. -/
theorem spells_metadataText (s : List UInt8) :
    (∃ v,Spells v (metadataText s)) ↔ ∃ v,Spells v (lastMembers s) := by
  have hlast : cstr "\x7b\"architecture\":\""=123::34::cstr "architecture\":\"" := by
    repeat rw [cstr_ofList]
    decide
  have hstart :
      cstr "\x7b\"magic\":\"%c%c%c%c\",\"version\":71,\"tensor_count\":71,\"kv_count\":85,"++
        cstr "\"architecture\":\""=
      123::led (cstr "magic") (.string (stringLiteral (cstr "%c%c%c%c")))
        (led (cstr "version") (.number (intNumeral 71))
        (led (cstr "tensor_count") (.number (intNumeral 71))
        (led (cstr "kv_count") (.number (intNumeral 85))
        (34::cstr "architecture\":\"")))) := by
    repeat rw [cstr_ofList]
    decide
  rw [metadataText,← List.append_assoc,hstart,lastMembers,hlast]
  simp only [List.cons_append,led_append]
  unfold led
  rw [leading_member_iff,leading_member_iff,leading_member_iff,leading_member_iff]
  all_goals exact lex_quote_ne _

/-- With the architecture `s` the metadata are JSON, or too long for the body and replaced by an
error. -/
def Describes (s : List UInt8) : Prop :=
  httpResponseBodySize ≤ s.length+102 ∨ ∃ v,Spells v (lastMembers s)

theorem metadataText_length (s : List UInt8) : (metadataText s).length=s.length+102 := by
  have hhead : (cstr
      "\x7b\"magic\":\"%c%c%c%c\",\"version\":71,\"tensor_count\":71,\"kv_count\":85,").length=65 := by
    rw [cstr_ofList]
    decide
  have harchitecture : (cstr "\"architecture\":\"").length=16 := by
    repeat rw [cstr_ofList]
    decide
  have hlast : (cstr "\",\"context_length\":3\x7d").length=21 := by
    repeat rw [cstr_ofList]
    decide
  simp only [metadataText,List.length_append,hhead,harchitecture,hlast]
  omega

theorem zero_not_mem_metadataText {s : List UInt8} (h : 0∉s) : 0∉metadataText s := by
  have hplain :
      0∉cstr "\x7b\"magic\":\"%c%c%c%c\",\"version\":71,\"tensor_count\":71,\"kv_count\":85," ∧
      0∉cstr "\"architecture\":\"" ∧ 0∉cstr "\",\"context_length\":3\x7d" := by
    repeat rw [cstr_ofList]
    decide
  simp only [metadataText,List.mem_append,not_or]
  exact ⟨hplain.1,hplain.2.1,h,hplain.2.2⟩

theorem spells_failed :
    ∃ v,Spells v (cstr "\x7b\"error\":\"failed to format metadata\"\x7d") := by
  have hplain : Plain (cstr "failed to format metadata") := by
    repeat rw [cstr_ofList]
    decide
  have herror := spells_error ⟨cstr "failed to format metadata",hplain⟩
  have htext : cstr "\x7b\"error\":\"failed to format metadata\"\x7d"=
      cstr "\x7b\"error\":"++((34::(cstr "failed to format metadata"++[34]))++cstr "\x7d") := by
    repeat rw [cstr_ofList]
    decide
  rwa [Name.literal_text,← htext] at herror

/-- The array holds the text, or the text is too long for it. -/
theorem jsonBody_handleModelMetadata (environment : Environment) (response : HttpResponse) :
    JsonBody (handleModelMetadata environment response) ↔ Describes (environment.memory 70).1 := by
  obtain ⟨hzero,hroom⟩ := (environment.memory 70).2
  have hformatted := formatted_metadata environment
  generalize (environment.memory 70).1=s at hzero hroom hformatted
  have hsize : httpResponseBodySize=16384 := rfl
  have hlen := metadataText_length s
  have hlength := @Buffer.snprintf_length _ metadataFormat
    (metadataArgs environment cGetModelMetadata) (okResponse response).body
  have hbytes := @Buffer.snprintf_bytes _ metadataFormat
    (metadataArgs environment cGetModelMetadata) (okResponse response).body
  rw [hformatted] at hlength hbytes
  unfold handleModelMetadata
  generalize hr : (okResponse response).body.snprintf metadataFormat
    (metadataArgs environment cGetModelMetadata)=r at hlength hbytes
  simp only [hr]
  rw [hlength (by omega)]
  by_cases hlong : httpResponseBodySize ≤ (metadataText s).length
  · rw [if_pos hlong]
    refine iff_of_true ?_ (Or.inl (by omega))
    apply jsonBody_setBody _ spells_failed
    rw [cstr_ofList]
    decide
  · rw [if_neg hlong,Describes,or_iff_right (by omega),← spells_metadataText]
    exact jsonBody_measureBody (hbytes (by omega) (by decide)) (zero_not_mem_metadataText hzero)

/-- The requests whose answer is JSON, by the routes as route_request tries them. -/
def AnswersJson (environment : Environment) (request : HttpRequest) : Prop :=
  if routed request (cstr "/v1/completions") 15 then
    ¬∃ req,Understood (parseCompletionRequest (φ := Binary32) Binary64)
      (fun req => req.prompt.bytes.headD 0=0) request req
  else if routed request (cstr "/v1/chat/completions") 20 then
    ¬∃ req,Understood (parseChatRequest (φ := Binary32) Binary64)
      (fun req => req.messages.1.length=0) request req
  else if routed request (cstr "/v1/embeddings") 14 then True
  else if routed request (cstr "/v1/models") 10 then isGetRequest request=false
  else if routed request (cstr "/tokenize") 9 then True
  else if routed request (cstr "/detokenize") 11 then True
  else if routed request (cstr "/health") 8 then True
  else if routed request (cstr "/model/metadata") 15 then Describes (environment.memory 70).1
  else True

theorem spells_notFound : ∃ v,Spells v (cstr "\x7b\"error\":\"not found\"\x7d") := by
  have hplain : Plain (cstr "not found") := by
    repeat rw [cstr_ofList]
    decide
  have herror := spells_error ⟨cstr "not found",hplain⟩
  have htext : cstr "\x7b\"error\":\"not found\"\x7d"=
      cstr "\x7b\"error\":"++((34::(cstr "not found"++[34]))++cstr "\x7d") := by
    repeat rw [cstr_ofList]
    decide
  rwa [Name.literal_text,← htext] at herror

theorem measureBody_metadata (environment : Environment) (response : HttpResponse) :
    measureBody (handleModelMetadata environment response)=
      handleModelMetadata environment response := by
  unfold handleModelMetadata
  generalize hr : (okResponse response).body.snprintf metadataFormat
    (metadataArgs environment cGetModelMetadata)=r
  simp only [hr]
  by_cases hlong : httpResponseBodySize ≤ r.2
  · rw [if_pos hlong,measureBody_measureBody]
  · rw [if_neg hlong,measureBody_measureBody]

theorem jsonBody_fixedBody (response : HttpResponse) {text : List UInt8}
    (hspells : ∃ v,Spells v text) (hlen : text.length < httpResponseBodySize) :
    JsonBody (measureBody (fixedBody response text)) := by
  rw [fixedBody,measureBody_measureBody]
  exact jsonBody_setBody _ hspells hlen

theorem fixedBodies_fit :
    (cstr "\x7b\"status\": \"ok\"\x7d").length < httpResponseBodySize ∧
    (cstr "\x7b\"status\": \"loading\", \"message\": \"Model loading not yet implemented\"\x7d"
      ).length < httpResponseBodySize ∧
    (cstr "\x7b\"status\": \"generating\", \"message\": \"Text completion not yet implemented\"\x7d"
      ).length < httpResponseBodySize ∧
    (cstr "\x7b\"error\":\"not found\"\x7d").length < httpResponseBodySize := by
  repeat rw [cstr_ofList]
  decide

/-- One route: what is asked of its answer, and what of the other routes. -/
theorem json_route {routed : Bool} {answer other : ApiContext × HttpResponse} {p q : Prop}
    (h : JsonBody answer.2 ↔ p) (ho : JsonBody other.2 ↔ q) :
    JsonBody (if routed then answer else other).2 ↔ if routed then p else q := by
  cases routed
  · exact ho
  · exact h

theorem routeRequest_json (environment : Environment) (context : ApiContext)
    (request : HttpRequest) (response : HttpResponse) :
    JsonBody (routeRequest environment context request response).2 ↔
      AnswersJson environment request := by
  obtain ⟨hok,hloading,hgenerating,hnotFound⟩ := fixedBodies_fit
  apply json_route (jsonBody_handleV1Completions ..)
  apply json_route (jsonBody_handleV1ChatCompletions ..)
  apply json_route (iff_of_true (jsonBody_handleV1Embeddings ..) trivial)
  apply json_route (jsonBody_handleV1Models ..)
  apply json_route (iff_of_true (jsonBody_handleTokenize ..) trivial)
  apply json_route (iff_of_true (jsonBody_handleDetokenize ..) trivial)
  apply json_route (iff_of_true (jsonBody_fixedBody _ spells_health hok) trivial)
  apply json_route
  · dsimp only
    rw [measureBody_metadata]
    apply jsonBody_handleModelMetadata
  refine iff_of_true ?_ trivial
  apply route_always JsonBody (jsonBody_fixedBody _ spells_loading hloading)
  apply route_always JsonBody (jsonBody_fixedBody _ spells_generating hgenerating)
  exact jsonBody_setBody _ spells_notFound hnotFound

theorem get_fits : (cstr "GET").length < 16 := by
  repeat rw [cstr_ofList]
  decide

theorem models_fits : (cstr "/v1/models").length < 256 := by
  repeat rw [cstr_ofList]
  decide

def modelsRequest : HttpRequest :=
  {HttpRequest.init with
    method := ⟨cstr "GET",get_fits⟩
    path := ⟨cstr "/v1/models",models_fits⟩}

theorem empty_stored :
    0∉([] : List UInt8) ∧ ([] : List UInt8).length+httpResponseBodySize ≤ 2^32 := by decide

/-- Every malloc succeeds and every address holds an empty string. -/
def bareEnvironment : Environment := ⟨fun _ => true,fun _ => ⟨[],empty_stored⟩,.float⟩

theorem models_not_json :
    ¬JsonBody (routeRequest bareEnvironment noModel modelsRequest blankResponse).2 := by
  have hroute : routeRequest bareEnvironment noModel modelsRequest blankResponse=
      handleV1Models noModel modelsRequest (setJsonHeaders blankResponse) := by
    have h1 : routed modelsRequest (cstr "/v1/completions") 15=false := by
      repeat rw [cstr_ofList]
      decide
    have h2 : routed modelsRequest (cstr "/v1/chat/completions") 20=false := by
      repeat rw [cstr_ofList]
      decide
    have h3 : routed modelsRequest (cstr "/v1/embeddings") 14=false := by
      repeat rw [cstr_ofList]
      decide
    have h4 : routed modelsRequest (cstr "/v1/models") 10=true := by
      repeat rw [cstr_ofList]
      decide
    unfold routeRequest
    simp only [h1,h2,h3,h4,if_true,Bool.false_eq_true,if_false]
  have hget : isGetRequest modelsRequest≠false := by decide
  rw [hroute,jsonBody_handleV1Models]
  exact hget

end Cllm.Api
