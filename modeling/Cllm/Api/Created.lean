import Cllm.Api.Responses
import Cllm.Libc.Format

namespace Cllm.Api

open Libc Json Http Rfc8259 Ieee754

section Tidy

variable {size : Nat}

/-- With room for `n` bytes and more, the call puts out that many at most, and they leave the
outside of the strings as it is. -/
def Tidy (n : Nat) (f : Call size) : Prop := ∀ w : Writer size,w.offset+n < size →
  ∃ t,(f w).1.text=w.text++t ∧ Closed t ∧ t.length ≤ n

variable {n : Nat} {f : Call size}

theorem tidy_of_appends (h : ∀ w : Writer size,∃ t b,Appends f w t b ∧ Closed t ∧ t.length ≤ n) :
    Tidy n f := by
  intro w hroom
  obtain ⟨t,b,happends,hclosed,hlen⟩ := h w
  have hok := happends.fits (by omega)
  exact ⟨t,happends.text hok,hclosed,hlen⟩

theorem tidy_all {fs : List (Call size)} (h : ∀ f∈fs,Tidy n f) : Tidy (n*fs.length) (all fs) := by
  induction fs with
  | nil =>
    intro w _
    exact ⟨[],(List.append_nil _).symm,rfl,Nat.zero_le _⟩
  | cons f fs ih =>
    rw [List.forall_mem_cons] at h
    intro w hroom
    rw [List.length_cons,Nat.mul_succ] at hroom ⊢
    obtain ⟨t,htext,ht,hlen⟩ := h.1 w (by omega)
    have hoffset : (f w).1.offset=w.offset+t.length := by
      rw [← Writer.length_text,htext,List.length_append,Writer.length_text]
    obtain ⟨u,hutext,hu,hulen⟩ := ih h.2 (f w).1 (by omega)
    refine ⟨t++u,?_,ht.append hu,?_⟩
    · rw [all_cons,hutext,htext,List.append_assoc]
    · rw [List.length_append]
      omega

theorem closed_comma (b : Bool) : Closed (comma b) := by
  cases b <;> decide

/-- The opening of an object or an array. -/
theorem tidy_start {s : List UInt8} {c : UInt8} (hs : (cut s).take 1=[c]) (hc : Closed [c])
    (hn : 2 ≤ n) :
    Tidy n (attempt [maybeComma,writeRaw s 1,setComma false,addDepth 1] : Call size) := by
  apply tidy_of_appends
  intro w
  have hlen := comma_length w.needsComma
  refine ⟨_,_,appends_start hs w,(closed_comma _).append hc,?_⟩
  rw [List.length_append,List.length_singleton]
  omega

theorem tidy_objectStart (hn : 2 ≤ n) : Tidy n (jsonWriteObjectStart : Call size) :=
  tidy_start (by decide : (cut (cstr "\x7b")).take 1=[123]) (by decide) hn

theorem tidy_arrayStart (hn : 2 ≤ n) : Tidy n (jsonWriteArrayStart : Call size) :=
  tidy_start (by decide : (cut (cstr "[")).take 1=[91]) (by decide) hn

theorem tidy_key {key : List UInt8} (hkey : Plain key) (hn : key.length+4 ≤ n) :
    Tidy n (jsonWriteKey key : Call size) := by
  apply tidy_of_appends
  intro w
  have hlen := comma_length w.needsComma
  have hname : (Name.literal ⟨key,hkey⟩).text.length=key.length+2 := Name.length_text ⟨key,hkey⟩
  refine ⟨_,_,appends_name ⟨key,hkey⟩ w,?_,?_⟩
  · exact (closed_comma _).append ((Literal.closed _).append (by decide))
  · simp only [List.length_append,hname,List.length_singleton]
    omega

theorem tidy_kvString {key : List UInt8} (hkey : Plain key) {value : List UInt8}
    (hn : key.length+2*value.length+6 ≤ n) : Tidy n (jsonWriteKvString key value : Call size) := by
  apply tidy_of_appends
  intro w
  have hlen := comma_length w.needsComma
  have hname : (Name.literal ⟨key,hkey⟩).text.length=key.length+2 := Name.length_text ⟨key,hkey⟩
  have hescaped := escapedText_length (cut value)
  have hcut := cut_length value
  have hvalue : (@Item.string size value).value.texts.flatten=(stringLiteral (cut value)).text :=
    List.append_nil _
  refine ⟨_,_,appends_kv ⟨key,hkey⟩ (.string value) w,?_,?_⟩
  · rw [hvalue]
    exact (closed_comma _).append ((Literal.closed _).append
      ((by decide : Closed [58]).append (Literal.closed _)))
  · rw [hvalue]
    simp only [List.length_append,List.length_cons,hname]
    rw [Literal.text,stringLiteral_inner,List.length_cons,List.length_append,List.length_singleton]
    omega

/-- The member with the date breaks what it follows. -/
theorem appends_created (time : Int64) (w : Writer size) :
    Appends (jsonWriteKvInt64 (cstr "created") time) w
      (comma w.needsComma++cstr "\"created\":%lld") true := by
  have hlate : ∀ w₁ : Writer size,w₁.needsComma=false →
      Appends (attempt [jsonWriteInt64 time]) w₁ (cstr "%lld") true := by
    intro w₁ hw₁
    have hvalue := (writes_int64 time w₁).attempt fun w₂ hw₂ => hw₂ ▸ appends_attempt_nil w₂
    apply hvalue.of_eq
    simp [hw₁,comma]
  apply ((appends_key (cstr "created") w).attempt hlate).of_eq
  rw [List.append_assoc]
  rfl

end Tidy

theorem created_broken (b : Bool) :
    Place.outside.after (comma b++cstr "\"created\":%lld")=.broken := by
  cases b <;> decide

/-- An answer with a date in it is not JSON. -/
theorem not_jsonBody_created (response : HttpResponse) {n : Nat}
    {pre post : List (Call httpResponseBodySize)} {time : Int64}
    (hpre : ∀ f∈pre,Tidy n f) (hroom : n*pre.length+17 < httpResponseBodySize)
    (hpost : ∀ f∈post,Grows f) :
    ¬JsonBody (writeBody response (pre++jsonWriteKvInt64 (cstr "created") time::post)) := by
  intro hjson
  have hzero : (jsonWriterInit response.body).offset=0 := rfl
  obtain ⟨t,htext,ht,hlen⟩ := tidy_all hpre (jsonWriterInit response.body) (by omega)
  have hstart : (jsonWriterInit response.body).text=[] := rfl
  rw [hstart,List.nil_append] at htext
  generalize hw : (all pre (jsonWriterInit response.body)).1=w at htext
  have hcreated := appends_created time w
  have hcomma := comma_length w.needsComma
  have hoffset : w.offset=t.length := by rw [← Writer.length_text,htext]
  have hmember : (cstr "\"created\":%lld").length=14 := by
    repeat rw [cstr_ofList]
    decide
  have hok := hcreated.fits (by rw [List.length_append,hmember]; omega)
  have hbroken := hcreated.text hok
  obtain ⟨u,hu⟩ := (grows_all hpost (jsonWriteKvInt64 (cstr "created") time w).1).text
  have hbody : bodyText (writeBody response (pre++jsonWriteKvInt64 (cstr "created") time::post))=
      (t++(comma w.needsComma++cstr "\"created\":%lld"))++u := by
    change (all (pre++_::post) (jsonWriterInit response.body)).1.text=_
    rw [all_append,hw,all_cons,← hu,hbroken,htext]
  have hplace :
      Place.outside.after (t++(comma w.needsComma++cstr "\"created\":%lld"))=.broken := by
    rw [Place.after_append,ht,created_broken]
  have hspells := hjson.spells
  rw [hbody] at hspells
  exact not_spells_of_broken hplace u hspells

theorem datedNames_plain : Plain (cstr "id") ∧ Plain (cstr "object") ∧ Plain (cstr "data") := by
  repeat rw [cstr_ofList]
  decide

theorem datedNames_length : (cstr "id").length=2 ∧ (cstr "object").length=6 ∧
    (cstr "data").length=4 := by
  repeat rw [cstr_ofList]
  decide

theorem generateRequestId_length (context : ApiContext) (pre : List UInt8) :
    (generateRequestId context pre).2.length ≤ 64 := by
  apply (cut_length _).trans
  exact (Buffer.size _).le

/-- The members in front of the date of a completion. -/
theorem tidy_heading {id object : List UInt8} (hid : id.length ≤ 64)
    (hobject : object.length ≤ 64) :
    ∀ f∈[jsonWriteObjectStart,jsonWriteKvString (cstr "id") id,
      jsonWriteKvString (cstr "object") object],@Tidy httpResponseBodySize 140 f := by
  obtain ⟨hidPlain,hobjectPlain,-⟩ := datedNames_plain
  obtain ⟨hidLength,hobjectLength,-⟩ := datedNames_length
  intro f hf
  simp only [List.mem_cons,List.not_mem_nil,or_false] at hf
  obtain rfl | rfl | rfl := hf
  · exact tidy_objectStart (by decide)
  · apply tidy_kvString hidPlain
    omega
  · apply tidy_kvString hobjectPlain
    omega

theorem not_jsonBody_completion (response : HttpResponse) (context : ApiContext)
    {id : List UInt8} (hid : id.length ≤ 64) (text : List UInt8) (nTokens : Int32) :
    ¬JsonBody (writeBody response (completionCalls context id text nTokens)) := by
  have hobject : (cstr "text_completion").length ≤ 64 := by
    repeat rw [cstr_ofList]
    decide
  apply not_jsonBody_created response (tidy_heading hid hobject)
  · change 140*3+17 < 16384
    decide
  · simp

theorem not_jsonBody_chat (response : HttpResponse) (context : ApiContext)
    {id : List UInt8} (hid : id.length ≤ 64) (text : List UInt8) (promptTokens : Int32) :
    ¬JsonBody (writeBody response (chatCalls context id text promptTokens)) := by
  have hobject : (cstr "chat.completion").length ≤ 64 := by
    repeat rw [cstr_ofList]
    decide
  apply not_jsonBody_created response (tidy_heading hid hobject)
  · change 140*3+17 < 16384
    decide
  · simp

theorem not_jsonBody_models (response : HttpResponse) (context : ApiContext) :
    ¬JsonBody (writeBody response (modelCalls context)) := by
  obtain ⟨hid,hobject,hdata⟩ := datedNames_plain
  obtain ⟨hidLength,hobjectLength,hdataLength⟩ := datedNames_length
  have hstrings : (cstr "list").length=4 ∧ modelId.length=14 ∧ (cstr "model").length=5 := by
    repeat rw [cstr_ofList]
    decide
  have hpre : ∀ f∈[jsonWriteObjectStart,jsonWriteKvString (cstr "object") (cstr "list"),
      jsonWriteKey (cstr "data"),jsonWriteArrayStart,jsonWriteObjectStart,
      jsonWriteKvString (cstr "id") modelId,jsonWriteKvString (cstr "object") (cstr "model")],
      @Tidy httpResponseBodySize 140 f := by
    intro f hf
    simp only [List.mem_cons,List.not_mem_nil,or_false] at hf
    obtain rfl | rfl | rfl | rfl | rfl | rfl | rfl := hf
    · exact tidy_objectStart (by decide)
    · apply tidy_kvString hobject
      omega
    · apply tidy_key hdata
      omega
    · exact tidy_arrayStart (by decide)
    · exact tidy_objectStart (by decide)
    · apply tidy_kvString hid
      omega
    · apply tidy_kvString hobject
      omega
  apply not_jsonBody_created response hpre
  · change 140*7+17 < 16384
    decide
  · simp

section Handlers

variable (environment : Environment) (context : ApiContext) (request : HttpRequest)
  (response : HttpResponse)

theorem jsonBody_handleV1Completions :
    JsonBody (handleV1Completions environment context request response).2 ↔
      ¬∃ req,Understood (parseCompletionRequest (φ := Binary32) Binary64)
        (fun req => req.prompt.bytes.headD 0=0) request req := by
  apply jsonBody_handlePost_iff (by simp [requiredFields])
  intro req context response
  apply not_jsonBody_completion
  exact generateRequestId_length context (cstr "cmpl")

theorem jsonBody_handleV1ChatCompletions :
    JsonBody (handleV1ChatCompletions environment context request response).2 ↔
      ¬∃ req,Understood (parseChatRequest (φ := Binary32) Binary64)
        (fun req => req.messages.1.length=0) request req := by
  apply jsonBody_handlePost_iff (by simp [requiredFields])
  intro req context response
  apply not_jsonBody_chat
  exact generateRequestId_length context (cstr "chatcmpl")

theorem jsonBody_handleV1Models :
    JsonBody (handleV1Models context request response).2 ↔ isGetRequest request=false := by
  unfold handleV1Models
  by_cases hget : isGetRequest request=false
  · rw [if_pos hget]
    have hfield : cstr "prompt"∈requiredFields := by simp [requiredFields]
    have he : (cstr "Method not allowed",[],cstr "method_not_allowed")∈errors (cstr "prompt") := by
      simp [errors]
    have hjson := jsonBody_invalidRequest response 405 hfield he
    dsimp only at hjson ⊢
    exact iff_of_true hjson hget
  · rw [if_neg hget]
    exact iff_of_false (not_jsonBody_models _ context) hget

end Handlers

end Cllm.Api
