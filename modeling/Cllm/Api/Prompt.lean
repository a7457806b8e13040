import Cllm.Api.Metadata
import Cllm.Libc.StringStores

namespace Cllm.Api

open Libc Http Json Ieee754 Rfc8259 ByteMemory

/-- The loop over the messages, on the array at `dst`. -/
def joinStores (m : Memory) (dst : Nat) : List ChatMessage → List (Nat × UInt8)
  | [] => []
  | [message] => (strcatStores m dst maxPromptLength message.content.bytes).1
  | message::messages =>
    let content := (strcatStores m dst maxPromptLength message.content.bytes).1
    let m := storeBytes m content
    let separator := (strcatStores m dst maxPromptLength (cstr "\n")).1
    content++separator++joinStores (storeBytes m separator) dst messages

/-- char prompt[MAX_PROMPT_LENGTH] = "", which clears all of it. -/
def clearStores (dst : Nat) : List (Nat × UInt8) :=
  byteStores dst (List.replicate maxPromptLength 0)

def promptStores (m : Memory) (dst : Nat) (messages : List ChatMessage) : List (Nat × UInt8) :=
  clearStores dst++joinStores (storeBytes m (clearStores dst)) dst messages

/-- The contents of the messages, joined with line feeds. -/
def joined (messages : List ChatMessage) : List UInt8 :=
  List.intercalate [lf] (messages.map fun message => cut message.content.bytes)

variable {n : Nat} {f : CField n} {m : Memory} {dst : Nat}

/-- An append to the first bytes of a text gives the first bytes of the longer text. -/
theorem safeStrcat_take {text : List UInt8} (hf : f.bytes=text.take (n-1)) (hclean : 0∉text)
    (src : List UInt8) : (safeStrcat f src).bytes=(text++cut src).take (n-1) := by
  have hcut : cut f.bytes=text.take (n-1) := by
    rw [hf]
    exact cut_of_not_mem fun h => hclean (List.mem_of_mem_take h)
  have hroom : n-(text.take (n-1)).length-1=n-1-text.length := by
    rw [List.length_take]
    omega
  change cut f.bytes++(cut src).take (n-(cut f.bytes).length-1)=_
  rw [hcut,hroom,List.take_append]

theorem zero_not_mem_append_cut {text : List UInt8} (h : 0∉text) (src : List UInt8) :
    0∉text++cut src := by
  rw [List.mem_append,not_or]
  exact ⟨h,zero_not_mem_cut src⟩

theorem cut_newline : cut (cstr "\n")=[lf] := by
  rw [cstr_ofList]
  decide

theorem joinMessages_take {prompt : CField maxPromptLength} {text : List UInt8}
    (hprompt : prompt.bytes=text.take (maxPromptLength-1)) (hclean : 0∉text)
    (messages : List ChatMessage) :
    (joinMessages prompt messages).bytes=(text++joined messages).take (maxPromptLength-1) := by
  induction messages generalizing prompt text with
  | nil =>
    rw [joined,List.map_nil,List.intercalate_nil,List.append_nil]
    exact hprompt
  | cons message messages ih =>
    have hcontent := safeStrcat_take hprompt hclean message.content.bytes
    have hclean' := zero_not_mem_append_cut hclean message.content.bytes
    cases messages with
    | nil =>
      rw [joined,List.map_singleton,List.intercalate_singleton]
      exact hcontent
    | cons next messages =>
      have hnewline := safeStrcat_take hcontent hclean' (cstr "\n")
      have hrest := ih hnewline (zero_not_mem_append_cut hclean' _)
      rw [joinMessages,hrest,cut_newline]
      · simp only [joined,List.map_cons,List.intercalate_cons_cons,List.append_assoc]
      · simp

theorem joinStores_stands {prompt : CField maxPromptLength} (h : Stands m dst prompt)
    (messages : List ChatMessage) :
    Stands (storeBytes m (joinStores m dst messages)) dst (joinMessages prompt messages) ∧
      ∀ k∈joinStores m dst messages,dst ≤ k.1 ∧ k.1 < dst+maxPromptLength := by
  induction messages generalizing prompt m with
  | nil => exact ⟨h,by simp [joinStores]⟩
  | cons message messages ih =>
    obtain ⟨hcontent,hbounds,-⟩ := h.strcat message.content.bytes
    cases messages with
    | nil => exact ⟨hcontent,hbounds⟩
    | cons next messages =>
      obtain ⟨hnewline,hbounds',-⟩ := hcontent.strcat (cstr "\n")
      obtain ⟨hrest,hbounds''⟩ := ih hnewline
      rw [joinStores,joinMessages]
      · rw [storeBytes_append,storeBytes_append]
        refine ⟨hrest,?_⟩
        rw [List.forall_mem_append,List.forall_mem_append]
        exact ⟨⟨hbounds,hbounds'⟩,hbounds''⟩
      · simp
      · simp

theorem clearStores_stands (m : Memory) (dst : Nat) :
    Stands (storeBytes m (clearStores dst)) dst (.empty maxPromptLength maxPromptLength_pos) := by
  refine ⟨?_,?_,List.not_mem_nil⟩
  · intro i hi
    cases hi
  · have hlen : 0 < (List.replicate maxPromptLength (0 : UInt8)).length := by
      rw [List.length_replicate]
      exact maxPromptLength_pos
    have hfirst := @storeBytes_byteStores m (List.replicate maxPromptLength 0) dst 0 hlen
    rw [List.getElem?_replicate_of_lt maxPromptLength_pos] at hfirst
    exact Option.some.inj hfirst

theorem promptStores_stands (m : Memory) (dst : Nat) (messages : List ChatMessage) :
    Stands (storeBytes m (promptStores m dst messages)) dst
        (joinMessages (.empty _ maxPromptLength_pos) messages) ∧
      ∀ k∈promptStores m dst messages,dst ≤ k.1 ∧ k.1 < dst+maxPromptLength := by
  obtain ⟨hstands,hbounds⟩ := joinStores_stands (clearStores_stands m dst) messages
  rw [promptStores,storeBytes_append,List.forall_mem_append]
  refine ⟨hstands,?_,hbounds⟩
  intro k hk
  have hclear := byteStores_bounds k hk
  rwa [List.length_replicate] at hclear

theorem joinMessages_bytes (messages : List ChatMessage) :
    (joinMessages (.empty _ maxPromptLength_pos) messages).bytes=
      (joined messages).take (maxPromptLength-1) :=
  @joinMessages_take _ [] List.take_nil.symm List.not_mem_nil messages

/-- The prompt of a chat request that is understood is the first bytes of its messages, joined, and
from these it is answered; the stores stay inside the prompt and leave them there with a NUL
behind. -/
theorem handleV1ChatCompletions_prompt (environment : Environment) {context : ApiContext}
    {request : HttpRequest} {req : ChatCompletionRequest Binary32}
    (hreq : Understood (parseChatRequest (φ := Binary32) Binary64)
      (fun req => req.messages.1.length=0) request req) (hctx : context.llmCtx=true)
    (response : HttpResponse) (m : Memory) (dst : Nat) :
    let prompt := (joined req.messages.1).take (maxPromptLength-1)
    let ks := promptStores m dst req.messages.1
    let id := generateRequestId context (cstr "chatcmpl")
    (joinMessages (.empty _ maxPromptLength_pos) req.messages.1).bytes=prompt ∧
      (∃ promptTokens,handleV1ChatCompletions environment context request response=
        (id.1,writeBody (okResponse response) (chatCalls id.1 id.2
          (generatedText environment.mallocs prompt req.maxTokens) promptTokens))) ∧
      (∀ k∈ks,dst ≤ k.1 ∧ k.1 < dst+maxPromptLength) ∧
      (∀ i < prompt.length,some (storeBytes m ks (dst+i))=prompt[i]?) ∧
      storeBytes m ks (dst+prompt.length)=0 ∧ 0∉prompt := by
  intro prompt ks id
  obtain ⟨hstands,hbounds⟩ := promptStores_stands m dst req.messages.1
  have hbytes : (joinMessages (.empty _ maxPromptLength_pos) req.messages.1).bytes=prompt :=
    joinMessages_bytes req.messages.1
  refine ⟨hbytes,?_,hbounds,?_,?_,?_⟩
  · rw [handleV1ChatCompletions,handlePost_understood hreq]
    simp only [hctx,if_true,hbytes]
    exact ⟨_,rfl⟩
  · rw [← hbytes]
    exact hstands.text
  · rw [← hbytes]
    exact hstands.nul
  · rw [← hbytes]
    exact hstands.clean

/-- Two greetings. -/
def greetings : Members :=
  .cons messagesName
    (.array (.cons (.object greetingMembers) (.cons (.object greetingMembers) .nil))) .nil

theorem greetings_typed : Typed (chatFields Binary64 Binary32) greetings := by
  refine typed_cons _ rfl ?_ trivial
  intro g hg
  injection hg with hg
  subst hg
  refine ⟨_,rfl,?_⟩
  intro v hv
  obtain rfl : v=.object greetingMembers := by
    simpa [Elements.toList] using hv
  exact ⟨_,rfl,typed_string rfl rfl⟩

theorem greetings_fits : (Value.object greetings).texts.flatten.length < httpRequestBodySize := by
  decide

theorem greetings_understood :
    Understood (parseChatRequest (φ := Binary32) Binary64) (fun req => req.messages.1.length=0)
      (postRequest _ greetings_fits)
      (meaning (chatFields Binary64 Binary32) greetings (.init Binary64)) := by
  have hroom : entries (chatFields Binary64 Binary32) greetings ≤ maxChatMessages := by decide
  have hmessages :
      (meaning (chatFields Binary64 Binary32) greetings (.init Binary64)).messages.1=_ :=
    messages_meaning greetings greetings_typed hroom
  apply understood_of_posts (posts_postRequest _ greetings_fits) (by decide)
    (parseChatRequest_meaning (spells_flatten _) greetings_typed hroom)
  rw [hmessages]
  rfl

theorem greetings_prompt :
    let context : ApiContext := ⟨true,0,0⟩
    let req := meaning (chatFields Binary64 Binary32) greetings (.init Binary64)
    let prompt := (joined req.messages.1).take (maxPromptLength-1)
    let ks := promptStores (fun _ => 255) 4096 req.messages.1
    let id := generateRequestId context (cstr "chatcmpl")
    (joinMessages (.empty _ maxPromptLength_pos) req.messages.1).bytes=prompt ∧
      (∃ promptTokens,handleV1ChatCompletions bareEnvironment context
        (postRequest _ greetings_fits) blankResponse=
        (id.1,writeBody (okResponse blankResponse) (chatCalls id.1 id.2
          (generatedText bareEnvironment.mallocs prompt req.maxTokens) promptTokens))) ∧
      (∀ k∈ks,4096 ≤ k.1 ∧ k.1 < 4096+maxPromptLength) ∧
      (∀ i < prompt.length,some (storeBytes (fun _ => 255) ks (4096+i))=prompt[i]?) ∧
      storeBytes (fun _ => 255) ks (4096+prompt.length)=0 ∧ 0∉prompt :=
  handleV1ChatCompletions_prompt bareEnvironment greetings_understood rfl blankResponse _ 4096

end Cllm.Api
