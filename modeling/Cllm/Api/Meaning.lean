import Cllm.Api.Entries

namespace Cllm.Api

open Libc Json Rfc8259

section Tables

variable (δ φ : Type) [Double δ φ]

def completionFields : List (Field δ fun _ : CompletionRequest φ => 0) :=
  [.string (cstr "prompt") _ maxPromptLength_pos (fun req v => {req with prompt := v}) fun _ _ => rfl,
   .string (cstr "model") _ maxModelIdLength_pos (fun req v => {req with model := v}) fun _ _ => rfl,
   .int (cstr "max_tokens") (fun req v => {req with maxTokens := clampTokens v}) fun _ _ => rfl,
   .float (cstr "temperature") (fun req v => {req with temperature := v}) fun _ _ => rfl,
   .float (cstr "top_p") (fun req v => {req with topP := v}) fun _ _ => rfl,
   .int (cstr "top_k") (fun req v => {req with topK := v}) fun _ _ => rfl,
   .float (cstr "frequency_penalty") (fun req v => {req with frequencyPenalty := v})
     fun _ _ => rfl,
   .float (cstr "presence_penalty") (fun req v => {req with presencePenalty := v})
     fun _ _ => rfl,
   .bool (cstr "stream") (fun req v => {req with stream := v}) fun _ _ => rfl,
   .int (cstr "seed") (fun req v => {req with seed := v}) fun _ _ => rfl,
   .bool (cstr "echo") (fun req v => {req with echo := v}) fun _ _ => rfl,
   .int (cstr "n") (fun req v => {req with n := v}) fun _ _ => rfl]

theorem completion_fitting : Fitting (completionFields δ φ) 64 :=
  fitting_of_names [cstr "prompt",cstr "model",cstr "max_tokens",
    cstr "temperature",cstr "top_p",cstr "top_k",cstr "frequency_penalty",
    cstr "presence_penalty",cstr "stream",cstr "seed",cstr "echo",cstr "n"] rfl
    (by decide)

def messageFields : List (Field δ fun _ : ChatMessage => 0) :=
  [.string (cstr "role") _ role_pos (fun msg v => {msg with role := v}) fun _ _ => rfl,
   .string (cstr "content") _ maxPromptLength_pos (fun msg v => {msg with content := v}) fun _ _ => rfl]

theorem message_fitting : Fitting (messageFields δ φ) 32 :=
  fitting_of_names [cstr "role",cstr "content"] rfl (by decide)

/-- A whole message is stored in the next place. -/
theorem messageElement_runs {ms : Members} {s rest : List UInt8} {p : Parser δ}
    {r : ChatCompletionRequest φ} {fuel : Nat} (ht : Typed (messageFields δ φ) ms)
    (h : ¬maxChatMessages ≤ messageCount r) (hs : Spaced (Value.object ms).texts s rest)
    (hp : Sees p s) (hf : 2*s.length+1 ≤ fuel) :
    ∃ q,messageElement fuel p r h=
      .ok (q,{r with
        messages := pushEntry r.messages (meaning (messageFields δ φ) ms .empty)
          (Nat.lt_of_not_le h)}) ∧ Sees q rest := by
  obtain ⟨hl,hms⟩ := lex_of_spaced (k := .lbrace) rfl hs
  have hlen := lex_length (s := s) (by rw [hl]; decide) (by rw [hl]; decide)
  have hf' : 2*(lex s).2.length+2 ≤ fuel := by omega
  have he : entries (messageFields δ φ) ms ≤ 0 := (entries_eq_zero rfl ms).le
  obtain ⟨q,s',hq,hs',hb,hrest⟩ := parseMembers_runs messageKey_pos
    (message_fitting δ φ) (by decide) ms (r := ChatMessage.empty) ht he hms
    (hp.next (by rw [hl]; decide)) hf'
  have hn := hs'.next (by rw [hb]; decide)
  rw [hrest] at hn
  refine ⟨jsonNextToken q,?_,hn⟩
  have hopen : ¬p.current≠.lbrace := not_not.mpr (hp.current.trans hl)
  have hclose : q.current=.rbrace := hs'.current.trans hb
  rw [messageElement,if_neg hopen]
  have hq' : parseMembers 32 messageKey_pos messageMembers fuel (jsonNextToken p) .empty=
    .ok (q,meaning (messageFields δ φ) ms .empty) := hq
  rw [hq']
  simp only [if_pos hclose]

/-- The objects of a `messages` array, each a message. -/
def messageEntry : Entry δ (messageCount : ChatCompletionRequest φ → Nat) maxChatMessages where
  element := messageElement
  admits v := ∃ ms,v=.object ms ∧ Typed (messageFields δ φ) ms
  meaning v req :=
    match v with
    | .object ms =>
      if h : req.messages.1.length < maxChatMessages then
        {req with messages := pushEntry req.messages (meaning (messageFields δ φ) ms .empty) h}
      else req
    | _ => req
  keep v :=
    match v with
    | .object ms => .object (known (messageFields δ φ) ms)
    | v => v
  runs := by
    intro v s rest r fuel p hv h hs _ hp hf
    obtain ⟨ms,rfl,ht⟩ := hv
    have hroom := Nat.lt_of_not_le h
    obtain ⟨q,hq,hn⟩ := messageElement_runs _ _ ht h hs hp hf
    refine ⟨q,?_,hn⟩
    simp only [hq,dif_pos hroom]
  blocking := by
    intro v s rest hv hs _
    obtain ⟨ms,rfl,-⟩ := hv
    rw [(lex_of_spaced (k := .lbrace) rfl hs).1]
    decide
  count_meaning := by
    intro v req hv h
    obtain ⟨ms,rfl,-⟩ := hv
    have hroom := Nat.lt_of_not_le h
    simp only [dif_pos hroom]
    exact length_pushEntry _ _ hroom
  keep_same := by
    intro v hv
    obtain ⟨ms,rfl,ht⟩ := hv
    have hk := known_same ms ht
    refine ⟨⟨_,rfl,hk.1⟩,fun req => ?_⟩
    simp only [hk.2.2]

/-- The numbers of a `tokens` array. -/
def tokenEntry : Entry δ tokenCount maxTokens where
  element := tokenElement
  admits v := ∃ n,v=.number n
  meaning v req :=
    match v with
    | .number n =>
      if h : req.tokens.1.length < maxTokens then
        {tokens := pushEntry req.tokens (Double.toInt (numberValue n.text : δ)) h}
      else req
    | _ => req
  keep v := v
  runs := by
    intro v s rest r fuel p hv h hs hr hp _
    obtain ⟨n,rfl⟩ := hv
    obtain ⟨hc,hb,hn⟩ := Field.sees_numeral hs hr hp
    have hroom := Nat.lt_of_not_le h
    refine ⟨jsonNextToken p,?_,hn⟩
    rw [tokenElement,jsonParseInt,if_pos hc,hb]
    simp only [dif_pos hroom]
  blocking := by
    intro v s rest hv hs hr
    obtain ⟨n,rfl⟩ := hv
    obtain ⟨w,s',hw,rfl,rfl⟩ := hs
    have hl : (lex (w++(n.text++s'))).1=.number := congrArg Prod.fst (lex_numeral hw n hr)
    rw [hl]
    decide
  count_meaning := by
    intro v req hv h
    obtain ⟨n,rfl⟩ := hv
    have hroom := Nat.lt_of_not_le h
    simp only [dif_pos hroom]
    exact length_pushEntry _ _ hroom
  keep_same hv := ⟨hv,fun _ => rfl⟩

def chatFields : List (Field δ fun req : ChatCompletionRequest φ =>
    maxChatMessages-messageCount req) :=
  [.array (cstr "messages") (messageEntry δ φ),
   .string (cstr "model") _ maxModelIdLength_pos (fun req v => {req with model := v}) fun _ _ => rfl,
   .int (cstr "max_tokens") (fun req v => {req with maxTokens := clampTokens v}) fun _ _ => rfl,
   .float (cstr "temperature") (fun req v => {req with temperature := v}) fun _ _ => rfl,
   .float (cstr "top_p") (fun req v => {req with topP := v}) fun _ _ => rfl,
   .bool (cstr "stream") (fun req v => {req with stream := v}) fun _ _ => rfl]

theorem chat_fitting : Fitting (chatFields δ φ) 64 :=
  fitting_of_names [cstr "messages",cstr "model",cstr "max_tokens",
    cstr "temperature",cstr "top_p",cstr "stream"] rfl
    (by decide)

def tokenizeFields : List (Field δ fun _ : TokenizeRequest => 0) :=
  [.string (cstr "content") _ maxPromptLength_pos (fun req v => {req with content := v}) fun _ _ => rfl,
   .bool (cstr "add_special") (fun req v => {req with addSpecial := v}) fun _ _ => rfl]

theorem tokenize_fitting : Fitting (tokenizeFields δ φ) 64 :=
  fitting_of_names [cstr "content",cstr "add_special"] rfl
    (by decide)

def detokenizeFields : List (Field δ fun req => maxTokens-tokenCount req) :=
  [.array (cstr "tokens") (tokenEntry δ φ)]

theorem detokenize_fitting : Fitting (detokenizeFields δ φ) 64 :=
  fitting_of_names [cstr "tokens"] rfl
    (by decide)

def embeddingFields : List (Field δ fun _ : EmbeddingRequest => 0) :=
  [.string (cstr "input") _ maxPromptLength_pos (fun req v => {req with input := v}) fun _ _ => rfl,
   .string (cstr "model") _ maxModelIdLength_pos (fun req v => {req with model := v}) fun _ _ => rfl]

theorem embedding_fitting : Fitting (embeddingFields δ φ) 64 :=
  fitting_of_names [cstr "input",cstr "model"] rfl
    (by decide)

end Tables

section Meaning

variable {δ φ : Type} [Double δ φ] {ms : Members} {body : List UInt8}
  (hb : Spells (.object ms) body)

include hb

theorem parseCompletionRequest_meaning
    (ht : Typed (completionFields δ φ) ms) :
    parseCompletionRequest δ body body.length=
      .ok (meaning (completionFields δ φ) ms (.init δ)) :=
  parseRequest_runs (completion_fitting δ φ) hb ht (entries_eq_zero rfl ms).le

theorem parseTokenizeRequest_meaning (ht : Typed (tokenizeFields δ φ) ms) :
    parseTokenizeRequest δ body body.length=
      .ok (meaning (tokenizeFields δ φ) ms .init) :=
  parseRequest_runs (tokenize_fitting δ φ) hb ht (entries_eq_zero rfl ms).le

theorem parseEmbeddingRequest_meaning (ht : Typed (embeddingFields δ φ) ms) :
    parseEmbeddingRequest δ body body.length=
      .ok (meaning (embeddingFields δ φ) ms .init) :=
  parseRequest_runs (embedding_fitting δ φ) hb ht (entries_eq_zero rfl ms).le

theorem parseChatRequest_meaning (ht : Typed (chatFields δ φ) ms)
    (he : entries (chatFields δ φ) ms ≤ maxChatMessages) :
    parseChatRequest δ body body.length=
      .ok (meaning (chatFields δ φ) ms (.init δ)) :=
  parseRequest_runs (chat_fitting δ φ) hb ht he

theorem parseDetokenizeRequest_meaning (ht : Typed (detokenizeFields δ φ) ms)
    (he : entries (detokenizeFields δ φ) ms ≤ maxTokens) :
    parseDetokenizeRequest δ body body.length=
      .ok (meaning (detokenizeFields δ φ) ms .init) :=
  parseRequest_runs (detokenize_fitting δ φ) hb ht he

/-- More messages than the request has room for. -/
theorem parseChatRequest_overflows (ht : Typed (chatFields δ φ) ms)
    (he : maxChatMessages<entries (chatFields δ φ) ms) :
    (parseChatRequest δ body body.length : Except Fault (ChatCompletionRequest φ))=
      .error .invalid :=
  parseRequest_overflows (chat_fitting δ φ) hb ht he

end Meaning

end Cllm.Api
