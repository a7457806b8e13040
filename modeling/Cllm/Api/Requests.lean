import Cllm.Json.Parser

namespace Cllm.Api

open Libc Json

abbrev maxPromptLength : Nat := 4096
abbrev maxTokens : Nat := 2048
abbrev maxChatMessages : Nat := 32
abbrev maxModelIdLength : Nat := 64
abbrev maxGenerationTokens : Int32 := 512

theorem maxPromptLength_pos : 0 < maxPromptLength := by decide

theorem maxModelIdLength_pos : 0 < maxModelIdLength := by decide

theorem role_pos : 0<16 := by decide

theorem key_pos : 0<64 := by decide

theorem messageKey_pos : 0<32 := by decide

structure CompletionRequest (φ : Type) where
  prompt : CField maxPromptLength
  model : CField maxModelIdLength
  maxTokens : Int32
  temperature : φ
  topP : φ
  topK : Int32
  frequencyPenalty : φ
  presencePenalty : φ
  stopCount : Int32
  stream : Bool
  seed : Int32
  echo : Bool
  n : Int32

structure ChatMessage where
  role : CField 16
  content : CField maxPromptLength
  deriving DecidableEq

/-- The first message_count entries of the array `messages`. -/
abbrev Messages := {l : List ChatMessage // l.length ≤ maxChatMessages}

structure ChatCompletionRequest (φ : Type) where
  messages : Messages
  model : CField maxModelIdLength
  maxTokens : Int32
  temperature : φ
  topP : φ
  topK : Int32
  frequencyPenalty : φ
  presencePenalty : φ
  stopCount : Int32
  stream : Bool
  seed : Int32
  n : Int32

structure EmbeddingRequest where
  input : CField maxPromptLength
  model : CField maxModelIdLength

structure TokenizeRequest where
  content : CField maxPromptLength
  addSpecial : Bool

/-- The first token_count entries of the array `tokens`. -/
structure DetokenizeRequest where
  tokens : {l : List Int32 // l.length ≤ maxTokens}

section Init

variable (δ : Type) {φ : Type} [Double δ φ]

def CompletionRequest.init : CompletionRequest φ where
  prompt := .empty _ maxPromptLength_pos
  model := .empty _ maxModelIdLength_pos
  maxTokens := 64
  temperature := Double.decimal δ 8 1
  topP := Double.decimal δ 95 2
  topK := 40
  frequencyPenalty := Double.decimal δ 0 1
  presencePenalty := Double.decimal δ 0 1
  stopCount := 0
  stream := false
  seed := -1
  echo := false
  n := 1

def ChatCompletionRequest.init : ChatCompletionRequest φ where
  messages := ⟨[],Nat.zero_le _⟩
  model := .empty _ maxModelIdLength_pos
  maxTokens := 64
  temperature := Double.decimal δ 8 1
  topP := Double.decimal δ 95 2
  topK := 40
  frequencyPenalty := Double.decimal δ 0 1
  presencePenalty := Double.decimal δ 0 1
  stopCount := 0
  stream := false
  seed := -1
  n := 1

end Init

def ChatMessage.empty : ChatMessage where
  role := .empty _ role_pos
  content := .empty _ maxPromptLength_pos

def EmbeddingRequest.init : EmbeddingRequest where
  input := .empty _ maxPromptLength_pos
  model := .empty _ maxModelIdLength_pos

def TokenizeRequest.init : TokenizeRequest where
  content := .empty _ maxPromptLength_pos
  addSpecial := true

def DetokenizeRequest.init : DetokenizeRequest where
  tokens := ⟨[],Nat.zero_le _⟩

/-- One entry more, while the array has room. -/
def pushEntry {α : Type} {n : Nat} (l : {l : List α // l.length≤n}) (a : α)
    (h : l.1.length<n) : {l : List α // l.length≤n} :=
  ⟨l.1++[a],by rw [List.length_append,List.length_singleton]; exact h⟩

variable {δ φ R : Type} [Double δ φ]

/-- What a request parser does with the value of a member. -/
abbrev Handler (δ R : Type) := (fuel : Nat) → Parser δ → R → Except Fault (Parser δ × R)

def skippedMember : Handler δ R := fun fuel p r =>
  match jsonSkipValue fuel p with
  | .error e => .error e
  | .ok p => .ok (p,r)

def stringMember (size : Nat) (h : 0 < size) (set : R → CField size → R) : Handler δ R :=
  fun _ p r =>
    match jsonParseString size h p with
    | .error e => .error e
    | .ok (v,p) => .ok (p,set r v)

/-- double v; ...; req->field = (float)v -/
def floatMember (set : R → φ → R) : Handler δ R := fun _ p r =>
  match jsonParseNumber p with
  | .error e => .error e
  | .ok (v,p) => .ok (p,set r (Double.toFloat v))

def intMember (set : R → Int32 → R) : Handler δ R := fun _ p r =>
  match jsonParseInt p with
  | .error e => .error e
  | .ok (v,p) => .ok (p,set r v)

def boolMember (set : R → Bool → R) : Handler δ R := fun _ p r =>
  match jsonParseBool p with
  | .error e => .error e
  | .ok (v,p) => .ok (p,set r v)

/-- The chain: the first name that the key equals, and json_skip_value behind the last. -/
def dispatch : List (List UInt8 × Handler δ R) → (key : List UInt8) → Handler δ R
  | [],_ => skippedMember
  | (name,member)::members,key =>
    if strcmp key name=0 then member else dispatch members key

/-- The loop over the members of an object, with keys in a buffer of `keySize` bytes. It stops in
front of the closing brace or at the end of the input. -/
def parseMembers (keySize : Nat) (hk : 0<keySize) (members : List (List UInt8 × Handler δ R)) :
    Handler δ R
  | 0,_,_ => .error .fuel
  | fuel+1,p,r =>
    if p.current=.rbrace ∨ p.current=.eof then .ok (p,r)
    else
      match jsonParseString keySize hk p with
      | .error e => .error e
      | .ok (key,p) =>
        if p.current≠.colon then .error .invalid
        else
          match dispatch members key.bytes fuel (jsonNextToken p) r with
          | .error e => .error e
          | .ok (p,r) => parseMembers keySize hk members fuel (skipComma p) r

/-- The loop over an array that is stored entry by entry until the request is full, and the
bracket behind it. -/
def parseElements (full : R → Prop) [DecidablePred full]
    (element : (fuel : Nat) → Parser δ → (r : R) → ¬full r → Except Fault (Parser δ × R)) :
    Handler δ R
  | 0,_,_ => .error .fuel
  | fuel+1,p,r =>
    if p.current=.rbracket then .ok (jsonNextToken p,r)
    else if p.current=.eof then .ok (p,r)
    else if h : full r then .ok (p,r)
    else
      match element fuel p r h with
      | .error e => .error e
      | .ok (p,r) => parseElements full element fuel (skipComma p) r

def arrayMember (full : R → Prop) [DecidablePred full]
    (element : (fuel : Nat) → Parser δ → (r : R) → ¬full r → Except Fault (Parser δ × R)) :
    Handler δ R := fun fuel p r =>
  if p.current≠.lbracket then .error .invalid
  else parseElements full element fuel (jsonNextToken p) r

/-- What the five parsers share: a brace and the members behind it, two turns for each byte. -/
def parseRequest (members : List (List UInt8 × Handler δ R)) (init : R) (body : List UInt8)
    (len : Nat) : Except Fault R :=
  let p := jsonNextToken (Parser.init body len)
  if p.current≠.lbrace then .error .invalid
  else
    match parseMembers 64 key_pos members (2*len) (jsonNextToken p) init with
    | .error e => .error e
    | .ok (_,r) => .ok r

/-- if (v < 0 || v > MAX_GENERATION_TOKENS) v = MAX_GENERATION_TOKENS -/
def clampTokens (v : Int32) : Int32 :=
  if v<0 ∨ v>maxGenerationTokens then maxGenerationTokens else v

def completionMembers : List (List UInt8 × Handler δ (CompletionRequest φ)) :=
  [(cstr "prompt",stringMember _ maxPromptLength_pos fun req v => {req with prompt := v}),
   (cstr "model",stringMember _ maxModelIdLength_pos fun req v => {req with model := v}),
   (cstr "max_tokens",intMember fun req v => {req with maxTokens := clampTokens v}),
   (cstr "temperature",floatMember fun req v => {req with temperature := v}),
   (cstr "top_p",floatMember fun req v => {req with topP := v}),
   (cstr "top_k",intMember fun req v => {req with topK := v}),
   (cstr "frequency_penalty",floatMember fun req v => {req with frequencyPenalty := v}),
   (cstr "presence_penalty",floatMember fun req v => {req with presencePenalty := v}),
   (cstr "stream",boolMember fun req v => {req with stream := v}),
   (cstr "seed",intMember fun req v => {req with seed := v}),
   (cstr "echo",boolMember fun req v => {req with echo := v}),
   (cstr "n",intMember fun req v => {req with n := v})]

def parseCompletionRequest (δ : Type) {φ : Type} [Double δ φ] (body : List UInt8) (len : Nat) :
    Except Fault (CompletionRequest φ) :=
  parseRequest (δ := δ) completionMembers (.init δ) body len

def messageMembers : List (List UInt8 × Handler δ ChatMessage) :=
  [(cstr "role",stringMember _ role_pos fun msg v => {msg with role := v}),
   (cstr "content",stringMember _ maxPromptLength_pos fun msg v => {msg with content := v})]

/-- One turn of the loop over `messages`; the message counts once its brace is closed. -/
def messageElement (fuel : Nat) (p : Parser δ) (req : ChatCompletionRequest φ)
    (h : ¬maxChatMessages≤req.messages.1.length) :
    Except Fault (Parser δ × ChatCompletionRequest φ) :=
  if p.current≠.lbrace then .error .invalid
  else
    match parseMembers 32 messageKey_pos messageMembers fuel (jsonNextToken p) .empty with
    | .error e => .error e
    | .ok (p,msg) =>
      if p.current=.rbrace then
        .ok (jsonNextToken p,{req with messages := pushEntry req.messages msg (Nat.lt_of_not_le h)})
      else .ok (p,req)

def chatMembers : List (List UInt8 × Handler δ (ChatCompletionRequest φ)) :=
  [(cstr "messages",
      arrayMember (fun req => maxChatMessages≤req.messages.1.length) messageElement),
   (cstr "model",stringMember _ maxModelIdLength_pos fun req v => {req with model := v}),
   (cstr "max_tokens",intMember fun req v => {req with maxTokens := clampTokens v}),
   (cstr "temperature",floatMember fun req v => {req with temperature := v}),
   (cstr "top_p",floatMember fun req v => {req with topP := v}),
   (cstr "stream",boolMember fun req v => {req with stream := v})]

def parseChatRequest (δ : Type) {φ : Type} [Double δ φ] (body : List UInt8) (len : Nat) :
    Except Fault (ChatCompletionRequest φ) :=
  parseRequest (δ := δ) chatMembers (.init δ) body len

def tokenizeMembers : List (List UInt8 × Handler δ TokenizeRequest) :=
  [(cstr "content",stringMember _ maxPromptLength_pos fun req v => {req with content := v}),
   (cstr "add_special",boolMember fun req v => {req with addSpecial := v})]

def parseTokenizeRequest (δ : Type) {φ : Type} [Double δ φ] (body : List UInt8) (len : Nat) :
    Except Fault TokenizeRequest :=
  parseRequest (δ := δ) tokenizeMembers .init body len

/-- One turn of the loop over `tokens`. -/
def tokenElement (_fuel : Nat) (p : Parser δ) (req : DetokenizeRequest)
    (h : ¬maxTokens≤req.tokens.1.length) : Except Fault (Parser δ × DetokenizeRequest) :=
  match jsonParseInt p with
  | .error e => .error e
  | .ok (token,p) => .ok (p,{tokens := pushEntry req.tokens token (Nat.lt_of_not_le h)})

def detokenizeMembers : List (List UInt8 × Handler δ DetokenizeRequest) :=
  [(cstr "tokens",arrayMember (fun req => maxTokens≤req.tokens.1.length) tokenElement)]

def parseDetokenizeRequest (δ : Type) {φ : Type} [Double δ φ] (body : List UInt8) (len : Nat) :
    Except Fault DetokenizeRequest :=
  parseRequest (δ := δ) detokenizeMembers .init body len

def embeddingMembers : List (List UInt8 × Handler δ EmbeddingRequest) :=
  [(cstr "input",stringMember _ maxPromptLength_pos fun req v => {req with input := v}),
   (cstr "model",stringMember _ maxModelIdLength_pos fun req v => {req with model := v})]

def parseEmbeddingRequest (δ : Type) {φ : Type} [Double δ φ] (body : List UInt8) (len : Nat) :
    Except Fault EmbeddingRequest :=
  parseRequest (δ := δ) embeddingMembers .init body len

end Cllm.Api
