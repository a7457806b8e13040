import Cllm.Api.Run
import Cllm.Json.Checked

namespace Cllm.Api

open Libc Json Trace

variable {α : Type}

/-- The computation comes to its end with at most `n` calls of json_next_token. -/
def Halts (n : Nat) (x : Run α) : Prop := calls x.events ≤ n ∧ x.result≠.error .fuel

theorem halts_of_spec {n : Nat} {x : Run α} {Q : α → Nat → Prop} (h : parsing.Triple n x Q) :
    Halts n x := by
  refine ⟨?_,?_⟩
  · rw [← total_parsing]
    exact h.cost
  · intro hfuel
    have hinvalid : Fault.fuel=.invalid := h.fails _ hfuel
    cases hinvalid

section Calls

variable (δ : Type) {φ : Type} [Double δ φ]

/-- json_next_token reads inside its input, and each token that is no end moves it on. -/
theorem jsonNextToken_bounds {p : Parser δ} (hw : p.Within) :
    Checked.jsonNextToken p=some (jsonNextToken p) ∧ (jsonNextToken p).len=p.len ∧
      (jsonNextToken p).pos ≤ p.len ∧ ((jsonNextToken p).current≠.eof →
        (jsonNextToken p).current≠.error → p.pos < (jsonNextToken p).pos) := by
  have hlen := jsonNextToken_len p
  have hpos := (jsonNextToken_sees hw).within.pos
  refine ⟨Checked.jsonNextToken_eq hw,hlen,by omega,?_⟩
  intro he hn
  have hshort := next_shorter hw he hn
  omega

theorem budget_le {p : Parser δ} (hw : p.Within) : Ready p (p.len-p.pos+1) := by
  refine ⟨hw,?_⟩
  rw [Parser.budget]
  split_ifs
  · exact Nat.zero_le _
  · exact Nat.le_refl _

theorem jsonSkipValue_halts {p : Parser δ} (hw : p.Within) {fuel : Nat}
    (hf : 2*p.len+3 ≤ fuel) : Halts (p.len-p.pos+1) (Run.jsonSkipValue fuel p) :=
  halts_of_spec ((Run.skip_spec fuel).1 (budget_le δ hw) (by omega))

theorem skipBody_halts (body : List UInt8) {fuel : Nat} (hf : 2*body.length+1 ≤ fuel) :
    Halts (body.length+1)
      (Run.jsonNextToken (Parser.init body body.length : Parser δ) >>= Run.jsonSkipValue fuel) := by
  apply halts_of_spec (Q := fun q c => Ready q c)
  refine (Run.init_spec body (Nat.le_refl _)).bind fun p c _ hp => ?_
  exact ((Run.skip_spec fuel).1 hp.1 (by omega)).mono fun q c _ hq => hq.1

/-- The lexer stays inside its input and moves on, and json_skip_value and the request parsers
come to an end after at most one call of it for each byte and one more. -/
theorem parsers_halt :
    (∀ p : Parser δ,p.Within →
      Checked.jsonNextToken p=some (jsonNextToken p) ∧ (jsonNextToken p).len=p.len ∧
        (jsonNextToken p).pos ≤ p.len ∧ ((jsonNextToken p).current≠.eof →
          (jsonNextToken p).current≠.error → p.pos < (jsonNextToken p).pos)) ∧
    (∀ p : Parser δ,p.Within → ∀ fuel,2*p.len+3 ≤ fuel →
      (Run.jsonSkipValue fuel p).result=jsonSkipValue fuel p ∧
        Halts (p.len-p.pos+1) (Run.jsonSkipValue fuel p)) ∧
    ∀ body : List UInt8,
      (∀ fuel,2*body.length+1 ≤ fuel → Halts (body.length+1)
        (Run.jsonNextToken (Parser.init body body.length : Parser δ) >>=
          Run.jsonSkipValue fuel)) ∧
      ((Run.parseCompletionRequest δ body body.length).result=
          parseCompletionRequest δ body body.length ∧
        Halts (body.length+1) (Run.parseCompletionRequest δ body body.length)) ∧
      ((Run.parseChatRequest δ body body.length).result=parseChatRequest δ body body.length ∧
        Halts (body.length+1) (Run.parseChatRequest δ body body.length)) ∧
      ((Run.parseTokenizeRequest δ body body.length).result=
          parseTokenizeRequest δ body body.length ∧
        Halts (body.length+1) (Run.parseTokenizeRequest δ body body.length)) ∧
      ((Run.parseDetokenizeRequest δ body body.length).result=
          parseDetokenizeRequest δ body body.length ∧
        Halts (body.length+1) (Run.parseDetokenizeRequest δ body body.length)) ∧
      ((Run.parseEmbeddingRequest δ body body.length).result=
          parseEmbeddingRequest δ body body.length ∧
        Halts (body.length+1) (Run.parseEmbeddingRequest δ body body.length)) := by
  refine ⟨fun p hw => jsonNextToken_bounds δ hw,fun p hw fuel hf => ?_,fun body => ?_⟩
  · exact ⟨(Run.skip_results fuel).1 p,jsonSkipValue_halts δ hw hf⟩
  · have hlen : body.length ≤ body.length := Nat.le_refl _
    refine ⟨fun fuel hf => skipBody_halts δ body hf,?_,?_,?_,?_,?_⟩
    · exact ⟨Run.parseCompletionRequest_result δ body _,
        halts_of_spec (Run.parseRequest_spec (completionTable δ φ) (.init δ) default_inRange body hlen)⟩
    · exact ⟨Run.parseChatRequest_result δ body _,
        halts_of_spec (Run.parseRequest_spec (chatTable δ φ) (.init δ) default_inRange body hlen)⟩
    · exact ⟨Run.parseTokenizeRequest_result δ body _,
        halts_of_spec (Run.parseRequest_spec (tokenizeTable δ φ) .init trivial body hlen)⟩
    · exact ⟨Run.parseDetokenizeRequest_result δ body _,
        halts_of_spec (Run.parseRequest_spec (detokenizeTable δ φ) .init trivial body hlen)⟩
    · exact ⟨Run.parseEmbeddingRequest_result δ body _,
        halts_of_spec (Run.parseRequest_spec (embeddingTable δ φ) .init trivial body hlen)⟩

end Calls

/-- The string fields of the requests end in a NUL inside their arrays, the counts keep to the
arrays they count, and max_tokens is in its range. -/
def CompletionRequest.InFields {φ : Type} (req : CompletionRequest φ) : Prop :=
  req.prompt.bytes.length < maxPromptLength ∧ req.model.bytes.length < maxModelIdLength ∧
    0 ≤ req.maxTokens ∧ req.maxTokens ≤ maxGenerationTokens

def ChatMessage.InFields (msg : ChatMessage) : Prop :=
  msg.role.bytes.length<16 ∧ msg.content.bytes.length < maxPromptLength

def ChatCompletionRequest.InFields {φ : Type} (req : ChatCompletionRequest φ) : Prop :=
  req.messages.1.length ≤ maxChatMessages ∧ (∀ msg∈req.messages.1,msg.InFields) ∧
    req.model.bytes.length < maxModelIdLength ∧
    0 ≤ req.maxTokens ∧ req.maxTokens ≤ maxGenerationTokens

def TokenizeRequest.InFields (req : TokenizeRequest) : Prop :=
  req.content.bytes.length < maxPromptLength

def DetokenizeRequest.InFields (req : DetokenizeRequest) : Prop :=
  req.tokens.1.length ≤ maxTokens

def EmbeddingRequest.InFields (req : EmbeddingRequest) : Prop :=
  req.input.bytes.length < maxPromptLength ∧ req.model.bytes.length < maxModelIdLength

/-- A run writes inside the arrays of the request, and a request that it returns is in order. -/
def Contained {R : Type} (x : Run R) (inFields : R → Prop) : Prop :=
  InBounds x.events ∧ ∀ r,x.result=.ok r → inFields r

theorem contained_of_spec {R : Type} {n : Nat} {x : Run R} {Q : R → Nat → Prop}
    {inFields : R → Prop} (h : parsing.Triple n x Q) (hq : ∀ r c,Q r c → inFields r) :
    Contained x inFields := by
  refine ⟨h.allowed,?_⟩
  intro r hr
  exact hq r _ (h.post r hr)

/-- Whatever the body, the five parsers write inside the arrays of their request, a copy leaves its
bytes and a NUL in the array, and what the parsers accept has every field in order. -/
theorem requests_contained (δ : Type) {φ : Type} [Double δ φ] (body : List UInt8) :
    (∀ (size : Nat) (h : 0 < size) (s : List UInt8) (buf : Buffer size),
      (replay buf.bytes (Run.copyStores size s)).take ((copyString size h s).bytes.length+1)=
        (copyString size h s).bytes++[0]) ∧
    ((Run.parseCompletionRequest δ body body.length).result=
        parseCompletionRequest δ body body.length ∧
      Contained (Run.parseCompletionRequest (φ := φ) δ body body.length) (·.InFields)) ∧
    ((Run.parseChatRequest δ body body.length).result=parseChatRequest δ body body.length ∧
      Contained (Run.parseChatRequest (φ := φ) δ body body.length) (·.InFields)) ∧
    ((Run.parseTokenizeRequest δ body body.length).result=
        parseTokenizeRequest δ body body.length ∧
      Contained (Run.parseTokenizeRequest δ body body.length) (·.InFields)) ∧
    ((Run.parseDetokenizeRequest δ body body.length).result=
        parseDetokenizeRequest δ body body.length ∧
      Contained (Run.parseDetokenizeRequest δ body body.length) (·.InFields)) ∧
    ((Run.parseEmbeddingRequest δ body body.length).result=
        parseEmbeddingRequest δ body body.length ∧
      Contained (Run.parseEmbeddingRequest δ body body.length) (·.InFields)) := by
  have hlen : body.length ≤ body.length := Nat.le_refl _
  refine ⟨fun size h s buf => Run.replay_copyStores h s buf,
    ⟨Run.parseCompletionRequest_result δ body _,?_⟩,
    ⟨Run.parseChatRequest_result δ body _,?_⟩,⟨Run.parseTokenizeRequest_result δ body _,?_⟩,
    ⟨Run.parseDetokenizeRequest_result δ body _,?_⟩,
    ⟨Run.parseEmbeddingRequest_result δ body _,?_⟩⟩
  · have hspec := Run.parseRequest_spec (completionTable δ φ) (.init δ) default_inRange body hlen
    exact contained_of_spec hspec fun req _ h => ⟨req.prompt.fits,req.model.fits,h⟩
  · have hspec := Run.parseRequest_spec (chatTable δ φ) (.init δ) default_inRange body hlen
    exact contained_of_spec hspec fun req _ h =>
      ⟨req.messages.2,fun msg _ => ⟨msg.role.fits,msg.content.fits⟩,req.model.fits,h⟩
  · have hspec := Run.parseRequest_spec (tokenizeTable δ φ) .init trivial body hlen
    exact contained_of_spec hspec fun req _ _ => req.content.fits
  · have hspec := Run.parseRequest_spec (detokenizeTable δ φ) .init trivial body hlen
    exact contained_of_spec hspec fun req _ _ => req.tokens.2
  · have hspec := Run.parseRequest_spec (embeddingTable δ φ) .init trivial body hlen
    exact contained_of_spec hspec fun req _ _ => ⟨req.input.fits,req.model.fits⟩

end Cllm.Api
