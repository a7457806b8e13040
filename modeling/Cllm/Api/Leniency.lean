import Cllm.Api.Accepting

namespace Cllm.Api

open Libc Json Rfc8259

def completionGrammar : List (List UInt8 × Reading) :=
  [(cstr "prompt",.string),(cstr "model",.string),(cstr "max_tokens",.number),
   (cstr "temperature",.number),(cstr "top_p",.number),(cstr "top_k",.number),
   (cstr "frequency_penalty",.number),(cstr "presence_penalty",.number),
   (cstr "stream",.bool),(cstr "seed",.number),(cstr "echo",.bool),(cstr "n",.number)]

def messageGrammar : List (List UInt8 × Reading) :=
  [(cstr "role",.string),(cstr "content",.string)]

def chatGrammar : List (List UInt8 × Reading) :=
  [(cstr "messages",.array maxChatMessages
      (.object 32 messageKey_pos (Reading.dispatch messageGrammar)) (Reading.object_tight _ _ _)),
   (cstr "model",.string),(cstr "max_tokens",.number),(cstr "temperature",.number),
   (cstr "top_p",.number),(cstr "stream",.bool)]

def tokenizeGrammar : List (List UInt8 × Reading) :=
  [(cstr "content",.string),(cstr "add_special",.bool)]

/-- A number that is stored. -/
def Reading.entry : Reading := scalar (fun t => t=.number) number_isScalar 1

def detokenizeGrammar : List (List UInt8 × Reading) :=
  [(cstr "tokens",.array maxTokens .entry (Reading.scalar_tight _ _ _))]

def embeddingGrammar : List (List UInt8 × Reading) :=
  [(cstr "input",.string),(cstr "model",.string)]

/-- A body that the grammar lets pass, though it is no JSON text: somewhere in it a comma is
missing or nothing follows it, a bracket is open at its end or an array when the request is full,
a string or a number is not spelled as RFC 8259 has it, something other than blanks follows the
object, or the bytes are not UTF-8. -/
def Departs (grammar : List (List UInt8 × Reading)) (body : List UInt8) : Prop :=
  ∃ c,BodyRel grammar c body ∧ (c=false ∨ ¬Utf8 body)

theorem length_pushEntry {α : Type} {n : Nat} (l : {l : List α // l.length ≤ n}) (a : α)
    (h : l.1.length<n) : (pushEntry l a h).1.length=l.1.length+1 := List.length_append

theorem isOk_iff {ε α : Type} {x : Except ε α} : x.isOk=true ↔ ∃ r,x=.ok r := by
  cases x with
  | error e => simp [Except.isOk,Except.toBool]
  | ok r => simp [Except.isOk,Except.toBool]

section

variable {δ φ R : Type} [Double δ φ] {count : R → Nat}

theorem wellFormed_iff {members : List (List UInt8 × Handler δ R)}
    {grammar : List (List UInt8 × Reading)} (h : Follows count members grammar) {init : R}
    (hi : count init=0) (body : List UInt8) :
    ((parseRequest members init body body.length).isOk=true → WellFormedObject body) ↔
      ¬Departs grammar body := by
  rw [isOk_iff,parseRequest_iff h hi]
  constructor
  · intro hw hdep
    obtain ⟨c,hc,hd⟩ := hdep
    obtain ⟨hutf,ms,hms⟩ := hw ⟨c,hc⟩
    have hclean := hc.clean hms
    rcases hd with hd | hd
    · rw [hclean] at hd
      cases hd
    · exact hd hutf
  · intro hdep hacc
    obtain ⟨c,hc⟩ := hacc
    have hutf : Utf8 body := by
      by_contra hn
      exact hdep ⟨c,hc,.inr hn⟩
    cases c with
    | false => exact absurd ⟨false,hc,.inl rfl⟩ hdep
    | true => exact ⟨hutf,hc.proper⟩

theorem completion_follows : Follows (fun _ : CompletionRequest φ => 0)
    (completionMembers (δ := δ)) completionGrammar := by
  refine .cons (accepts_string fun _ _ => rfl) ?_
  refine .cons (accepts_string fun _ _ => rfl) ?_
  refine .cons (accepts_int fun _ _ => rfl) ?_
  refine .cons (accepts_float fun _ _ => rfl) ?_
  refine .cons (accepts_float fun _ _ => rfl) ?_
  refine .cons (accepts_int fun _ _ => rfl) ?_
  refine .cons (accepts_float fun _ _ => rfl) ?_
  refine .cons (accepts_float fun _ _ => rfl) ?_
  refine .cons (accepts_bool fun _ _ => rfl) ?_
  refine .cons (accepts_int fun _ _ => rfl) ?_
  refine .cons (accepts_bool fun _ _ => rfl) ?_
  refine .cons (accepts_int fun _ _ => rfl) ?_
  exact .nil

theorem message_follows :
    Follows (fun _ : ChatMessage => 0) (messageMembers (δ := δ)) messageGrammar :=
  .cons (accepts_string fun _ _ => rfl) (.cons (accepts_string fun _ _ => rfl) .nil)

abbrev messageCount (req : ChatCompletionRequest φ) : Nat := req.messages.1.length

theorem messageElement_accepts : AcceptsElement messageCount maxChatMessages
    (messageElement (δ := δ) (φ := φ))
    (.object 32 messageKey_pos (Reading.dispatch messageGrammar)) where
  sound := by
    intro fuel p q r r' s h hp hq
    rw [messageElement] at hq
    split at hq
    · cases hq
    next hb =>
    have hb' : (lex s).1=.lbrace := hp.current.symm.trans (not_not.mp hb)
    split at hq
    · cases hq
    next t msg ht =>
    obtain ⟨c₁,s₁,hm,hs₁⟩ := parseMembers_sound (accepts_dispatch message_follows)
      (hp.next (by rw [hb']; decide)) ht
    split at hq
    · next hclose =>
      injection hq with hq
      injection hq with hq hr
      subst hq hr
      rw [hs₁.current] at hclose
      refine ⟨c₁,(lex s₁).2,⟨hb',c₁,s₁,0,hm,.inl ⟨hclose,rfl,rfl,?_⟩⟩,
        hs₁.next (by rw [hclose]; decide)⟩
      exact length_pushEntry _ _ (Nat.lt_of_not_le h)
    · next hclose =>
      injection hq with hq
      injection hq with hq hr
      subst hq hr
      rw [hs₁.current] at hclose
      have heof := hm.stops.resolve_left hclose
      exact ⟨false,s₁,⟨hb',c₁,s₁,0,hm,.inr ⟨heof,rfl,rfl,rfl⟩⟩,hs₁⟩
  complete := by
    intro c s n s' fuel p r h hr hp hf
    obtain ⟨hb,c₁,s₁,n₁,hm,he⟩ := hr
    have hlen := lex_length (s := s) (by rw [hb]; decide) (by rw [hb]; decide)
    have hf' : 2*(lex s).2.length+2 ≤ fuel := by omega
    obtain ⟨t,msg,ht,-,hs₁⟩ := parseMembers_complete (accepts_dispatch message_follows)
      (r := ChatMessage.empty) hm (hp.next (by rw [hb]; decide)) rfl hf'
    have hc : ¬p.current≠.lbrace := not_not.mpr (hp.current.trans hb)
    obtain ⟨hclose,-,rfl,rfl⟩ | ⟨heof,-,rfl,rfl⟩ := he
    · have hclose' : t.current=.rbrace := hs₁.current.trans hclose
      have hroom := Nat.lt_of_not_le h
      refine ⟨jsonNextToken t,{r with messages := pushEntry r.messages msg hroom},?_,
        length_pushEntry _ _ hroom,hs₁.next (by rw [hclose]; decide)⟩
      rw [messageElement,if_neg hc]
      simp only [ht,if_pos hclose']
    · have hclose' : ¬t.current=.rbrace := by rw [hs₁.current,heof]; decide
      refine ⟨t,r,?_,rfl,hs₁⟩
      rw [messageElement,if_neg hc]
      simp only [ht,if_neg hclose']

theorem chat_follows :
    Follows (messageCount (φ := φ)) (chatMembers (δ := δ)) chatGrammar := by
  refine .cons (accepts_array messageElement_accepts (Reading.object_tight _ _ _)) ?_
  refine .cons (accepts_string fun _ _ => rfl) ?_
  refine .cons (accepts_int fun _ _ => rfl) ?_
  refine .cons (accepts_float fun _ _ => rfl) ?_
  refine .cons (accepts_float fun _ _ => rfl) ?_
  refine .cons (accepts_bool fun _ _ => rfl) ?_
  exact .nil

theorem tokenize_follows :
    Follows (fun _ : TokenizeRequest => 0) (tokenizeMembers (δ := δ)) tokenizeGrammar :=
  .cons (accepts_string fun _ _ => rfl) (.cons (accepts_bool fun _ _ => rfl) .nil)

abbrev tokenCount (req : DetokenizeRequest) : Nat := req.tokens.1.length

theorem tokenElement_accepts :
    AcceptsElement tokenCount maxTokens (tokenElement (δ := δ)) .entry where
  sound := by
    intro fuel p q r r' s h hp hq
    obtain ⟨c,hc⟩ := exact_flag s
    rw [tokenElement,jsonParseInt] at hq
    by_cases hn : p.current=.number
    · rw [if_pos hn] at hq
      injection hq with hq
      injection hq with hq hr
      subst hq hr
      rw [hp.current] at hn
      exact ⟨c,(lex s).2,⟨decide_eq_true hn,rfl,length_pushEntry _ _ (Nat.lt_of_not_le h),hc⟩,
        hp.next (by rw [hn]; decide)⟩
    · rw [if_neg hn] at hq
      cases hq
  complete := by
    intro c s n s' fuel p r h hr hp hf
    obtain ⟨hn,rfl,rfl,-⟩ := hr
    have hn' := of_decide_eq_true hn
    have hroom := Nat.lt_of_not_le h
    refine ⟨jsonNextToken p,⟨pushEntry r.tokens (Double.toInt p.numberValue) hroom⟩,?_,
      length_pushEntry _ _ hroom,hp.next (by rw [hn']; decide)⟩
    rw [tokenElement,jsonParseInt,if_pos (hp.current.trans hn')]

theorem detokenize_follows :
    Follows tokenCount (detokenizeMembers (δ := δ)) detokenizeGrammar :=
  .cons (accepts_array tokenElement_accepts (Reading.scalar_tight _ _ _)) .nil

theorem embedding_follows :
    Follows (fun _ : EmbeddingRequest => 0) (embeddingMembers (δ := δ)) embeddingGrammar :=
  .cons (accepts_string fun _ _ => rfl) (.cons (accepts_string fun _ _ => rfl) .nil)

end

/-- None of the request parsers takes more than RFC 8259 lets pass exactly for the bodies in which
no reading of its grammar departs from it. -/
theorem onlyWellFormed_iff {δ φ : Type} [Double δ φ] (body : List UInt8) :
    (((parseCompletionRequest δ body body.length).isOk → WellFormedObject body) ↔
      ¬Departs completionGrammar body) ∧
    (((parseChatRequest δ body body.length).isOk → WellFormedObject body) ↔
      ¬Departs chatGrammar body) ∧
    (((parseTokenizeRequest δ body body.length).isOk → WellFormedObject body) ↔
      ¬Departs tokenizeGrammar body) ∧
    (((parseDetokenizeRequest δ body body.length).isOk → WellFormedObject body) ↔
      ¬Departs detokenizeGrammar body) ∧
    (((parseEmbeddingRequest δ body body.length).isOk → WellFormedObject body) ↔
      ¬Departs embeddingGrammar body) :=
  ⟨wellFormed_iff completion_follows rfl body,wellFormed_iff chat_follows rfl body,
    wellFormed_iff tokenize_follows rfl body,wellFormed_iff detokenize_follows rfl body,
    wellFormed_iff embedding_follows rfl body⟩

/-- An opening brace and nothing else. -/
theorem openBrace_counterexample :
    (parseCompletionRequest Float [123] 1).isOk ∧ (parseChatRequest Float [123] 1).isOk ∧
    (parseTokenizeRequest Float [123] 1).isOk ∧ (parseDetokenizeRequest Float [123] 1).isOk ∧
    (parseEmbeddingRequest Float [123] 1).isOk ∧ ¬WellFormedObject [123] := by
  refine ⟨by decide,by decide +kernel,by decide +kernel,by decide +kernel,
    by decide,?_⟩
  intro h
  obtain ⟨-,ms,hms⟩ := h
  have hbody : BodyRel tokenizeGrammar false [123] := by
    refine ⟨by decide,true,[],0,.stop (.inr (by decide)),?_⟩
    refine iff_of_false (by decide) ?_
    intro hc
    exact absurd hc.2.1 (by decide)
  exact absurd (hbody.clean hms) (by decide)

end Cllm.Api
