import Mathlib.Data.List.Forall2
import Cllm.Api.Unknown

namespace Cllm.Api

open Libc Json Rfc8259

section Last

variable {δ φ R α : Type} [Double δ φ] {room : R → Nat}

/-- The value that the last member of a name has. -/
def lastValue (name : List UInt8) : Members → Option Value
  | .nil => none
  | .cons n v ms =>
    match lastValue name ms with
    | some v => some v
    | none => if lexed n=name then some v else none

/-- A field that leaves a part of the request alone. -/
def Keeps (get : R → α) (f : Field δ room) : Prop := ∀ v r,get (f.meaning v r)=get r

/-- Of all fields, the one of this name and no other sets this part of the request. -/
def Sets (get : R → α) (name : List UInt8) (val : Literal → α) (f : Field δ room) : Prop :=
  (f.name=name ∧ ∀ l r,get (f.meaning (.string l) r)=val l) ∨ (f.name≠name ∧ Keeps get f)

variable {get : R → α} {name : List UInt8} {val : Literal → α}

theorem keeps_scalar {β : Type} {name' : List UInt8} {handler : Handler δ R}
    {value : Value → Option β} {set : R → β → R} {hset : ∀ r a,room (set r a)=room r} {hrun}
    (hg : ∀ r a,get (set r a)=get r) :
    Keeps get (.scalar name' handler value set hset hrun : Field δ room) := by
  intro v r
  simp only [Field.scalar]
  cases value v with
  | none => rfl
  | some a => exact hg r a

theorem other_scalar {β : Type} {name' : List UInt8} {handler : Handler δ R}
    {value : Value → Option β} {set : R → β → R} {hset : ∀ r a,room (set r a)=room r} {hrun}
    (hn : name'≠name) (hg : ∀ r a,get (set r a)=get r) :
    Sets get name val (.scalar name' handler value set hset hrun : Field δ room) :=
  .inr ⟨hn,keeps_scalar hg⟩

theorem sets_string {size : Nat} {h : 0 < size} {set : R → CField size → R}
    {hset : ∀ r v,room (set r v)=room r} {get : R → CField size} (hg : ∀ r v,get (set r v)=v) :
    Sets get name (fun l => copyString size h (Field.buffered l))
      (.string name size h set hset : Field δ room) := .inl ⟨rfl,fun _ _ => hg _ _⟩

theorem meaning_last {fields : List (Field δ room)} (hs : ∀ f∈fields,Sets get name val f)
    (hn : ∃ f∈fields,f.name=name) : (ms : Members) →
    (∀ l,lastValue name ms=some (.string l) → ∀ r,get (meaning fields ms r)=val l) ∧
    (lastValue name ms=none → ∀ r,get (meaning fields ms r)=get r)
  | .nil => ⟨fun l h => (by cases h),fun _ _ => rfl⟩
  | .cons n v ms => by
    have ih := meaning_last hs hn ms
    rw [lastValue]
    cases hl : lastValue name ms with
    | some v' =>
      refine ⟨fun l h r => ih.1 l (hl.trans h) _,fun h => (by cases h)⟩
    | none =>
      have hrest := ih.2 hl
      by_cases hname : lexed n=name
      · rw [if_pos hname]
        refine ⟨fun l h r => ?_,fun h => (by cases h)⟩
        injection h with h
        subst h
        rw [meaning,hrest]
        cases hf : recognised fields n with
        | none =>
          obtain ⟨f,hf',hfn⟩ := hn
          have hne := List.find?_eq_none.mp hf f hf'
          exact absurd (hfn.trans hname.symm) (by simpa using hne)
        | some f =>
          have hfn : f.name=lexed n := by simpa using List.find?_some hf
          obtain ⟨-,h⟩ | ⟨h,-⟩ := hs f (List.mem_of_find?_eq_some hf)
          · exact h l r
          · exact absurd (hfn.trans hname) h
      · rw [if_neg hname]
        refine ⟨fun l h => (by cases h),fun _ r => ?_⟩
        rw [meaning,hrest]
        cases hf : recognised fields n with
        | none => rfl
        | some f =>
          have hfn : f.name=lexed n := by simpa using List.find?_some hf
          obtain ⟨h,-⟩ | ⟨-,h⟩ := hs f (List.mem_of_find?_eq_some hf)
          · exact absurd (hfn.symm.trans h) hname
          · exact h v r

end Last

/-- What a member of the request is to hold: the whole string of the last member of this name, if
it is spelled without unicode escapes and fits the field. -/
def Whole (ms : Members) (name field : List UInt8) : Prop :=
  ∀ l bs,lastValue name ms=some (.string l) → l.decode=some bs → bs.length ≤ maxPromptLength-1 →
    field=bs

/-- The string fits string_buf. -/
def Buffered (ms : Members) (name : List UInt8) : Prop :=
  ∀ l bs,lastValue name ms=some (.string l) → l.decode=some bs → bs.length ≤ maxPromptLength-1 →
    bs.length ≤ stringBufSize-1

theorem lexed_of_decode : (l : Literal) → {bs : List UInt8} → l.decode=some bs → lexed l=bs
  | [],bs,h => by
    injection h
  | c::l,bs,h => by
    rw [Literal.decode] at h
    split at h
    · next b bs' hb hbs =>
      injection h with h
      subst h
      have hl := lexed_of_decode l hbs
      have hc : lexedChar c=b := by
        cases c with
        | unicode d => cases hb
        | _ => injection hb
      change lexedChar c::lexed l=_
      rw [hc,hl]
    · cases h

theorem whole_iff_buffered {ms : Members} {name : List UInt8} {field : CField maxPromptLength}
    (h : ∀ l,lastValue name ms=some (.string l) →
      field=copyString maxPromptLength maxPromptLength_pos (Field.buffered l)) :
    Whole ms name field.bytes ↔ Buffered ms name := by
  have hfield : ∀ l bs,lastValue name ms=some (.string l) → l.decode=some bs →
      field.bytes=bs.take (stringBufSize-1) := by
    intro l bs hl hd
    rw [h l hl,copyString_buffered,Field.buffered,lexed_of_decode l hd,List.take_take]
    rfl
  constructor
  · intro hw l bs hl hd hle
    have hlen := congrArg List.length (hw l bs hl hd hle)
    rw [hfield l bs hl hd,List.length_take] at hlen
    omega
  · intro hb l bs hl hd hle
    rw [hfield l bs hl hd]
    exact List.take_of_length_le (hb l bs hl hd hle)

section Requests

variable {δ φ : Type} [Double δ φ]

/-- The bytes of a field that the last member of a name sets are those of its string exactly when
it fits string_buf. -/
theorem meaning_whole_iff {R : Type} {room : R → Nat} (fields : List (Field δ room))
    (get : R → CField maxPromptLength) (name : List UInt8)
    (hs : ∀ f∈fields,Sets get name
      (fun l => copyString maxPromptLength maxPromptLength_pos (Field.buffered l)) f)
    (hn : ∃ f∈fields,f.name=name) (ms : Members) (r : R) :
    Whole ms name (get (meaning fields ms r)).bytes ↔ Buffered ms name :=
  whole_iff_buffered fun l hl => (meaning_last hs hn ms).1 l hl r

theorem prompt_whole_iff (ms : Members) (req : CompletionRequest φ) :
    Whole ms (cstr "prompt") (meaning (completionFields δ φ) ms req).prompt.bytes ↔
      Buffered ms (cstr "prompt") := by
  refine meaning_whole_iff (completionFields δ φ) CompletionRequest.prompt (cstr "prompt") ?_
    ⟨_,List.mem_cons_self ..,rfl⟩ ms req
  refine List.forall_mem_cons.mpr ⟨sets_string fun _ _ => rfl,?_⟩
  simp only [List.forall_mem_cons,List.not_mem_nil,false_imp_iff,implies_true,and_true]
  and_intros
  -- the other members are scalars
  all_goals exact other_scalar (by decide) fun _ _ => rfl

theorem message_whole_iff (ms : Members) (msg : ChatMessage) :
    Whole ms (cstr "content") (meaning (messageFields δ φ) ms msg).content.bytes ↔
      Buffered ms (cstr "content") := by
  refine meaning_whole_iff (messageFields δ φ) ChatMessage.content (cstr "content") ?_
    ⟨_,List.mem_cons_of_mem _ (List.mem_cons_self ..),rfl⟩ ms msg
  refine List.forall_mem_cons.mpr ⟨other_scalar (by decide) fun _ _ => rfl,?_⟩
  exact List.forall_mem_singleton.mpr (sets_string fun _ _ => rfl)

theorem content_whole_iff (ms : Members) (req : TokenizeRequest) :
    Whole ms (cstr "content") (meaning (tokenizeFields δ φ) ms req).content.bytes ↔
      Buffered ms (cstr "content") := by
  refine meaning_whole_iff (tokenizeFields δ φ) TokenizeRequest.content (cstr "content") ?_
    ⟨_,List.mem_cons_self ..,rfl⟩ ms req
  refine List.forall_mem_cons.mpr ⟨sets_string fun _ _ => rfl,?_⟩
  exact List.forall_mem_singleton.mpr (other_scalar (by decide) fun _ _ => rfl)

theorem input_whole_iff (ms : Members) (req : EmbeddingRequest) :
    Whole ms (cstr "input") (meaning (embeddingFields δ φ) ms req).input.bytes ↔
      Buffered ms (cstr "input") := by
  refine meaning_whole_iff (embeddingFields δ φ) EmbeddingRequest.input (cstr "input") ?_
    ⟨_,List.mem_cons_self ..,rfl⟩ ms req
  refine List.forall_mem_cons.mpr ⟨sets_string fun _ _ => rfl,?_⟩
  exact List.forall_mem_singleton.mpr (other_scalar (by decide) fun _ _ => rfl)

def objectsOf : Value → List Members
  | .array es => es.toList.filterMap Value.asObject
  | _ => []

/-- The objects of the `messages` arrays, in their order. -/
def messageObjects : Members → List Members
  | .nil => []
  | .cons name v ms =>
    (if lexed name=cstr "messages" then objectsOf v else [])++messageObjects ms

theorem messages_meanings {vs : List Value} {req : ChatCompletionRequest φ}
    (ha : ∀ v∈vs,(messageEntry δ φ).admits v) (hc : vs.length ≤ maxChatMessages-messageCount req) :
    ((messageEntry δ φ).meanings vs req).messages.1=
      req.messages.1++(vs.filterMap Value.asObject).map fun ms =>
        meaning (messageFields δ φ) ms .empty := by
  induction vs generalizing req with
  | nil => exact (List.append_nil _).symm
  | cons v vs ih =>
    rw [List.forall_mem_cons] at ha
    rw [List.length_cons] at hc
    have hroom : ¬maxChatMessages ≤ messageCount req := by omega
    have hcount := (messageEntry δ φ).count_meaning ha.1 hroom
    have hc' : vs.length ≤ maxChatMessages-messageCount ((messageEntry δ φ).meaning v req) := by
      omega
    have hrest := ih ha.2 hc'
    obtain ⟨ms,rfl,-⟩ := ha.1
    have hpush : ((messageEntry δ φ).meaning (.object ms) req).messages.1=
        req.messages.1++[meaning (messageFields δ φ) ms .empty] := by
      have hlt : req.messages.1.length < maxChatMessages := Nat.lt_of_not_le hroom
      simp only [messageEntry,dif_pos hlt,pushEntry]
    change ((messageEntry δ φ).meanings vs
      ((messageEntry δ φ).meaning (.object ms) req)).messages.1=_
    rw [hrest,hpush,List.append_assoc]
    rfl

theorem chat_keeps : ∀ f∈(chatFields δ φ).tail,Keeps ChatCompletionRequest.messages f := by
  simp only [chatFields,List.tail_cons,List.forall_mem_cons,List.not_mem_nil,false_imp_iff,
    implies_true,and_true]
  and_intros
  all_goals exact keeps_scalar fun _ _ => rfl

theorem messages_meaning : (ms : Members) → {req : ChatCompletionRequest φ} →
    Typed (chatFields δ φ) ms → entries (chatFields δ φ) ms ≤ maxChatMessages-messageCount req →
    (meaning (chatFields δ φ) ms req).messages.1=
      req.messages.1++(messageObjects ms).map fun ms => meaning (messageFields δ φ) ms .empty
  | .nil,req,_,_ => (List.append_nil _).symm
  | .cons name v ms,req,ht,he => by
    obtain ⟨hcost,hroom⟩ := entries_rest ht.1 he
    have ih := messages_meaning ms ht.2 hroom
    rw [meaning,ih,messageObjects,List.map_append,← List.append_assoc]
    congr 1
    by_cases hname : lexed name=cstr "messages"
    · have hf : recognised (chatFields δ φ) name=
          some (.array (cstr "messages") (messageEntry δ φ)) :=
        List.find?_cons_of_pos (decide_eq_true hname.symm)
      obtain ⟨es,rfl,ha⟩ := ht.1 _ hf
      rw [hf,if_pos hname]
      exact messages_meanings ha (hcost _ hf)
    · rw [if_neg hname]
      have htail : recognised (chatFields δ φ) name=recognised (chatFields δ φ).tail name :=
        List.find?_cons_of_neg (by rw [decide_eq_true_eq]; exact Ne.symm hname)
      rw [htail,List.map_nil,List.append_nil]
      cases hf : recognised (chatFields δ φ).tail name with
      | none => rfl
      | some f =>
        have hk := chat_keeps f (List.mem_of_find?_eq_some hf) v req
        exact congrArg Subtype.val hk

end Requests

/-- Of a well-formed request, the prompt, the content of each message, the content and the input
are whole exactly when they fit string_buf; a chat request is refused when it has more messages
than there is room for. -/
theorem strings_whole_iff {δ φ : Type} [Double δ φ] {ms : Members} {body : List UInt8}
    (hb : Spells (.object ms) body) :
    (Typed (completionFields δ φ) ms →
      ∃ req,parseCompletionRequest (φ := φ) δ body body.length=.ok req ∧
        (Whole ms (cstr "prompt") req.prompt.bytes ↔ Buffered ms (cstr "prompt"))) ∧
    (Typed (chatFields δ φ) ms → entries (chatFields δ φ) ms ≤ maxChatMessages →
      ∃ req,parseChatRequest (φ := φ) δ body body.length=.ok req ∧
        List.Forall₂ (fun msg obj =>
          Whole obj (cstr "content") msg.content.bytes ↔ Buffered obj (cstr "content"))
          req.messages.1 (messageObjects ms)) ∧
    (Typed (chatFields δ φ) ms → maxChatMessages<entries (chatFields δ φ) ms →
      parseChatRequest (φ := φ) δ body body.length=.error .invalid) ∧
    (Typed (tokenizeFields δ φ) ms →
      ∃ req,parseTokenizeRequest δ body body.length=.ok req ∧
        (Whole ms (cstr "content") req.content.bytes ↔ Buffered ms (cstr "content"))) ∧
    (Typed (embeddingFields δ φ) ms →
      ∃ req,parseEmbeddingRequest δ body body.length=.ok req ∧
        (Whole ms (cstr "input") req.input.bytes ↔ Buffered ms (cstr "input"))) := by
  refine ⟨fun ht => ?_,fun ht he => ?_,fun ht he => ?_,fun ht => ?_,fun ht => ?_⟩
  · exact ⟨_,parseCompletionRequest_meaning hb ht,prompt_whole_iff ms _⟩
  · refine ⟨_,parseChatRequest_meaning hb ht he,?_⟩
    have hm : (meaning (chatFields δ φ) ms (.init δ)).messages.1=
        (messageObjects ms).map fun obj => meaning (messageFields δ φ) obj .empty :=
      messages_meaning ms ht he
    rw [hm,List.forall₂_map_left_iff,List.forall₂_same]
    exact fun obj _ => message_whole_iff obj _
  · exact parseChatRequest_overflows hb ht he
  · exact ⟨_,parseTokenizeRequest_meaning hb ht,content_whole_iff ms _⟩
  · exact ⟨_,parseEmbeddingRequest_meaning hb ht,input_whole_iff ms _⟩

def promptName : Literal := .plain (cstr "prompt") (by decide +kernel)

def contentName : Literal := .plain (cstr "content") (by decide +kernel)

def inputName : Literal := .plain (cstr "input") (by decide +kernel)

theorem typed_string {δ φ R : Type} [Double δ φ] {room : R → Nat} {fields : List (Field δ room)}
    {name l : Literal} {f : Field δ room} (h : recognised fields name=some f)
    (ha : f.admits (.string l)) : Typed fields (.cons name (.string l) .nil) := by
  refine typed_cons _ h (fun g hg => ?_) trivial
  injection hg with hg
  subst hg
  exact ha

def greeting : Literal := .plain (cstr "hi") (by decide +kernel)

def greetingMembers : Members := .cons contentName (.string greeting) .nil

theorem strings_whole_iff_greeting : ∃ req,
    parseTokenizeRequest Float (cstr "\x7b\"content\":\"hi\"\x7d") 16=.ok req ∧
      req.content.bytes=cstr "hi" := by
  have hb := spells_flatten (.object greetingMembers)
  have hbody : (Value.object greetingMembers).texts.flatten=
      cstr "\x7b\"content\":\"hi\"\x7d" := by decide
  rw [hbody] at hb
  have ht : Typed (tokenizeFields Float Float32) greetingMembers := typed_string rfl rfl
  obtain ⟨req,hreq,hw⟩ := (strings_whole_iff hb).2.2.2.1 ht
  have hd : greeting.decode=some (cstr "hi") := by decide
  refine ⟨req,hreq,hw.mpr ?_ greeting _ rfl hd (by decide)⟩
  intro l bs hl hd' _
  have hlit : greeting=l := by
    injection hl with hl
    injection hl
  rw [← hlit,hd] at hd'
  injection hd' with hd'
  rw [← hd']
  decide

def longText : List UInt8 := List.replicate stringBufSize 97

def longString : Literal := .plain longText fun c hc => by
  rw [List.eq_of_mem_replicate hc]
  decide

def longMember (name : Literal) : Members := .cons name (.string longString) .nil

theorem longMember_not_buffered (name : Literal) : ¬Buffered (longMember name) (lexed name) := by
  intro h
  have hl : lastValue (lexed name) (longMember name)=some (.string longString) := if_pos rfl
  have hlen : longText.length=stringBufSize := List.length_replicate
  have hle := h longString longText hl (Literal.decode_plain ..) (by rw [hlen]; decide)
  rw [hlen] at hle
  exact absurd hle (by decide)

def longChat : Members :=
  .cons messagesName (.array (.cons (.object (longMember contentName)) .nil)) .nil

theorem longChat_typed : Typed (chatFields Float Float32) longChat := by
  refine typed_cons _ rfl ?_ trivial
  intro g hg
  injection hg with hg
  subst hg
  refine ⟨_,rfl,?_⟩
  intro v hv
  obtain rfl := List.mem_singleton.mp hv
  exact ⟨_,rfl,typed_string rfl rfl⟩

/-- A string of 1024 bytes. -/
theorem longString_counterexample :
    (∃ body req,Spells (.object (longMember promptName)) body ∧
      parseCompletionRequest (φ := Float32) Float body body.length=.ok req ∧
      ¬Whole (longMember promptName) (cstr "prompt") req.prompt.bytes) ∧
    (∃ body req msg,Spells (.object longChat) body ∧
      parseChatRequest (φ := Float32) Float body body.length=.ok req ∧ req.messages.1=[msg] ∧
      ¬Whole (longMember contentName) (cstr "content") msg.content.bytes) ∧
    (∃ body req,Spells (.object (longMember contentName)) body ∧
      parseTokenizeRequest Float body body.length=.ok req ∧
      ¬Whole (longMember contentName) (cstr "content") req.content.bytes) ∧
    (∃ body req,Spells (.object (longMember inputName)) body ∧
      parseEmbeddingRequest Float body body.length=.ok req ∧
      ¬Whole (longMember inputName) (cstr "input") req.input.bytes) := by
  have hlong := longMember_not_buffered
  have hprompt := parseCompletionRequest_meaning (δ := Float) (φ := Float32)
    (spells_flatten (.object (longMember promptName))) (typed_string rfl rfl)
  have hchat := parseChatRequest_meaning (spells_flatten (.object longChat)) longChat_typed
    (by decide)
  have hcontent := parseTokenizeRequest_meaning (δ := Float) (φ := Float32)
    (spells_flatten (.object (longMember contentName))) (typed_string rfl rfl)
  have hinput := parseEmbeddingRequest_meaning (δ := Float) (φ := Float32)
    (spells_flatten (.object (longMember inputName))) (typed_string rfl rfl)
  refine ⟨⟨_,_,spells_flatten _,hprompt,fun hw => ?_⟩,
    ⟨_,_,_,spells_flatten _,hchat,messages_meaning _ longChat_typed (by decide),
      fun hw => ?_⟩,
    ⟨_,_,spells_flatten _,hcontent,fun hw => ?_⟩,⟨_,_,spells_flatten _,hinput,fun hw => ?_⟩⟩
  · exact hlong promptName ((prompt_whole_iff _ _).mp hw)
  · exact hlong contentName ((message_whole_iff _ _).mp hw)
  · exact hlong contentName ((content_whole_iff _ _).mp hw)
  · exact hlong inputName ((input_whole_iff _ _).mp hw)

end Cllm.Api
