import Cllm.Api.Bodies
import Cllm.Api.Strings

namespace Cllm.Api

open Libc Json Http Rfc8259 Ieee754

/-- A POST request with this body. -/
structure Posts (request : HttpRequest) (body : List UInt8) : Prop where
  method : cut request.method.bytes=cstr "POST"
  bytes : request.body.bytes=body
  length : request.bodyLength=body.length

/-- An object with a content alone. -/
def contentObject (l : Literal) : Value := .object (.cons contentName (.string l) .nil)

/-- The body is JSON whose content is the string `s`. -/
def HasContent (body s : List UInt8) : Prop :=
  ∃ l,Spells (contentObject l) body ∧ Literal.decode l=some s

/-- Posting the content to handle_tokenize, and what that answers to handle_detokenize, gives the
content back. -/
def RoundTrips (context : ApiContext) (s : List UInt8) : Prop :=
  ∀ body request response,HasContent body s → Posts request body →
    let tokens := bodyText (handleTokenize context request response).2
    tokens.length < httpRequestBodySize ∧
    ∀ request' response',Posts request' tokens →
      HasContent (bodyText (handleDetokenize context request' response').2) s

/-- The contents in question: what a literal of the plain escapes can spell. -/
structure Content (s : List UInt8) : Prop where
  nonempty : s≠[]
  short : s.length ≤ 1023
  chars : ∀ c∈s,32 ≤ c ∨ c=8 ∨ c=9 ∨ c=10 ∨ c=12 ∨ c=13

theorem isPostRequest_of_posts {request : HttpRequest} {body : List UInt8}
    (h : Posts request body) : isPostRequest request=true := by
  have hpost : 0∉cstr "POST" := by
    repeat rw [cstr_ofList]
    decide
  have hlen : (cstr "POST").length+1=5 := by
    repeat rw [cstr_ofList]
    decide
  have hwhole := (strncmp_whole hpost).mpr h.method
  rw [hlen] at hwhole
  exact decide_eq_true hwhole

/-- The handler understands the request, as `req`. -/
structure Understood {R : Type} (parse : List UInt8 → Nat → Except Fault R) (missing : R → Bool)
    (request : HttpRequest) (req : R) : Prop where
  post : isPostRequest request=true
  nonempty : request.bodyLength≠0
  parsed : parse request.body.bytes request.bodyLength=.ok req
  present : missing req=false

section Post

variable {R : Type} {parse : List UInt8 → Nat → Except Fault R} {field : List UInt8}
  {missing : R → Bool} {respond : R → ApiContext → HttpResponse → ApiContext × HttpResponse}
  {request : HttpRequest} {body : List UInt8} {req : R}

theorem understood_of_posts (hp : Posts request body) (hne : body≠[])
    (hparse : parse body body.length=.ok req) (hmissing : missing req=false) :
    Understood parse missing request req where
  post := isPostRequest_of_posts hp
  nonempty := by
    rw [hp.length]
    exact fun h => hne (List.length_eq_zero_iff.mp h)
  parsed := by
    rw [hp.bytes,hp.length]
    exact hparse
  present := hmissing

theorem handlePost_understood (h : Understood parse missing request req) (context : ApiContext)
    (response : HttpResponse) :
    handlePost parse field missing respond context request response=
      respond req context response := by
  have hpost : ¬isPostRequest request=false := by
    rw [h.post]
    decide
  have hpresent : ¬missing req=true := by
    rw [h.present]
    decide
  rw [handlePost,if_neg hpost,if_neg h.nonempty,h.parsed]
  exact if_neg hpresent

theorem handlePost_ok (hp : Posts request body) (hne : body≠[])
    (hparse : parse body body.length=.ok req) (hmissing : missing req=false)
    (context : ApiContext) (response : HttpResponse) :
    handlePost parse field missing respond context request response=
      respond req context response :=
  handlePost_understood (understood_of_posts hp hne hparse hmissing) context response

end Post

theorem decode_of_elements {l : Literal} (h : ∀ e∈l,StringChar.decode e=some (lexedChar e)) :
    Literal.decode l=some (lexed l) := by
  induction l with
  | nil => rfl
  | cons e l ih =>
    rw [List.forall_mem_cons] at h
    rw [Literal.decode,h.1,ih h.2]
    rfl

theorem stringElement_decode {c : UInt8} {e : StringChar} (h : stringElement c=some e) :
    StringChar.decode e=some (lexedChar e) := by
  cases e with
  | plain c h => rfl
  | escape e => cases e <;> rfl
  | unicode d =>
    unfold stringElement at h
    split_ifs at h <;> cases h

/-- What the writer makes of a text stands for the text without the characters it skips. -/
theorem decode_stringLiteral (s : List UInt8) :
    Literal.decode (stringLiteral s)=some (s.filter keeps) := by
  rw [← lexed_stringLiteral]
  apply decode_of_elements
  intro e he
  obtain ⟨c,-,hc⟩ := List.mem_filterMap.mp he
  exact stringElement_decode hc

theorem Content.filter {s : List UInt8} (h : Content s) : s.filter keeps=s := by
  rw [List.filter_eq_self]
  intro c hc
  exact decide_eq_true (h.chars c hc)

theorem Content.zero_not_mem {s : List UInt8} (h : Content s) : 0∉s := by
  intro hz
  exact absurd (h.chars 0 hz) (by decide)

/-- The request that handle_tokenize sees. -/
theorem parse_content {body s : List UInt8} (hshort : s.length ≤ 1023) (h : HasContent body s) :
    ∃ req,parseTokenizeRequest Binary64 body body.length=.ok req ∧ req.content.bytes=s := by
  obtain ⟨l,hspells,hd⟩ := h
  have ht : Typed (tokenizeFields Binary64 Binary32) (.cons contentName (.string l) .nil) :=
    typed_string rfl rfl
  refine ⟨_,parseTokenizeRequest_meaning hspells ht,?_⟩
  change (copyString maxPromptLength maxPromptLength_pos (Field.buffered l)).bytes=s
  rw [copyString_buffered,Field.buffered,lexed_of_decode l hd,List.take_take]
  apply List.take_of_length_le
  have hbuf : stringBufSize=1024 := rfl
  have hmax : maxPromptLength=4096 := rfl
  omega

theorem ne_nil_of_spells {ms : Members} {body : List UInt8} (h : Spells (.object ms) body) :
    body≠[] := by
  rintro rfl
  obtain ⟨rest,hspaced,-⟩ := h
  obtain ⟨w,s',-,hnil,-⟩ := hspaced
  simp at hnil

theorem handleTokenize_content {body s : List UInt8} (hc : Content s) (h : HasContent body s)
    {request : HttpRequest} (hp : Posts request body) (context : ApiContext)
    (response : HttpResponse) :
    (handleTokenize context request response).2=
      writeBody (okResponse response) (tokenizeCalls (tokenized context s)) := by
  obtain ⟨req,hreq,hbytes⟩ := parse_content hc.short h
  obtain ⟨l,hspells,-⟩ := h
  have hhead : decide (req.content.bytes.headD 0=0)=false := by
    rw [hbytes]
    cases s with
    | nil => exact absurd rfl hc.nonempty
    | cons c s =>
      have hz := hc.zero_not_mem
      rw [List.mem_cons,not_or] at hz
      exact decide_eq_false (Ne.symm hz.1)
  have hmissing : (fun req : TokenizeRequest => decide (req.content.bytes.headD 0=0)) req=false :=
    hhead
  rw [handleTokenize,handlePost_ok hp (ne_nil_of_spells hspells) hreq hmissing,hbytes]

theorem tokenOf_toInt (c : UInt8) : (tokenOf c).toInt=c.toNat := by
  have hlt := c.toNat_lt
  have hsmall : c.toUInt32.toNat=c.toNat := UInt8.toNat_toUInt32 c
  change c.toUInt32.toBitVec.toInt=c.toNat
  rw [BitVec.toInt_eq_toNat_cond]
  change (if 2*c.toUInt32.toNat < 2^32 then (c.toUInt32.toNat : Int) else _)=c.toNat
  rw [hsmall,if_pos (by omega)]

theorem charOf_tokenOf (c : UInt8) : charOf (tokenOf c)=c := by
  apply UInt8.toNat_inj.mp
  change c.toUInt32.toUInt8.toNat=c.toNat
  simp

/-- The mask of the fallback. -/
theorem charOf_masked (c : UInt8) : charOf (tokenOf c&&&0x7F)=c&&&0x7F := by
  change (c.toUInt32.toInt32&&&0x7F).toUInt32.toUInt8=c&&&0x7F
  rw [Int32.toUInt32_and,UInt32.toUInt8_and]
  simp
  rfl

theorem masked_lt (c : UInt8) : c&&&0x7F < 0x80 := by
  rw [UInt8.lt_iff_toNat_lt,UInt8.toNat_and]
  exact lt_of_le_of_lt Nat.and_le_right (by decide)

theorem masked_of_lt {c : UInt8} (h : c < 0x80) : c&&&0x7F=c := by
  apply UInt8.toNat_inj.mp
  rw [UInt8.toNat_and]
  have hlt := UInt8.lt_iff_toNat_lt.mp h
  exact (Nat.and_two_pow_sub_one_eq_mod c.toNat 7).trans (Nat.mod_eq_of_lt hlt)

theorem castInt_of_value {f : Format} {x : Number f} {i : Int32} (h : x.value=some (i.toInt : ℚ)) :
    castInt x=i := by
  have hlo := i.le_toInt
  have hhi := i.toInt_lt
  rw [castInt,Number.truncate_of_value h]
  change (if -2147483648 ≤ i.toInt ∧ i.toInt ≤ 2147483647 then Int32.ofInt i.toInt else _)=i
  rw [if_pos (by omega),Int32.ofInt_toInt]

/-- The numbers that the writer puts out for tokens are read as the tokens. -/
theorem meanings_tokens (tokens : List Int32) (req : DetokenizeRequest)
    (h : req.tokens.1.length+tokens.length ≤ maxTokens) :
    ((tokenEntry Binary64 Binary32).meanings
      (tokens.map fun i => .number (intNumeral i)) req).tokens.1=req.tokens.1++tokens := by
  induction tokens generalizing req with
  | nil => exact (List.append_nil _).symm
  | cons i tokens ih =>
    rw [List.length_cons] at h
    have hroom : req.tokens.1.length < maxTokens := by omega
    have hvalue : (Double.toInt (numberValue (intNumeral i).text : Binary64) : Int32)=i := by
      rw [intNumeral_text]
      exact castInt_of_value (numberValue_intText i)
    have hstep : (tokenEntry Binary64 Binary32).meaning (.number (intNumeral i)) req=
        {tokens := pushEntry req.tokens i hroom} := by
      rw [tokenEntry]
      simp only [dif_pos hroom,hvalue]
    rw [List.map_cons]
    change ((tokenEntry Binary64 Binary32).meanings _
      ((tokenEntry Binary64 Binary32).meaning (.number (intNumeral i)) req)).tokens.1=_
    have hlen : (req.tokens.1++[i]).length+tokens.length ≤ maxTokens := by
      rw [List.length_append,List.length_singleton]
      omega
    rw [hstep,ih _ hlen]
    change req.tokens.1++[i]++tokens=_
    rw [List.append_assoc,List.singleton_append]

/-- Both tokenizers take a byte for a token. -/
theorem tokenized_content {s : List UInt8} (hc : Content s) (context : ApiContext) :
    tokenized context s=s.map tokenOf := by
  have hshort := hc.short
  have hmax : maxTokens=2048 := rfl
  have htake : (cut s).take maxTokens=s := by
    rw [cut_of_not_mem hc.zero_not_mem]
    exact List.take_of_length_le (by omega)
  unfold tokenized llmTokenize
  rw [htake,ite_self]

/-- The value that handle_tokenize writes. -/
def tokensValue (tokens : List Int32) : Value :=
  (@tokensItem httpResponseBodySize tokens).value

/-- Its one member. -/
def tokensMembers (tokens : List Int32) : Members :=
  .cons tokensKey.literal (.array (Elements.of (tokens.map fun i => .number (intNumeral i)))) .nil

theorem tokensValue_eq (tokens : List Int32) :
    tokensValue tokens=.object (tokensMembers tokens) := by
  have hmap : (tokens.map Item.int).map (@Item.value httpResponseBodySize)=
      tokens.map fun i => .number (intNumeral i) := List.map_map
  rw [tokensMembers,← hmap]
  rfl

theorem tokenText_length (c : UInt8) :
    (Value.number (intNumeral (tokenOf c))).texts.flatten.length ≤ 3 := by
  have hlt := c.toNat_lt
  have htoInt := tokenOf_toInt c
  have hpos : ¬tokenOf c < 0 := by
    rw [Int32.lt_iff_toInt_lt,htoInt]
    exact Int.not_lt.mpr (Int.natCast_nonneg _)
  rw [Value.texts,List.flatten_singleton,intNumeral_text,intText,if_neg hpos,List.nil_append]
  exact uintText_length_le (by omega) (by decide)

/-- Four bytes a token and the frame of the object. -/
theorem tokensValue_length (s : List UInt8) :
    (tokensValue (s.map tokenOf)).texts.flatten.length ≤ 4*s.length+13 := by
  have hlen := @elementsText_length (s.map fun c => .number (intNumeral (tokenOf c))) 3 false
    (List.forall_mem_map.mpr fun c _ => tokenText_length c)
  rw [List.length_map] at hlen
  have hkey : tokensKey.literal.text.length=8 := by decide
  have hmap : (s.map tokenOf).map (fun i => Value.number (intNumeral i))=
      s.map fun c => .number (intNumeral (tokenOf c)) := List.map_map
  have htext := array_text ((s.map tokenOf).map fun i => Value.number (intNumeral i))
  rw [hmap] at htext
  rw [tokensValue_eq,tokensMembers,Value.texts,Members.texts,Members.more,hmap]
  simp only [List.flatten_cons,List.flatten_append,htext,List.length_append,List.length_cons,
    List.length_nil,hkey,List.flatten_nil]
  omega

theorem bodyText_tokenize {body s : List UInt8} (hc : Content s) (h : HasContent body s)
    {request : HttpRequest} (hp : Posts request body) (context : ApiContext)
    (response : HttpResponse) :
    bodyText (handleTokenize context request response).2=
      (tokensValue (s.map tokenOf)).texts.flatten := by
  have hlen := tokensValue_length s
  have hshort := hc.short
  have hsize : httpResponseBodySize=16384 := rfl
  rw [handleTokenize_content hc h hp,tokenized_content hc]
  apply bodyText_writeBody _ (tokensItem (s.map tokenOf)) (tokenizeCalls_item _)
  change (tokensValue (s.map tokenOf)).texts.flatten.length < _
  omega

/-- The request that handle_detokenize sees. -/
theorem parse_tokens {body : List UInt8} {tokens : List Int32}
    (h : Spells (tokensValue tokens) body) (hlen : tokens.length ≤ maxTokens) :
    ∃ req,parseDetokenizeRequest Binary64 body body.length=.ok req ∧ req.tokens.1=tokens := by
  rw [tokensValue_eq] at h
  have hrec : recognised (detokenizeFields Binary64 Binary32) tokensKey.literal=
      some (.array (cstr "tokens") (tokenEntry Binary64 Binary32)) := rfl
  have ht : Typed (detokenizeFields Binary64 Binary32) (tokensMembers tokens) := by
    refine typed_cons _ hrec ?_ trivial
    intro f hf
    injection hf with hf
    subst hf
    refine ⟨_,rfl,?_⟩
    rw [toList_of]
    intro v hv
    obtain ⟨i,-,rfl⟩ := List.mem_map.mp hv
    exact ⟨_,rfl⟩
  have he : entries (detokenizeFields Binary64 Binary32) (tokensMembers tokens) ≤ maxTokens := by
    rw [tokensMembers,entries,hrec]
    change (Elements.of (tokens.map fun i => .number (intNumeral i))).toList.length+0 ≤ maxTokens
    rw [toList_of,List.length_map]
    exact hlen
  refine ⟨_,parseDetokenizeRequest_meaning h ht he,?_⟩
  rw [tokensMembers,meaning,hrec]
  change ((tokenEntry Binary64 Binary32).meanings
    (Elements.of (tokens.map fun i => .number (intNumeral i))).toList
    DetokenizeRequest.init).tokens.1=tokens
  have hzero : DetokenizeRequest.init.tokens.1.length=0 := rfl
  rw [toList_of,meanings_tokens _ _ (by omega)]
  exact List.nil_append _

/-- The text that comes back, before it is written. -/
theorem detokenized_content {s : List UInt8} (hc : Content s) (context : ApiContext) :
    detokenized context (s.map tokenOf)=
      if context.llmCtx then s else s.map fun c => c&&&0x7F := by
  have hshort := hc.short
  have htake : (s.map tokenOf).take (maxPromptLength-1)=s.map tokenOf := by
    apply List.take_of_length_le
    have hmax : maxPromptLength=4096 := rfl
    rw [List.length_map]
    omega
  unfold detokenized llmDetokenize
  rw [htake,List.map_map,List.map_map]
  have hid : (charOf∘tokenOf : UInt8 → UInt8)=id := funext charOf_tokenOf
  have hmask : ((fun token => charOf (token&&&0x7F))∘tokenOf : UInt8 → UInt8)=
      fun c => c&&&0x7F := funext charOf_masked
  rw [hid,hmask,List.map_id]

theorem handleDetokenize_tokens {body : List UInt8} {tokens : List Int32}
    (h : Spells (tokensValue tokens) body) (hne : tokens≠[]) (hlen : tokens.length ≤ maxTokens)
    {request : HttpRequest} (hp : Posts request body) (context : ApiContext)
    (response : HttpResponse) :
    (handleDetokenize context request response).2=
      writeBody (okResponse response) (detokenizeCalls (detokenized context tokens)) := by
  obtain ⟨req,hreq,htokens⟩ := parse_tokens h hlen
  have hmissing : (fun req : DetokenizeRequest => decide (req.tokens.1.length=0)) req=false := by
    change decide (req.tokens.1.length=0)=false
    rw [htokens]
    exact decide_eq_false fun h0 => hne (List.length_eq_zero_iff.mp h0)
  rw [tokensValue_eq] at h
  rw [handleDetokenize,handlePost_ok hp (ne_nil_of_spells h) hreq hmissing,htokens]

theorem contentItem_value (text : List UInt8) : (@contentItem httpResponseBodySize text).value=
    contentObject (stringLiteral (cut text)) := rfl

theorem escapedText_length (s : List UInt8) : (escapedText s).length ≤ 2*s.length := by
  induction s with
  | nil => exact Nat.zero_le _
  | cons c s ih =>
    have hc : ((escaped c).getD []).length ≤ 2 := by
      unfold escaped
      split_ifs <;> simp
    rw [escapedText] at ih
    rw [escapedText,List.flatMap_cons,List.length_append,List.length_cons]
    omega

/-- Two bytes a character and the frame of the object. -/
theorem contentObject_length (s : List UInt8) :
    (contentObject (stringLiteral s)).texts.flatten.length ≤ 2*s.length+14 := by
  have hlen := escapedText_length s
  have hname : contentName.text.length=9 := by decide
  have htext : (stringLiteral s).text.length=(escapedText s).length+2 := by
    rw [Literal.text,stringLiteral_inner,List.length_cons,List.length_append,List.length_singleton]
  simp only [contentObject,Value.texts,Members.texts,Members.more,List.flatten_cons,
    List.flatten_append,List.length_append,List.length_cons,List.length_nil,List.flatten_nil,
    hname,htext]
  omega

theorem cut_length (s : List UInt8) : (cut s).length ≤ s.length := (List.takeWhile_prefix _).length_le

theorem bodyText_detokenize {body s : List UInt8} (hc : Content s)
    (h : Spells (tokensValue (s.map tokenOf)) body) {request : HttpRequest}
    (hp : Posts request body) (context : ApiContext) (response : HttpResponse) :
    bodyText (handleDetokenize context request response).2=
      (contentObject (stringLiteral
        (cut (if context.llmCtx then s else s.map fun c => c&&&0x7F)))).texts.flatten := by
  have hshort := hc.short
  have hne : s.map tokenOf≠[] := fun hnil => hc.nonempty (List.map_eq_nil_iff.mp hnil)
  have hmax : (s.map tokenOf).length ≤ maxTokens := by
    have h2048 : maxTokens=2048 := rfl
    rw [List.length_map]
    omega
  rw [handleDetokenize_tokens h hne hmax hp,detokenized_content hc]
  have htext : (if context.llmCtx then s else s.map fun c => c&&&0x7F).length=s.length := by
    split
    · rfl
    · exact List.length_map ..
  have hlen := contentObject_length (cut (if context.llmCtx then s else s.map fun c => c&&&0x7F))
  have hcut := cut_length (if context.llmCtx then s else s.map fun c => c&&&0x7F)
  have hsize : httpResponseBodySize=16384 := rfl
  apply bodyText_writeBody _ (contentItem _) (detokenizeCalls_item _)
  rw [contentItem_value]
  omega

/-- What a body stands for is what the parser of tokenize requests takes from it. -/
theorem HasContent.unique {body s s' : List UInt8} (h : HasContent body s)
    (h' : HasContent body s') (hs : s.length ≤ 1023) (hs' : s'.length ≤ 1023) : s=s' := by
  obtain ⟨req,hreq,hbytes⟩ := parse_content hs h
  obtain ⟨req',hreq',hbytes'⟩ := parse_content hs' h'
  rw [hreq] at hreq'
  injection hreq' with heq
  rw [← hbytes,← hbytes',heq]

/-- A text as the writer puts it into an object. -/
theorem hasContent_written (s : List UInt8) :
    HasContent (contentObject (stringLiteral s)).texts.flatten (s.filter keeps) :=
  ⟨stringLiteral s,spells_flatten _,decode_stringLiteral s⟩

/-- The content that comes back. -/
theorem hasContent_detokenize {body s : List UInt8} (hc : Content s)
    (h : Spells (tokensValue (s.map tokenOf)) body) {request : HttpRequest}
    (hp : Posts request body) (context : ApiContext) (response : HttpResponse) :
    HasContent (bodyText (handleDetokenize context request response).2) s ↔
      context.llmCtx=true ∨ ∀ c∈s,c < 0x80 := by
  rw [bodyText_detokenize hc h hp]
  have hwritten := hasContent_written
    (cut (if context.llmCtx then s else s.map fun c => c&&&0x7F))
  by_cases hctx : context.llmCtx=true
  · rw [if_pos hctx,cut_of_not_mem hc.zero_not_mem] at hwritten ⊢
    rw [hc.filter] at hwritten
    exact iff_of_true hwritten (Or.inl hctx)
  · rw [if_neg hctx] at hwritten ⊢
    constructor
    · intro hcontent
      refine Or.inr fun c hmem => ?_
      have hshort := hc.short
      have hle := (List.length_filter_le keeps _).trans (cut_length (s.map fun c => c&&&0x7F))
      rw [List.length_map] at hle
      rw [hcontent.unique hwritten hshort (hle.trans hshort)] at hmem
      have hcut := List.takeWhile_subset _ (List.mem_of_mem_filter hmem)
      obtain ⟨d,-,rfl⟩ := List.mem_map.mp hcut
      exact masked_lt d
    · intro hlow
      have hlow := hlow.resolve_left hctx
      have hsame : (s.map fun c => c&&&0x7F)=s := by
        conv_rhs => rw [← List.map_id s]
        exact List.map_congr_left fun c hmem => masked_of_lt (hlow c hmem)
      rw [hsame,cut_of_not_mem hc.zero_not_mem] at hwritten ⊢
      rw [hc.filter] at hwritten
      exact hwritten

theorem post_fits : (cstr "POST").length < 16 := by
  repeat rw [cstr_ofList]
  decide

def postRequest (body : List UInt8) (h : body.length < httpRequestBodySize) : HttpRequest :=
  {HttpRequest.init with
    method := ⟨cstr "POST",post_fits⟩
    body := ⟨body,h⟩
    bodyLength := body.length}

theorem posts_postRequest (body : List UInt8) (h : body.length < httpRequestBodySize) :
    Posts (postRequest body h) body := by
  have hpost : 0∉cstr "POST" := by
    repeat rw [cstr_ofList]
    decide
  exact ⟨cut_of_not_mem hpost,rfl,rfl⟩

/-- A response of zeros. -/
def blankResponse : HttpResponse where
  statusCode := 0
  headers := .zero 1024
  body := .zero httpResponseBodySize
  bodyLength := 0
  headers_nul := List.mem_replicate.mpr ⟨by decide,rfl⟩
  body_fits := Nat.zero_le _

/-- The content goes through both handlers and back when there is a context or no byte has its
high bit set. -/
theorem roundTrip_back {context : ApiContext} {s : List UInt8} (hc : Content s)
    (h : context.llmCtx=true ∨ ∀ c∈s,c < 0x80) : RoundTrips context s := by
  intro body request response hbody hp
  rw [bodyText_tokenize hc hbody hp]
  refine ⟨?_,fun request' response' hp' => ?_⟩
  · have hlen := tokensValue_length s
    have hshort := hc.short
    have hsize : httpRequestBodySize=8192 := rfl
    omega
  · exact (hasContent_detokenize hc (spells_flatten _) hp' context response').mpr h

/-- And is another one otherwise. -/
theorem roundTrip_lost {context : ApiContext} {s : List UInt8} (hc : Content s)
    (h : RoundTrips context s) : context.llmCtx=true ∨ ∀ c∈s,c < 0x80 := by
  have hbody := hasContent_written s
  rw [hc.filter] at hbody
  have hlen := contentObject_length s
  have hshort := hc.short
  have hsize : httpRequestBodySize=8192 := rfl
  have hfits : (contentObject (stringLiteral s)).texts.flatten.length < httpRequestBodySize := by
    omega
  have hp := posts_postRequest _ hfits
  obtain ⟨htokens,hback⟩ := h _ _ blankResponse hbody hp
  have hp' := posts_postRequest _ htokens
  have hspells : Spells (tokensValue (s.map tokenOf))
      (bodyText (handleTokenize context (postRequest _ hfits) blankResponse).2) := by
    rw [bodyText_tokenize hc hbody hp]
    exact spells_flatten _
  exact (hasContent_detokenize hc hspells hp' context blankResponse).mp (hback _ _ hp')

theorem roundTrips_iff {s : List UInt8} (hc : Content s) (context : ApiContext) :
    RoundTrips context s ↔ context.llmCtx=true ∨ ∀ c∈s,c < 0x80 :=
  ⟨roundTrip_lost hc,roundTrip_back hc⟩

/-- No context is loaded. -/
def noModel : ApiContext := ⟨false,0,0⟩

theorem content_hi : Content (cstr "hi") :=
  ⟨by decide,by decide +kernel,by decide +kernel⟩

theorem roundTrips_iff_hi : RoundTrips noModel (cstr "hi") :=
  (roundTrips_iff content_hi noModel).mpr (Or.inr (by decide +kernel))

/-- The two bytes of e with an acute accent. -/
theorem accent_lost : Content [0xC3,0xA9] ∧ ¬RoundTrips noModel [0xC3,0xA9] := by
  have hc : Content [0xC3,0xA9] := ⟨by decide,by decide,by decide +kernel⟩
  refine ⟨hc,fun h => ?_⟩
  have hlow := (roundTrip_lost hc h).resolve_left (by decide)
  exact absurd (hlow 0xC3 List.mem_cons_self) (by decide)

end Cllm.Api
