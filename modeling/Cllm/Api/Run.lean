import Cllm.Api.Requests
import Cllm.Json.Budget

namespace Cllm.Api

open Libc Json Trace

variable {δ φ R : Type} [Double δ φ]

abbrev TracedHandler (δ R : Type) := (fuel : Nat) → Parser δ → R → Run (Parser δ × R)

/-- What `set` makes of the request, once a value has been read. -/
def Run.assign {α : Type} (set : R → α → R) (r : R) (x : Run (α × Parser δ)) :
    Run (Parser δ × R) := do
  let v ← x
  pure (v.2,set r v.1)

theorem Run.assign_result {α : Type} (set : R → α → R) (r : R) (x : Run (α × Parser δ)) :
    (assign set r x).result=x.result.map fun v => (v.2,set r v.1) := by
  rw [assign,Traced.result_bind]
  cases x.result <;> rfl

/-- A branch of a chain of strcmp, with its events: it does what the handler does, keeps to the
budget, and keeps what has to hold of a request. -/
structure Member (δ : Type) {φ R : Type} [Double δ φ] (Inv : R → Prop) where
  name : List UInt8
  handler : Handler δ R
  traced : TracedHandler δ R
  result_eq : ∀ fuel p r,(traced fuel p r).result=handler fuel p r
  spec : ∀ {fuel p r b},Ready p b → Inv r → 2*b+1 ≤ fuel →
    parsing.Triple b (traced fuel p r) fun x c => Ready x.1 c ∧ Inv x.2

namespace Member

variable {Inv : R → Prop}

theorem assign_spec {α : Type} {set : R → α → R} (hset : ∀ r v,Inv r → Inv (set r v))
    {x : Run (α × Parser δ)} {r : R} {b : Nat} (hr : Inv r)
    (hx : parsing.Triple b x fun v c => Ready v.2 c ∧ c < b) :
    parsing.Triple b (Run.assign set r x) fun x c => Ready x.1 c ∧ Inv x.2 := by
  refine hx.bind fun v c _ hv => ?_
  exact .pure ⟨hv.1,hset r v.1 hr⟩

theorem string_result (size : Nat) (h : 0 < size) (set : R → CField size → R) (fuel : Nat)
    (p : Parser δ) (r : R) : (Run.assign set r (Run.jsonParseString size h p)).result=
      stringMember size h set fuel p r := by
  rw [Run.assign_result,Run.jsonParseString_result,stringMember]
  cases jsonParseString size h p <;> rfl

theorem float_result (set : R → φ → R) (fuel : Nat) (p : Parser δ) (r : R) :
    (Run.assign (fun r v => set r (Double.toFloat v)) r (Run.jsonParseNumber p)).result=
      floatMember set fuel p r := by
  rw [Run.assign_result,Run.jsonParseNumber_result,floatMember]
  cases jsonParseNumber p <;> rfl

theorem int_result (set : R → Int32 → R) (fuel : Nat) (p : Parser δ) (r : R) :
    (Run.assign set r (Run.jsonParseInt p)).result=intMember set fuel p r := by
  rw [Run.assign_result,Run.jsonParseInt_result,intMember]
  cases jsonParseInt p <;> rfl

theorem bool_result (set : R → Bool → R) (fuel : Nat) (p : Parser δ) (r : R) :
    (Run.assign set r (Run.jsonParseBool p)).result=boolMember set fuel p r := by
  rw [Run.assign_result,Run.jsonParseBool_result,boolMember]
  cases jsonParseBool p <;> rfl

def string (name : List UInt8) (size : Nat) (h : 0 < size) (set : R → CField size → R)
    (hset : ∀ r v,Inv r → Inv (set r v)) : Member δ Inv where
  name := name
  handler := stringMember size h set
  traced := fun _ p r => Run.assign set r (Run.jsonParseString size h p)
  result_eq := string_result size h set
  spec hp hr _ := assign_spec hset hr (Run.jsonParseString_spec size h hp)

def float (name : List UInt8) (set : R → φ → R) (hset : ∀ r v,Inv r → Inv (set r v)) :
    Member δ Inv where
  name := name
  handler := floatMember set
  traced := fun _ p r => Run.assign (fun r v => set r (Double.toFloat v)) r (Run.jsonParseNumber p)
  result_eq := float_result set
  spec hp hr _ := assign_spec (fun r _ => hset r _) hr (Run.jsonParseNumber_spec hp)

def int (name : List UInt8) (set : R → Int32 → R) (hset : ∀ r v,Inv r → Inv (set r v)) :
    Member δ Inv where
  name := name
  handler := intMember set
  traced := fun _ p r => Run.assign set r (Run.jsonParseInt p)
  result_eq := int_result set
  spec hp hr _ := assign_spec hset hr (Run.jsonParseInt_spec hp)

def bool (name : List UInt8) (set : R → Bool → R) (hset : ∀ r v,Inv r → Inv (set r v)) :
    Member δ Inv where
  name := name
  handler := boolMember set
  traced := fun _ p r => Run.assign set r (Run.jsonParseBool p)
  result_eq := bool_result set
  spec hp hr _ := assign_spec hset hr (Run.jsonParseBool_spec hp)

/-- What dispatch makes of the members. -/
def handlers (members : List (Member δ Inv)) : List (List UInt8 × Handler δ R) :=
  members.map fun m => (m.name,m.handler)

end Member

namespace Run

variable {Inv : R → Prop}

def skippedMember : TracedHandler δ R := fun fuel p r => do
  let q ← Run.jsonSkipValue fuel p
  pure (q,r)

def dispatch : List (Member δ Inv) → (key : List UInt8) → TracedHandler δ R
  | [],_ => skippedMember
  | m::members,key => if strcmp key m.name=0 then m.traced else dispatch members key

def parseMembers (keySize : Nat) (hk : 0 < keySize) (members : List (Member δ Inv)) :
    TracedHandler δ R
  | 0,_,_ => .fail .fuel
  | fuel+1,p,r =>
    if p.current=.rbrace ∨ p.current=.eof then pure (p,r)
    else do
      let key ← Run.jsonParseString keySize hk p
      if key.2.current≠.colon then .fail .invalid
      else do
        let q ← Run.jsonNextToken key.2
        let x ← dispatch members key.1.bytes fuel q r
        let q ← Run.skipComma x.1
        parseMembers keySize hk members fuel q x.2

theorem skippedMember_result (fuel : Nat) (p : Parser δ) (r : R) :
    (skippedMember fuel p r).result=Api.skippedMember fuel p r := by
  rw [skippedMember,Api.skippedMember,Traced.result_bind,(Run.skip_results fuel).1]
  cases Json.jsonSkipValue fuel p <;> rfl

theorem dispatch_result (members : List (Member δ Inv)) (key : List UInt8) (fuel : Nat)
    (p : Parser δ) (r : R) : (dispatch members key fuel p r).result=
      Api.dispatch (Member.handlers members) key fuel p r := by
  induction members with
  | nil => exact skippedMember_result fuel p r
  | cons m members ih =>
    rw [dispatch,Member.handlers,List.map_cons,Api.dispatch]
    split_ifs
    · exact m.result_eq fuel p r
    · exact ih

theorem parseMembers_result (keySize : Nat) (hk : 0 < keySize) (members : List (Member δ Inv))
    (fuel : Nat) (p : Parser δ) (r : R) : (parseMembers keySize hk members fuel p r).result=
      Api.parseMembers keySize hk (Member.handlers members) fuel p r := by
  induction fuel generalizing p r with
  | zero => rfl
  | succ fuel ih =>
    rw [parseMembers,Api.parseMembers]
    by_cases hend : p.current=.rbrace ∨ p.current=.eof
    · rw [if_pos hend,if_pos hend]
      rfl
    · rw [if_neg hend,if_neg hend,Traced.result_bind,Run.jsonParseString_result]
      cases Json.jsonParseString keySize hk p with
      | error e => rfl
      | ok key =>
        change (if key.2.current≠.colon then _ else _ : Run (Parser δ × R)).result=_
        by_cases hc : key.2.current≠.colon
        · simp only [if_pos hc]
          rfl
        · simp only [if_neg hc]
          rw [Traced.result_bind]
          change (dispatch members key.1.bytes fuel (Json.jsonNextToken key.2) r >>= _).result=_
          rw [Traced.result_bind,dispatch_result]
          cases Api.dispatch (Member.handlers members) key.1.bytes fuel
              (Json.jsonNextToken key.2) r with
          | error e => rfl
          | ok x =>
            change (Run.skipComma x.1 >>= _).result=_
            rw [Traced.result_bind,Run.skipComma_result]
            exact ih _ _

theorem dispatch_spec (members : List (Member δ Inv)) (key : List UInt8) {fuel : Nat}
    {p : Parser δ} {r : R} {b : Nat} (hp : Ready p b) (hr : Inv r) (hf : 2*b+1 ≤ fuel) :
    parsing.Triple b (dispatch members key fuel p r) fun x c => Ready x.1 c ∧ Inv x.2 := by
  induction members with
  | nil =>
    refine ((Run.skip_spec fuel).1 hp hf).bind fun q c _ hq => ?_
    exact .pure ⟨hq.1,hr⟩
  | cons m members ih =>
    rw [dispatch]
    split_ifs
    · exact m.spec hp hr hf
    · exact ih

theorem parseMembers_spec (keySize : Nat) (hk : 0 < keySize) (members : List (Member δ Inv))
    (fuel : Nat) {p : Parser δ} {r : R} {b : Nat} (hp : Ready p b) (hr : Inv r)
    (hf : 2*b+2 ≤ fuel) : parsing.Triple b (parseMembers keySize hk members fuel p r) fun x c =>
      Ready x.1 c ∧ Inv x.2 := by
  induction fuel generalizing p r b with
  | zero => omega
  | succ fuel ih =>
    rw [parseMembers]
    by_cases hend : p.current=.rbrace ∨ p.current=.eof
    · rw [if_pos hend]
      exact .pure ⟨hp,hr⟩
    · rw [if_neg hend]
      refine (Run.jsonParseString_spec keySize hk hp).bind fun key c _ hkey => ?_
      split_ifs with hc
      · exact .fail rfl
      · have hc' := not_not.mp hc
        have hnext := Run.jsonNextToken_spec hkey.1 (by rw [hc']; decide) (by rw [hc']; decide)
        refine hnext.bind fun q c₁ _ hq => ?_
        refine (dispatch_spec members key.1.bytes hq.1 hr (by omega)).bind fun x c₂ _ hx => ?_
        refine (Run.skipComma_spec hx.1).bind fun q c₃ _ hq => ?_
        exact ih hq hx.2 (by omega)

section Elements

variable (full : R → Prop) [DecidablePred full]

def parseElements
    (element : (fuel : Nat) → Parser δ → (r : R) → ¬full r → Run (Parser δ × R)) :
    TracedHandler δ R
  | 0,_,_ => .fail .fuel
  | fuel+1,p,r =>
    if p.current=.rbracket then do
      let q ← Run.jsonNextToken p
      pure (q,r)
    else if p.current=.eof then pure (p,r)
    else if h : full r then pure (p,r)
    else do
      let x ← element fuel p r h
      let q ← Run.skipComma x.1
      parseElements element fuel q x.2

def arrayMember
    (element : (fuel : Nat) → Parser δ → (r : R) → ¬full r → Run (Parser δ × R)) :
    TracedHandler δ R := fun fuel p r =>
  if p.current≠.lbracket then .fail .invalid
  else do
    let q ← Run.jsonNextToken p
    parseElements full element fuel q r

variable {full}
  {element : (fuel : Nat) → Parser δ → (r : R) → ¬full r → Run (Parser δ × R)}
  {element' : (fuel : Nat) → Parser δ → (r : R) → ¬full r → Except Fault (Parser δ × R)}

theorem parseElements_result
    (he : ∀ fuel p r h,(element fuel p r h).result=element' fuel p r h)
    (fuel : Nat) (p : Parser δ) (r : R) : (parseElements full element fuel p r).result=
      Api.parseElements full element' fuel p r := by
  induction fuel generalizing p r with
  | zero => rfl
  | succ fuel ih =>
    rw [parseElements,Api.parseElements]
    split_ifs with hb heof hfull
    · rfl
    · rfl
    · rfl
    · rw [Traced.result_bind,he]
      cases element' fuel p r hfull with
      | error e => rfl
      | ok x =>
        change (Run.skipComma x.1 >>= _).result=_
        rw [Traced.result_bind,Run.skipComma_result]
        exact ih _ _

theorem arrayMember_result
    (he : ∀ fuel p r h,(element fuel p r h).result=element' fuel p r h)
    (fuel : Nat) (p : Parser δ) (r : R) : (arrayMember full element fuel p r).result=
      Api.arrayMember full element' fuel p r := by
  rw [arrayMember,Api.arrayMember]
  split_ifs
  · rfl
  · rw [Traced.result_bind]
    exact parseElements_result he fuel _ r

/-- An element takes at least one call. -/
def ElementSpec (Inv : R → Prop)
    (element : (fuel : Nat) → Parser δ → (r : R) → ¬full r → Run (Parser δ × R)) : Prop :=
  ∀ {fuel p r b} (h : ¬full r),Ready p b → Inv r → 2*b+1 ≤ fuel →
    parsing.Triple b (element fuel p r h) fun x c => Ready x.1 c ∧ Inv x.2 ∧ c < b

theorem parseElements_spec (he : ElementSpec Inv element) (fuel : Nat) {p : Parser δ} {r : R}
    {b : Nat} (hp : Ready p b) (hr : Inv r) (hf : 2*b+2 ≤ fuel) :
    parsing.Triple b (parseElements full element fuel p r) fun x c =>
      Ready x.1 c ∧ Inv x.2 := by
  induction fuel generalizing p r b with
  | zero => omega
  | succ fuel ih =>
    rw [parseElements]
    split_ifs with hb heof hfull
    · have hnext := Run.jsonNextToken_spec hp (by rw [hb]; decide) (by rw [hb]; decide)
      refine hnext.bind fun q c _ hq => ?_
      exact .pure ⟨hq.1,hr⟩
    · exact .pure ⟨hp,hr⟩
    · exact .pure ⟨hp,hr⟩
    · refine (he hfull hp hr (by omega)).bind fun x c _ hx => ?_
      refine (Run.skipComma_spec hx.1).bind fun q c₁ _ hq => ?_
      exact ih hq hx.2.1 (by omega)

theorem arrayMember_spec (he : ElementSpec Inv element) {fuel : Nat} {p : Parser δ} {r : R}
    {b : Nat} (hp : Ready p b) (hr : Inv r) (hf : 2*b+1 ≤ fuel) :
    parsing.Triple b (arrayMember full element fuel p r) fun x c => Ready x.1 c ∧ Inv x.2 := by
  rw [arrayMember]
  split_ifs with hb
  · exact .fail rfl
  · have hb' := not_not.mp hb
    have hnext := Run.jsonNextToken_spec hp (by rw [hb']; decide) (by rw [hb']; decide)
    refine hnext.bind fun q c _ hq => ?_
    exact parseElements_spec he fuel hq.1 hr (by omega)

end Elements

def parseRequest (members : List (Member δ Inv)) (init : R) (body : List UInt8) (len : Nat) :
    Run R := do
  let p ← Run.jsonNextToken (Parser.init body len)
  if p.current≠.lbrace then .fail .invalid
  else do
    let q ← Run.jsonNextToken p
    let x ← parseMembers 64 key_pos members (2*len) q init
    pure x.2

theorem parseRequest_result (members : List (Member δ Inv)) (init : R) (body : List UInt8)
    (len : Nat) : (parseRequest members init body len).result=
      Api.parseRequest (Member.handlers members) init body len := by
  rw [parseRequest,Api.parseRequest,Traced.result_bind]
  change (if (Json.jsonNextToken (Parser.init body len)).current≠.lbrace then _ else _ :
    Run R).result=_
  by_cases hb : (Json.jsonNextToken (Parser.init body len : Parser δ)).current≠.lbrace
  · simp only [if_pos hb]
    rfl
  · simp only [if_neg hb]
    rw [Traced.result_bind]
    change (parseMembers 64 key_pos members (2*len) _ init >>= _).result=_
    rw [Traced.result_bind,parseMembers_result]
    cases Api.parseMembers 64 key_pos (Member.handlers members) (2*len)
        (Json.jsonNextToken (Json.jsonNextToken (Parser.init body len))) init <;> rfl

/-- A request parser calls json_next_token at most `len`+1 times, writes inside its arrays only,
and returns. -/
theorem parseRequest_spec (members : List (Member δ Inv)) (init : R) (hinit : Inv init)
    (body : List UInt8) {len : Nat} (h : len ≤ body.length) :
    parsing.Triple (len+1) (parseRequest members init body len) fun r _ => Inv r := by
  refine (Run.init_spec body h).bind fun p c _ hp => ?_
  split_ifs with hb
  · exact .fail rfl
  · have hb' := not_not.mp hb
    have hnext := Run.jsonNextToken_spec hp.1 (by rw [hb']; decide) (by rw [hb']; decide)
    refine hnext.bind fun q c₁ _ hq => ?_
    refine (parseMembers_spec 64 key_pos members (2*len) hq.1 hinit (by omega)).bind
      fun x c₂ _ hx => ?_
    exact .pure hx.2

end Run

/-- A branch over an array. -/
def Member.array {Inv : R → Prop} (name : List UInt8) (full : R → Prop) [DecidablePred full]
    (element' : (fuel : Nat) → Parser δ → (r : R) → ¬full r → Except Fault (Parser δ × R))
    (element : (fuel : Nat) → Parser δ → (r : R) → ¬full r → Run (Parser δ × R))
    (he : ∀ fuel p r h,(element fuel p r h).result=element' fuel p r h)
    (hs : Run.ElementSpec Inv element) : Member δ Inv where
  name := name
  handler := arrayMember full element'
  traced := Run.arrayMember full element
  result_eq := Run.arrayMember_result he
  spec := Run.arrayMember_spec hs

/-- What the parsers see to for max_tokens. -/
def InRange (n : Int32) : Prop := 0 ≤ n ∧ n ≤ maxGenerationTokens

theorem clampTokens_inRange (v : Int32) : InRange (clampTokens v) := by
  rw [clampTokens]
  split_ifs with h
  · exact ⟨by decide,by decide⟩
  · rw [not_or] at h
    exact ⟨Int32.not_lt.mp h.1,Int32.not_lt.mp h.2⟩

theorem default_inRange : InRange 64 := ⟨by decide,by decide⟩

section Tables

variable (δ φ : Type) [Double δ φ]

def completionTable : List (Member δ fun req : CompletionRequest φ => InRange req.maxTokens) :=
  [.string (cstr "prompt") _ maxPromptLength_pos (fun req v => {req with prompt := v})
     fun _ _ h => h,
   .string (cstr "model") _ maxModelIdLength_pos (fun req v => {req with model := v})
     fun _ _ h => h,
   .int (cstr "max_tokens") (fun req v => {req with maxTokens := clampTokens v})
     fun _ v _ => clampTokens_inRange v,
   .float (cstr "temperature") (fun req v => {req with temperature := v}) fun _ _ h => h,
   .float (cstr "top_p") (fun req v => {req with topP := v}) fun _ _ h => h,
   .int (cstr "top_k") (fun req v => {req with topK := v}) fun _ _ h => h,
   .float (cstr "frequency_penalty") (fun req v => {req with frequencyPenalty := v})
     fun _ _ h => h,
   .float (cstr "presence_penalty") (fun req v => {req with presencePenalty := v})
     fun _ _ h => h,
   .bool (cstr "stream") (fun req v => {req with stream := v}) fun _ _ h => h,
   .int (cstr "seed") (fun req v => {req with seed := v}) fun _ _ h => h,
   .bool (cstr "echo") (fun req v => {req with echo := v}) fun _ _ h => h,
   .int (cstr "n") (fun req v => {req with n := v}) fun _ _ h => h]

def messageTable : List (Member δ fun _ : ChatMessage => True) :=
  [.string (cstr "role") _ role_pos (fun msg v => {msg with role := v}) fun _ _ h => h,
   .string (cstr "content") _ maxPromptLength_pos (fun msg v => {msg with content := v})
     fun _ _ h => h]

variable {δ φ}

theorem message_room {req : ChatCompletionRequest φ}
    (h : ¬maxChatMessages ≤ req.messages.1.length) :
    req.messages.1.length < maxChatMessages := Nat.lt_of_not_le h

theorem token_room {req : DetokenizeRequest} (h : ¬maxTokens ≤ req.tokens.1.length) :
    req.tokens.1.length < maxTokens := Nat.lt_of_not_le h

/-- The writes through `msg` are writes to the entry that it points to. -/
def Run.messageElement (fuel : Nat) (p : Parser δ) (req : ChatCompletionRequest φ)
    (h : ¬maxChatMessages ≤ req.messages.1.length) : Run (Parser δ × ChatCompletionRequest φ) :=
  if p.current≠.lbrace then .fail .invalid
  else do
    let q ← Run.jsonNextToken p
    let msg ← .emit [.entry maxChatMessages req.messages.1.length,.byte 16 0 0,
      .byte maxPromptLength 0 0] .empty
    let x ← Run.parseMembers 32 messageKey_pos (messageTable δ φ) fuel q msg
    if x.1.current=.rbrace then do
      let q ← Run.jsonNextToken x.1
      pure (q,{req with messages := pushEntry req.messages x.2 (message_room h)})
    else pure (x.1,req)

def Run.tokenElement (_fuel : Nat) (p : Parser δ) (req : DetokenizeRequest)
    (h : ¬maxTokens ≤ req.tokens.1.length) : Run (Parser δ × DetokenizeRequest) := do
  let token ← Run.jsonParseInt p
  .emit [.entry maxTokens req.tokens.1.length]
    (token.2,{tokens := pushEntry req.tokens token.1 (token_room h)})

theorem Run.messageElement_result (fuel : Nat) (p : Parser δ) (req : ChatCompletionRequest φ)
    (h : ¬maxChatMessages ≤ req.messages.1.length) :
    (Run.messageElement fuel p req h).result=Api.messageElement fuel p req h := by
  rw [Run.messageElement,Api.messageElement]
  by_cases hb : p.current≠.lbrace
  · rw [if_pos hb,if_pos hb]
    rfl
  · rw [if_neg hb,if_neg hb,Traced.result_bind]
    change (Traced.emit _ _ >>= _ : Run (Parser δ × ChatCompletionRequest φ)).result=_
    rw [Traced.result_bind]
    change (Run.parseMembers 32 messageKey_pos (messageTable δ φ) fuel _ _ >>= _ :
      Run (Parser δ × ChatCompletionRequest φ)).result=_
    rw [Traced.result_bind,Run.parseMembers_result]
    change Except.bind (Api.parseMembers 32 messageKey_pos messageMembers fuel _ .empty) _=_
    cases Api.parseMembers 32 messageKey_pos messageMembers fuel (jsonNextToken p) .empty with
    | error e => rfl
    | ok x =>
      change (if x.1.current=.rbrace then _ else _ :
        Run (Parser δ × ChatCompletionRequest φ)).result=_
      by_cases hc : x.1.current=.rbrace
      · simp only [if_pos hc]
        rfl
      · simp only [if_neg hc]
        rfl

theorem Run.tokenElement_result (fuel : Nat) (p : Parser δ) (req : DetokenizeRequest)
    (h : ¬maxTokens ≤ req.tokens.1.length) :
    (Run.tokenElement fuel p req h).result=Api.tokenElement fuel p req h := by
  rw [Run.tokenElement,Api.tokenElement,Traced.result_bind,Run.jsonParseInt_result]
  cases jsonParseInt p <;> rfl

theorem Run.messageElement_spec : Run.ElementSpec
    (fun req : ChatCompletionRequest φ => InRange req.maxTokens)
    (Run.messageElement (δ := δ)) := by
  intro fuel p req b h hp hr hf
  rw [Run.messageElement]
  split_ifs with hb
  · exact .fail rfl
  · have hb' := not_not.mp hb
    have hnext := Run.jsonNextToken_spec hp (by rw [hb']; decide) (by rw [hb']; decide)
    refine hnext.bind fun q c _ hq => ?_
    have hroom := message_room h
    have hstart : parsing.Triple c (.emit [.entry maxChatMessages req.messages.1.length,
        .byte 16 0 0,.byte maxPromptLength 0 0] ChatMessage.empty) fun _ c' => c'=c := by
      apply Contract.Triple.emit
      · intro e he
        simp only [List.mem_cons,List.not_mem_nil,or_false] at he
        obtain rfl | rfl | rfl := he
        · exact hroom
        · exact role_pos
        · exact maxPromptLength_pos
      · exact Nat.zero_le _
      · rfl
    refine hstart.bind fun msg c' _ hc' => ?_
    subst hc'
    refine (Run.parseMembers_spec 32 messageKey_pos (messageTable δ φ) fuel hq.1 trivial
      (by omega)).bind fun x c₁ _ hx => ?_
    split_ifs with hclose
    · have hnext' := Run.jsonNextToken_spec hx.1 (by rw [hclose]; decide) (by rw [hclose]; decide)
      refine hnext'.bind fun q c₂ _ hq' => ?_
      exact .pure ⟨hq'.1,hr,by omega⟩
    · exact .pure ⟨hx.1,hr,by omega⟩

theorem Run.tokenElement_spec : Run.ElementSpec (fun _ : DetokenizeRequest => True)
    (Run.tokenElement (δ := δ)) := by
  intro fuel p req b h hp hr hf
  have hroom := token_room h
  refine (Run.jsonParseInt_spec hp).bind fun token c _ hq => ?_
  apply Contract.Triple.emit
  · intro e he
    rw [List.mem_singleton.mp he]
    exact hroom
  · exact Nat.zero_le _
  · exact ⟨hq.1,trivial,hq.2⟩

variable (δ φ)

def chatTable : List (Member δ fun req : ChatCompletionRequest φ => InRange req.maxTokens) :=
  [.array (cstr "messages") (fun req => maxChatMessages ≤ req.messages.1.length) messageElement
     Run.messageElement Run.messageElement_result Run.messageElement_spec,
   .string (cstr "model") _ maxModelIdLength_pos (fun req v => {req with model := v})
     fun _ _ h => h,
   .int (cstr "max_tokens") (fun req v => {req with maxTokens := clampTokens v})
     fun _ v _ => clampTokens_inRange v,
   .float (cstr "temperature") (fun req v => {req with temperature := v}) fun _ _ h => h,
   .float (cstr "top_p") (fun req v => {req with topP := v}) fun _ _ h => h,
   .bool (cstr "stream") (fun req v => {req with stream := v}) fun _ _ h => h]

def tokenizeTable : List (Member δ fun _ : TokenizeRequest => True) :=
  [.string (cstr "content") _ maxPromptLength_pos (fun req v => {req with content := v})
     fun _ _ h => h,
   .bool (cstr "add_special") (fun req v => {req with addSpecial := v}) fun _ _ h => h]

def detokenizeTable : List (Member δ fun _ : DetokenizeRequest => True) :=
  [.array (cstr "tokens") (fun req => maxTokens ≤ req.tokens.1.length) tokenElement
     Run.tokenElement Run.tokenElement_result Run.tokenElement_spec]

def embeddingTable : List (Member δ fun _ : EmbeddingRequest => True) :=
  [.string (cstr "input") _ maxPromptLength_pos (fun req v => {req with input := v})
     fun _ _ h => h,
   .string (cstr "model") _ maxModelIdLength_pos (fun req v => {req with model := v})
     fun _ _ h => h]

end Tables

namespace Run

variable (δ : Type) {φ : Type} [Double δ φ] (body : List UInt8) (len : Nat)

def parseCompletionRequest : Run (CompletionRequest φ) :=
  parseRequest (completionTable δ φ) (.init δ) body len

def parseChatRequest : Run (ChatCompletionRequest φ) :=
  parseRequest (chatTable δ φ) (.init δ) body len

def parseTokenizeRequest : Run TokenizeRequest :=
  parseRequest (tokenizeTable δ φ) .init body len

def parseDetokenizeRequest : Run DetokenizeRequest :=
  parseRequest (detokenizeTable δ φ) .init body len

def parseEmbeddingRequest : Run EmbeddingRequest :=
  parseRequest (embeddingTable δ φ) .init body len

theorem parseCompletionRequest_result :
    (parseCompletionRequest δ body len).result=Api.parseCompletionRequest δ body len :=
  parseRequest_result (completionTable δ φ) _ body len

theorem parseChatRequest_result :
    (parseChatRequest δ body len).result=Api.parseChatRequest δ body len :=
  parseRequest_result (chatTable δ φ) _ body len

theorem parseTokenizeRequest_result :
    (parseTokenizeRequest δ body len).result=Api.parseTokenizeRequest δ body len :=
  parseRequest_result (tokenizeTable δ φ) _ body len

theorem parseDetokenizeRequest_result :
    (parseDetokenizeRequest δ body len).result=Api.parseDetokenizeRequest δ body len :=
  parseRequest_result (detokenizeTable δ φ) _ body len

theorem parseEmbeddingRequest_result :
    (parseEmbeddingRequest δ body len).result=Api.parseEmbeddingRequest δ body len :=
  parseRequest_result (embeddingTable δ φ) _ body len

end Run

end Cllm.Api
