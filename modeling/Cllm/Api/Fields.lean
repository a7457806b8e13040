import Cllm.Api.Accepting

namespace Cllm.Api

open Libc Json Rfc8259

variable {δ φ R : Type} [Double δ φ] {room : R → Nat}

/-- A token at which the loop over the members gives up. -/
abbrev Blocking (t : Token) : Prop := t≠.comma ∧ t≠.rbrace ∧ t≠.eof ∧ t≠.string

/-- A member that a parser knows: the values it expects, the entries they take of the room that
the request has, what they make of the request, and what `keep` leaves of them when all that the
parser does not know is removed. -/
structure Field (δ : Type) {φ R : Type} [Double δ φ] (room : R → Nat) where
  name : List UInt8
  handler : Handler δ R
  admits : Value → Prop
  cost : Value → Nat
  meaning : Value → R → R
  keep : Value → Value
  runs : ∀ {v s rest r fuel} {p : Parser δ},admits v → cost v ≤ room r → Spaced v.texts s rest →
    Delimited rest → Sees p s → 2*s.length+1 ≤ fuel →
    ∃ q,handler fuel p r=.ok (q,meaning v r) ∧ Sees q rest
  overflows : ∀ {v s rest r fuel} {p : Parser δ},admits v → room r<cost v → Spaced v.texts s rest →
    Sees p s → 2*s.length+1 ≤ fuel → ∃ q r',handler fuel p r=.ok (q,r') ∧ Blocking q.current
  room_meaning : ∀ {v r},admits v → cost v ≤ room r → room (meaning v r)+cost v=room r
  keep_same : ∀ {v},admits v →
    admits (keep v) ∧ cost (keep v)=cost v ∧ ∀ r,meaning (keep v) r=meaning v r

namespace Field

/-- The bytes of string_buf for a literal. -/
def buffered (l : Literal) : List UInt8 := (lexed l).take (stringBufSize-1)

theorem sees_literal {l : Literal} {s rest : List UInt8} {p : Parser δ}
    (h : Spaced [l.text] s rest) (hp : Sees p s) :
    p.current=.string ∧ p.stringBuf.bytes=buffered l ∧ Sees (jsonNextToken p) rest := by
  obtain ⟨w,s',hw,rfl,rfl⟩ := h
  have hl := lex_literal hw l s'
  have hc : p.current=.string := hp.current.trans (by rw [hl])
  have hn := hp.next (by rw [hl]; simp)
  rw [hl] at hn
  refine ⟨hc,?_,hn⟩
  rw [hp.string hc,stringAt_literal hw]
  rfl

theorem sees_numeral {n : Numeral} {s rest : List UInt8} {p : Parser δ}
    (h : Spaced [n.text] s rest) (hr : Delimited rest) (hp : Sees p s) :
    p.current=.number ∧ p.numberValue=numberValue n.text ∧ Sees (jsonNextToken p) rest := by
  obtain ⟨w,s',hw,rfl,rfl⟩ := h
  have hl := lex_numeral hw n hr
  have hc : p.current=.number := hp.current.trans (by rw [hl])
  have hn := hp.next (by rw [hl]; simp)
  rw [hl] at hn
  refine ⟨hc,?_,hn⟩
  rw [hp.number hc,numberAt_numeral hw n hr]

theorem sees_bool {b : Bool} {s rest : List UInt8} {p : Parser δ}
    (h : Spaced [boolText b] s rest) (hp : Sees p s) :
    p.current=(if b then .true else .false) ∧ Sees (jsonNextToken p) rest := by
  obtain ⟨w,s',hw,rfl,rfl⟩ := h
  have hl : lex (w++(boolText b++s'))=(if b then .true else .false,s') := by
    cases b
    · exact lex_word (c := 102) hw rfl s'
    · exact lex_word (c := 116) hw rfl s'
  have hn := hp.next (by rw [hl]; cases b <;> simp)
  rw [hl] at hn
  exact ⟨hp.current.trans (by rw [hl]),hn⟩

/-- A member whose value is one token, with `value` what the parser expects there. -/
def scalar {α : Type} (name : List UInt8) (handler : Handler δ R) (value : Value → Option α)
    (set : R → α → R) (hset : ∀ r a,room (set r a)=room r)
    (hrun : ∀ {v a s rest} {p : Parser δ} (fuel r),value v=some a → Spaced v.texts s rest →
      Delimited rest → Sees p s → handler fuel p r=.ok (jsonNextToken p,set r a) ∧
      Sees (jsonNextToken p) rest) : Field δ room where
  name := name
  handler := handler
  admits v := (value v).isSome
  cost _ := 0
  meaning v r :=
    match value v with
    | some a => set r a
    | none => r
  keep v := v
  runs := by
    intro v s rest r fuel p hv _ hs hr hp _
    obtain ⟨a,ha⟩ := Option.isSome_iff_exists.mp hv
    obtain ⟨hq,hn⟩ := hrun fuel r ha hs hr hp
    refine ⟨jsonNextToken p,?_,hn⟩
    rw [hq,ha]
  overflows := fun _ h => absurd h (Nat.not_lt_zero _)
  room_meaning := by
    intro v r hv _
    obtain ⟨a,ha⟩ := Option.isSome_iff_exists.mp hv
    rw [ha]
    exact hset r a
  keep_same hv := ⟨hv,rfl,fun _ => rfl⟩

def string (name : List UInt8) (size : Nat) (h : 0 < size) (set : R → CField size → R)
    (hset : ∀ r v,room (set r v)=room r) : Field δ room :=
  scalar name (stringMember size h set) Value.asString
    (fun r l => set r (copyString size h (buffered l))) (fun r l => hset r _) <| by
    intro v l s rest p fuel r hv hs _ hp
    obtain rfl := Value.asString_eq_some.mp hv
    obtain ⟨hc,hb,hn⟩ := sees_literal hs hp
    refine ⟨?_,hn⟩
    rw [stringMember,jsonParseString,if_pos hc,hb]

def float (name : List UInt8) (set : R → φ → R) (hset : ∀ r v,room (set r v)=room r) :
    Field δ room :=
  scalar name (floatMember set) Value.asNumber
    (fun r n => set r (Double.toFloat (numberValue n.text : δ))) (fun r n => hset r _) <| by
    intro v n s rest p fuel r hv hs hr hp
    obtain rfl := Value.asNumber_eq_some.mp hv
    obtain ⟨hc,hb,hn⟩ := sees_numeral hs hr hp
    refine ⟨?_,hn⟩
    rw [floatMember,jsonParseNumber,if_pos hc,hb]

def int (name : List UInt8) (set : R → Int32 → R) (hset : ∀ r v,room (set r v)=room r) :
    Field δ room :=
  scalar name (intMember set) Value.asNumber
    (fun r n => set r (Double.toInt (numberValue n.text : δ))) (fun r n => hset r _) <| by
    intro v n s rest p fuel r hv hs hr hp
    obtain rfl := Value.asNumber_eq_some.mp hv
    obtain ⟨hc,hb,hn⟩ := sees_numeral hs hr hp
    refine ⟨?_,hn⟩
    rw [intMember,jsonParseInt,if_pos hc,hb]

def bool (name : List UInt8) (set : R → Bool → R) (hset : ∀ r v,room (set r v)=room r) :
    Field δ room :=
  scalar name (boolMember set) Value.asBool set hset <| by
    intro v b s rest p fuel r hv hs _ hp
    obtain rfl := Value.asBool_eq_some.mp hv
    obtain ⟨hc,hn⟩ := sees_bool hs hp
    refine ⟨?_,hn⟩
    rw [boolMember,jsonParseBool,hc]
    cases b <;> rfl

end Field

section Members

variable (fields : List (Field δ room))

/-- The field that a name stands for, compared as the lexer reads it. -/
def recognised (name : Literal) : Option (Field δ room) := fields.find? fun f => f.name=lexed name

/-- Every member that the parser knows has a value that it expects. -/
def Typed : Members → Prop
  | .nil => True
  | .cons name v ms => (∀ f∈recognised fields name,f.admits v) ∧ Typed ms

/-- The entries that the members take. -/
def entries : Members → Nat
  | .nil => 0
  | .cons name v ms =>
    (match recognised fields name with
    | some f => f.cost v
    | none => 0)+entries ms

/-- What the members make of a request, in their order. -/
def meaning : Members → R → R
  | .nil,r => r
  | .cons name v ms,r =>
    meaning ms (match recognised fields name with
      | some f => f.meaning v r
      | none => r)

/-- The members without those that the parser does not know. -/
def known : Members → Members
  | .nil => .nil
  | .cons name v ms =>
    match recognised fields name with
    | some f => .cons name (f.keep v) (known ms)
    | none => known ms

/-- The names of the table fit the buffer that a key is compared in. -/
def Fitting (keySize : Nat) : Prop := ∀ f∈fields,0∉f.name ∧ f.name.length<keySize-1

end Members

/-- Members that store no entries need no room. -/
theorem entries_eq_zero {fields : List (Field δ room)}
    (h : fields.map Field.cost=fields.map fun _ _ => 0) :
    (ms : Members) → entries fields ms=0
  | .nil => rfl
  | .cons name v ms => by
    rw [entries,entries_eq_zero h ms]
    cases hf : recognised fields name with
    | none => rfl
    | some f =>
      have hc := List.map_inj_left.mp h f (List.mem_of_find?_eq_some hf)
      change f.cost v+0=0
      rw [hc]

theorem fitting_of_names {fields : List (Field δ room)} {keySize : Nat} (names : List (List UInt8))
    (h : fields.map Field.name=names) (hn : ∀ name∈names,0∉name ∧ name.length<keySize-1) :
    Fitting fields keySize := by
  intro f hf
  apply hn
  rw [← h]
  exact List.mem_map_of_mem hf

theorem known_same {fields : List (Field δ room)} : (ms : Members) → Typed fields ms →
    Typed fields (known fields ms) ∧ entries fields (known fields ms)=entries fields ms ∧
    ∀ r,meaning fields (known fields ms) r=meaning fields ms r
  | .nil,_ => ⟨trivial,rfl,fun _ => rfl⟩
  | .cons name v ms,h => by
    have ih := known_same ms h.2
    rw [known]
    cases hf : recognised fields name with
    | none =>
      refine ⟨ih.1,?_,fun r => ?_⟩
      · rw [ih.2.1,entries,hf,Nat.zero_add]
      · rw [ih.2.2,meaning,hf]
    | some f =>
      have hk := f.keep_same (h.1 f hf)
      refine ⟨⟨fun g hg => ?_,ih.1⟩,?_,fun r => ?_⟩
      · rw [hf] at hg
        injection hg with hg
        subst hg
        exact hk.1
      · simp only [entries,hf,hk.2.1,ih.2.1]
      · simp only [meaning,hf,hk.2.2,ih.2.2]

theorem lexed_no_nul (l : Literal) : 0∉lexed l := by
  intro h
  obtain ⟨c,-,hc⟩ := List.mem_map.mp h
  cases c with
  | plain c hp =>
    have hz : c=0 := hc
    subst hz
    exact absurd hp.1 (by decide)
  | escape e => cases e <;> cases hc
  | unicode d => cases hc

/-- A bounded copy of a literal without NULs. -/
theorem copyString_buffered {size : Nat} (h : 0 < size) (l : Literal) :
    (copyString size h (Field.buffered l)).bytes=(Field.buffered l).take (size-1) := by
  have hn : 0∉Field.buffered l := fun hm => lexed_no_nul l (List.mem_of_mem_take hm)
  rw [copyString,CField.copyWithin_bytes]
  · rw [← List.take_take]
    apply List.take_of_length_le
    rw [List.length_take]
    exact Nat.min_le_right _ _
  · exact fun hm => hn (List.mem_of_mem_take hm)

section Keys

variable {keySize : Nat} {hk : 0<keySize}

/-- A key equals a name that fits the buffer exactly when the whole literal does. -/
theorem strcmp_key {name : List UInt8} (hn : 0∉name) (hlen : name.length<keySize-1)
    (hsize : keySize ≤ stringBufSize) (l : Literal) :
    strcmp (copyString keySize hk (Field.buffered l)).bytes name=0 ↔ name=lexed l := by
  have hb : (copyString keySize hk (Field.buffered l)).bytes=(lexed l).take (keySize-1) := by
    rw [copyString_buffered,Field.buffered,List.take_take]
    congr 1
    omega
  have hz : 0∉(lexed l).take (keySize-1) := fun hm => lexed_no_nul l (List.mem_of_mem_take hm)
  rw [strcmp_eq_zero,hb,cut_of_not_mem hz,cut_of_not_mem hn]
  constructor
  · intro h
    have hl := congrArg List.length h
    rw [List.length_take] at hl
    rw [← h,List.take_of_length_le (by omega)]
  · intro h
    rw [← h,List.take_of_length_le (by omega)]

theorem dispatch_literal {fields : List (Field δ room)} (hf : Fitting fields keySize)
    (hsize : keySize ≤ stringBufSize) (l : Literal) :
    dispatch (fields.map fun f => (f.name,f.handler))
        (copyString keySize hk (Field.buffered l)).bytes=
      (match recognised fields l with
      | some f => f.handler
      | none => skippedMember) := by
  induction fields with
  | nil => rfl
  | cons f fields ih =>
    have hname := hf f (List.mem_cons_self ..)
    have ih := ih fun g hg => hf g (List.mem_cons_of_mem f hg)
    have hcmp : strcmp (copyString keySize hk (Field.buffered l)).bytes f.name=0 ↔
        f.name=lexed l := strcmp_key hname.1 hname.2 hsize l
    rw [List.map_cons,dispatch,recognised]
    by_cases h : f.name=lexed l
    · rw [if_pos (hcmp.mpr h),List.find?_cons_of_pos (by simpa using h)]
    · rw [if_neg (fun hc => h (hcmp.mp hc)),List.find?_cons_of_neg (by simpa using h)]
      exact ih

end Keys

/-- What follows a member, behind its comma if there is one. -/
theorem spaced_afterComma {ms : Members} {s rest : List UInt8} (h : Spaced ms.more s rest) :
    Delimited s ∧ Spaced ms.texts (afterComma s) rest := by
  cases ms with
  | nil => exact spaced_close (k := .rbrace) rfl (by decide) h
  | cons name v ms => exact spaced_comma h

/-- The value of a member, known or not. -/
theorem member_runs {fields : List (Field δ room)} {name : Literal} {v : Value}
    (ha : ∀ f∈recognised fields name,f.admits v) {s rest : List UInt8} {p : Parser δ} {r : R}
    {fuel : Nat} (hc : ∀ f∈recognised fields name,f.cost v ≤ room r)
    (hs : Spaced v.texts s rest) (hr : Delimited rest) (hp : Sees p s)
    (hf : 2*s.length+1 ≤ fuel) :
    ∃ q,(match recognised fields name with
        | some f => f.handler
        | none => skippedMember) fuel p r=.ok (q,match recognised fields name with
          | some f => f.meaning v r
          | none => r) ∧ Sees q rest := by
  cases hn : recognised fields name with
  | none =>
    obtain ⟨q,hq,hq'⟩ := skipPart_complete (Value.lenient v hs hr) hp hf
    have hskip : jsonSkipValue fuel p=.ok q := hq
    refine ⟨q,?_,hq'⟩
    simp only [skippedMember,hskip]
  | some f => exact f.runs (ha f hn) (hc f hn) hs hr hp hf

/-- The name, the colon and the value of a member, and what follows it. -/
theorem member_spaced {name : Literal} {v : Value} {ms : Members} {s rest : List UInt8}
    (h : Spaced (Members.cons name v ms).texts s rest) :
    ∃ s₁,(lex s).1=.string ∧ stringAt s=lexed name ∧ (lex (lex s).2).1=.colon ∧
      Spaced v.texts (lex (lex s).2).2 s₁ ∧ Delimited s₁ ∧
      Spaced ms.texts (afterComma s₁) rest := by
  obtain ⟨w,s₀,hw,rfl,hcolon⟩ := h
  obtain ⟨hlc,hvm⟩ := lex_of_spaced (k := .colon) rfl hcolon
  obtain ⟨s₁,hv,hm⟩ := spaced_append.mp hvm
  have hl := lex_literal hw name s₀
  have hnext := spaced_afterComma hm
  refine ⟨s₁,?_,stringAt_literal hw name s₀,?_,?_,hnext⟩
  · rw [hl]
  · rw [hl]
    exact hlc
  · rw [hl]
    exact hv

/-- The room that is left behind a member is enough for those that follow. -/
theorem entries_rest {fields : List (Field δ room)} {name : Literal} {v : Value} {ms : Members}
    {r : R} (ha : ∀ f∈recognised fields name,f.admits v)
    (he : entries fields (.cons name v ms) ≤ room r) :
    (∀ f∈recognised fields name,f.cost v ≤ room r) ∧
    entries fields ms ≤ room (match recognised fields name with
      | some f => f.meaning v r
      | none => r) := by
  rw [entries] at he
  cases hn : recognised fields name with
  | none =>
    rw [hn] at he
    exact ⟨fun f hf => (by cases hf),by simpa using he⟩
  | some f =>
    rw [hn] at he
    have he' : f.cost v+entries fields ms ≤ room r := he
    have hcost : f.cost v ≤ room r := (Nat.le_add_right _ _).trans he'
    have hroom := f.room_meaning (ha f hn) hcost
    refine ⟨fun g hg => ?_,?_⟩
    · injection hg with hg
      subst hg
      exact hcost
    · change entries fields ms ≤ room (f.meaning v r)
      omega

theorem entries_over {fields : List (Field δ room)} {name : Literal} {v : Value} {ms : Members}
    {r : R} (ha : ∀ f∈recognised fields name,f.admits v)
    (hc : ∀ f∈recognised fields name,f.cost v ≤ room r)
    (he : room r<entries fields (.cons name v ms)) :
    room (match recognised fields name with
      | some f => f.meaning v r
      | none => r)<entries fields ms := by
  rw [entries] at he
  cases hn : recognised fields name with
  | none =>
    rw [hn] at he
    simpa using he
  | some f =>
    rw [hn] at he
    have he' : room r<f.cost v+entries fields ms := he
    have hroom := f.room_meaning (ha f hn) (hc f hn)
    change room (f.meaning v r)<entries fields ms
    omega

theorem parseMembers_blocked {keySize : Nat} {hk : 0<keySize}
    {members : List (List UInt8 × Handler δ R)} {fuel : Nat} {p : Parser δ} {r : R}
    (h : Blocking p.current) :
    parseMembers keySize hk members (fuel+1) (skipComma p) r=.error .invalid := by
  obtain ⟨hcomma,hbrace,heof,hstring⟩ := h
  have hstop : ¬(p.current=.rbrace ∨ p.current=.eof) := not_or.mpr ⟨hbrace,heof⟩
  rw [skipComma,if_neg hcomma,parseMembers,if_neg hstop,jsonParseString,if_neg hstring]

section Loop

variable {keySize : Nat} (hk : 0<keySize) {fields : List (Field δ room)}
  (hfit : Fitting fields keySize) (hsize : keySize ≤ stringBufSize)

include hfit hsize

/-- One turn of the loop, over a member: what its handler makes of the value goes to the next. -/
theorem parseMembers_member {name : Literal} {v : Value} {ms : Members} {s rest : List UInt8}
    {p : Parser δ} (hs : Spaced (Members.cons name v ms).texts s rest) (hp : Sees p s) :
    ∃ s₁ s₂ p₁,Sees p₁ s₁ ∧ Spaced v.texts s₁ s₂ ∧ Delimited s₂ ∧
      Spaced ms.texts (afterComma s₂) rest ∧ s₁.length < s.length ∧
      (afterComma s₂).length < s.length ∧
      ∀ r fuel,parseMembers keySize hk (fields.map fun f => (f.name,f.handler)) (fuel+1) p r=
        match (match recognised fields name with
          | some f => f.handler
          | none => skippedMember) fuel p₁ r with
        | .error e => .error e
        | .ok (q,r) =>
          parseMembers keySize hk (fields.map fun f => (f.name,f.handler)) fuel
            (skipComma q) r := by
  obtain ⟨s₂,hl,hname,hlc,hv,hdel,hnext⟩ := member_spaced hs
  have h1 := hp.next (by rw [hl]; decide)
  have h2 := h1.next (by rw [hlc]; decide)
  have hlen0 := lex_length (s := s) (by rw [hl]; decide) (by rw [hl]; decide)
  have hlen1 := lex_length (s := (lex s).2) (by rw [hlc]; decide) (by rw [hlc]; decide)
  have hlen2 := (Value.lenient v hv hdel).length.1
  have hlen3 := afterComma_length s₂
  refine ⟨(lex (lex s).2).2,s₂,_,h2,hv,hdel,hnext,by omega,by omega,?_⟩
  intro r fuel
  have hc : ¬(jsonNextToken p).current≠.colon := not_not.mpr (h1.current.trans hlc)
  have hkey : keyAt keySize hk s=(copyString keySize hk (Field.buffered name)).bytes := by
    rw [keyAt,hname]
    rfl
  have hturn : parseMembers keySize hk (fields.map fun f => (f.name,f.handler)) (fuel+1) p r=_ :=
    parseMembers_turn hp hl r
  rw [if_neg hc,hkey,dispatch_literal hfit hsize name] at hturn
  exact hturn

/-- The loop over the members of an object that fits the request. -/
theorem parseMembers_runs : (ms : Members) → {s rest : List UInt8} → {p : Parser δ} → {r : R} →
    {fuel : Nat} → Typed fields ms → entries fields ms ≤ room r → Spaced ms.texts s rest →
    Sees p s → 2*s.length+2 ≤ fuel →
    ∃ q s',parseMembers keySize hk (fields.map fun f => (f.name,f.handler)) fuel p r=
        .ok (q,meaning fields ms r) ∧ Sees q s' ∧ (lex s').1=.rbrace ∧ (lex s').2=rest
  | .nil,s,rest,p,r,fuel,_,_,hs,hp,hf => by
    obtain ⟨fuel,rfl⟩ := Nat.exists_eq_add_of_le' hf
    obtain ⟨hl,hr⟩ := lex_of_spaced (k := .rbrace) rfl hs
    exact ⟨p,s,parseMembers_stop (.inl (hp.current.trans hl)),hp,hl,hr⟩
  | .cons name v ms,s,rest,p,r,fuel,ht,he,hs,hp,hf => by
    obtain ⟨fuel,rfl⟩ := Nat.exists_eq_add_of_le' hf
    obtain ⟨s₁,s₂,p₁,hp₁,hv,hdel,hnext,hlen,hlen',hturn⟩ :=
      parseMembers_member hk hfit hsize hs hp
    obtain ⟨hcost,hroom⟩ := entries_rest ht.1 he
    have hf₁ : 2*s₁.length+1 ≤ fuel+(2*s.length+1) := by omega
    have hf₂ : 2*(afterComma s₂).length+2 ≤ fuel+(2*s.length+1) := by omega
    obtain ⟨q,hq,hq₁⟩ := member_runs ht.1 hcost hv hdel hp₁ hf₁
    obtain ⟨q',s',hq',hs',hb,hrest⟩ := parseMembers_runs ms ht.2 hroom hnext
      (skipComma_sees hq₁) hf₂
    refine ⟨q',s',?_,hs',hb,hrest⟩
    change parseMembers keySize hk _ (fuel+(2*s.length+1)+1) p r=_
    rw [hturn,hq]
    exact hq'

/-- And of one that does not: the loop stands in front of what it could not store. -/
theorem parseMembers_overflows : (ms : Members) → {s rest : List UInt8} → {p : Parser δ} →
    {r : R} → {fuel : Nat} → Typed fields ms → room r<entries fields ms →
    Spaced ms.texts s rest → Sees p s → 2*s.length+2 ≤ fuel →
    parseMembers keySize hk (fields.map fun f => (f.name,f.handler)) fuel p r=.error .invalid
  | .nil,s,rest,p,r,fuel,_,he,_,_,_ => absurd he (Nat.not_lt_zero _)
  | .cons name v ms,s,rest,p,r,fuel,ht,he,hs,hp,hf => by
    obtain ⟨fuel,rfl⟩ := Nat.exists_eq_add_of_le' hf
    obtain ⟨s₁,s₂,p₁,hp₁,hv,hdel,hnext,hlen,hlen',hturn⟩ :=
      parseMembers_member hk hfit hsize hs hp
    have hf₁ : 2*s₁.length+1 ≤ fuel+(2*s.length+1) := by omega
    have hf₂ : 2*(afterComma s₂).length+2 ≤ fuel+(2*s.length+1) := by omega
    change parseMembers keySize hk _ (fuel+(2*s.length+1)+1) p r=_
    rw [hturn]
    by_cases hcost : ∀ f∈recognised fields name,f.cost v ≤ room r
    · obtain ⟨q,hq,hq₁⟩ := member_runs ht.1 hcost hv hdel hp₁ hf₁
      rw [hq]
      exact parseMembers_overflows ms ht.2 (entries_over ht.1 hcost he) hnext
        (skipComma_sees hq₁) hf₂
    · push Not at hcost
      obtain ⟨f,hf',hcost⟩ := hcost
      have hn : recognised fields name=some f := hf'
      obtain ⟨q,r',hq,hb⟩ := f.overflows (ht.1 f hf') hcost hv hp₁ hf₁
      simp only [hn,hq]
      exact parseMembers_blocked hb

end Loop

section Request

variable {fields : List (Field δ room)} (hfit : Fitting fields 64) {init : R} {ms : Members}
  {body : List UInt8} (hb : Spells (.object ms) body) (ht : Typed fields ms)

include hb

/-- A whole body, up to its first member. -/
theorem parseRequest_opens (fields : List (Field δ room)) (init : R) :
    ∃ s rest p,Spaced ms.texts s rest ∧ Sees p s ∧ 2*s.length+2 ≤ 2*body.length ∧
    parseRequest (δ := δ) (fields.map fun f => (f.name,f.handler)) init body body.length=
      match parseMembers 64 key_pos (fields.map fun f => (f.name,f.handler)) (2*body.length)
        p init with
      | .error e => .error e
      | .ok (_,r) => .ok r := by
  obtain ⟨rest,hs,-⟩ := hb
  obtain ⟨hl,hms⟩ := lex_of_spaced (k := .lbrace) rfl hs
  have hp := init_sees (δ := δ) body
  have hlen := lex_length (s := body) (by rw [hl]; decide) (by rw [hl]; decide)
  refine ⟨(lex body).2,rest,_,hms,hp.next (by rw [hl]; decide),by omega,?_⟩
  have hc : ¬(jsonNextToken (Parser.init body body.length : Parser δ)).current≠.lbrace :=
    not_not.mpr (hp.current.trans hl)
  exact if_neg hc

include hfit ht

/-- The parser returns what the members mean, in their order, -/
theorem parseRequest_runs (he : entries fields ms ≤ room init) :
    parseRequest (fields.map fun f => (f.name,f.handler)) init body body.length=
      .ok (meaning fields ms init) := by
  obtain ⟨s,rest,p,hms,hp,hlen,hopen⟩ := parseRequest_opens hb fields init
  obtain ⟨q,s',hq,-⟩ := parseMembers_runs key_pos hfit (by decide) ms ht he hms hp hlen
  rw [hopen,hq]

/-- or refuses a body that the request has no room for. -/
theorem parseRequest_overflows (he : room init<entries fields ms) :
    parseRequest (fields.map fun f => (f.name,f.handler)) init body body.length=
      .error .invalid := by
  obtain ⟨s,rest,p,hms,hp,hlen,hopen⟩ := parseRequest_opens hb fields init
  rw [hopen,parseMembers_overflows key_pos hfit (by decide) ms ht he hms hp hlen]

end Request

end Cllm.Api
