import Cllm.Api.Reading

namespace Cllm.Api

open Libc Json Rfc8259

variable {δ φ R : Type} [Double δ φ] {count : R → Nat}

/-- The handler passes over exactly the texts of the reading, and keeps the count of entries. -/
structure Accepts (count : R → Nat) (h : Handler δ R) (rd : Reading) : Prop where
  sound : ∀ {fuel p q r r' s},Sees p s → h fuel p r=.ok (q,r') →
    ∃ c s',rd.rel c s (count r) s' (count r') ∧ Sees q s'
  complete : ∀ {c s n s' fuel p r},rd.rel c s (count r) s' n → Sees p s →
    2*s.length+1 ≤ fuel → ∃ q r',h fuel p r=.ok (q,r') ∧ count r'=n ∧ Sees q s'

theorem accepts_skipped : Accepts count (skippedMember (δ := δ)) .skipped where
  sound := by
    intro fuel p q r r' s hp hq
    unfold skippedMember at hq
    split at hq
    · cases hq
    · next t ht =>
      injection hq with hq
      injection hq with hq hr
      subst hq hr
      obtain ⟨c,s',hl,hs'⟩ := skipPart_sound (k := .value) hp ht
      exact ⟨c,s',⟨hl,rfl⟩,hs'⟩
  complete := by
    intro c s n s' fuel p r hr hp hf
    obtain ⟨hl,rfl⟩ := hr
    obtain ⟨q,hq,hs'⟩ := skipPart_complete hl hp hf
    have hq' : jsonSkipValue fuel p=.ok q := hq
    refine ⟨q,r,?_,rfl,hs'⟩
    rw [skippedMember,hq']

/-- A handler that takes one token of the kinds `ok`. -/
theorem accepts_scalar {ok : Token → Bool} {hs : ∀ t,ok t=true → isScalar t=true} {k : Nat}
    {h : Handler δ R} (hyes : ∀ fuel p r,ok p.current=true →
      ∃ r',h fuel p r=.ok (jsonNextToken p,r') ∧ count r'=count r+k)
    (hno : ∀ fuel p r,ok p.current=false → h fuel p r=.error .invalid) :
    Accepts count h (.scalar ok hs k) where
  sound := by
    intro fuel p q r r' s hp hq
    obtain ⟨c,hc⟩ := exact_flag s
    cases hok : ok p.current with
    | false =>
      rw [hno fuel p r hok] at hq
      cases hq
    | true =>
      obtain ⟨r₁,hr₁,hcount⟩ := hyes fuel p r hok
      rw [hr₁] at hq
      injection hq with hq
      injection hq with hq hr
      subst hq hr
      rw [hp.current] at hok
      have ht := scalar_apart (hs _ hok)
      exact ⟨c,_,⟨hok,rfl,hcount,hc⟩,hp.next ht.2.1⟩
  complete := by
    intro c s n s' fuel p r hr hp hf
    obtain ⟨hok,rfl,rfl,-⟩ := hr
    have ht := scalar_apart (hs _ hok)
    obtain ⟨r₁,hr₁,hcount⟩ := hyes fuel p r (by rw [hp.current]; exact hok)
    exact ⟨_,r₁,hr₁,hcount,hp.next ht.2.1⟩

theorem accepts_string {size : Nat} {hz : 0 < size} {set : R → CField size → R}
    (hset : ∀ r v,count (set r v)=count r) :
    Accepts count (stringMember (δ := δ) size hz set) .string := by
  apply accepts_scalar
  · intro fuel p r hok
    refine ⟨set r (copyString size hz p.stringBuf.bytes),?_,hset r _⟩
    rw [stringMember,jsonParseString,if_pos (of_decide_eq_true hok)]
  · intro fuel p r hok
    rw [stringMember,jsonParseString,if_neg (of_decide_eq_false hok)]

theorem accepts_float {set : R → φ → R} (hset : ∀ r v,count (set r v)=count r) :
    Accepts count (floatMember (δ := δ) set) .number := by
  apply accepts_scalar
  · intro fuel p r hok
    refine ⟨set r (Double.toFloat p.numberValue),?_,hset r _⟩
    rw [floatMember,jsonParseNumber,if_pos (of_decide_eq_true hok)]
  · intro fuel p r hok
    rw [floatMember,jsonParseNumber,if_neg (of_decide_eq_false hok)]

theorem accepts_int {set : R → Int32 → R} (hset : ∀ r v,count (set r v)=count r) :
    Accepts count (intMember (δ := δ) set) .number := by
  apply accepts_scalar
  · intro fuel p r hok
    refine ⟨set r (Double.toInt p.numberValue),?_,hset r _⟩
    rw [intMember,jsonParseInt,if_pos (of_decide_eq_true hok)]
  · intro fuel p r hok
    rw [intMember,jsonParseInt,if_neg (of_decide_eq_false hok)]

theorem accepts_bool {set : R → Bool → R} (hset : ∀ r v,count (set r v)=count r) :
    Accepts count (boolMember (δ := δ) set) .bool := by
  apply accepts_scalar
  · intro fuel p r hok
    obtain ht | hf := of_decide_eq_true hok
    · refine ⟨set r true,?_,hset r _⟩
      rw [boolMember,jsonParseBool,if_pos ht]
    · refine ⟨set r false,?_,hset r _⟩
      rw [boolMember,jsonParseBool,if_neg (by rw [hf]; decide),if_pos hf]
  · intro fuel p r hok
    have hne := not_or.mp (of_decide_eq_false hok)
    rw [boolMember,jsonParseBool,if_neg hne.1,if_neg hne.2]

/-- A chain of strcmp that follows a grammar, name by name. -/
inductive Follows (count : R → Nat) :
    List (List UInt8 × Handler δ R) → List (List UInt8 × Reading) → Prop
  | nil : Follows count [] []
  | cons {name h rd members grammar} (ha : Accepts count h rd)
      (hm : Follows count members grammar) :
      Follows count ((name,h)::members) ((name,rd)::grammar)

theorem accepts_dispatch {members : List (List UInt8 × Handler δ R)}
    {grammar : List (List UInt8 × Reading)} (h : Follows count members grammar)
    (key : List UInt8) : Accepts count (dispatch members key) (Reading.dispatch grammar key) := by
  induction h with
  | nil => exact accepts_skipped
  | cons ha _ ih =>
    rw [dispatch,Reading.dispatch]
    split
    · exact ha
    · exact ih

section Members

variable {keySize : Nat} {hk : 0<keySize} {members : List (List UInt8 × Handler δ R)}
  {member : List UInt8 → Reading} (hd : ∀ key,Accepts count (dispatch members key) (member key))

theorem parseMembers_stop {fuel : Nat} {p : Parser δ} {r : R}
    (h : p.current=.rbrace ∨ p.current=.eof) :
    parseMembers keySize hk members (fuel+1) p r=.ok (p,r) := by
  rw [parseMembers,if_pos h]

/-- One turn of the loop. -/
theorem parseMembers_turn {fuel : Nat} {p : Parser δ} {s : List UInt8} (hp : Sees p s)
    (hs : (lex s).1=.string) (r : R) :
    parseMembers keySize hk members (fuel+1) p r=
      (if (jsonNextToken p).current≠.colon then .error .invalid
      else
        match dispatch members (keyAt keySize hk s) fuel (jsonNextToken (jsonNextToken p)) r with
        | .error e => .error e
        | .ok (q,r) => parseMembers keySize hk members fuel (skipComma q) r) := by
  have hc : p.current=.string := hp.current.trans hs
  have hne : ¬(p.current=.rbrace ∨ p.current=.eof) := by
    rw [hc]
    rintro (h | h) <;> cases h
  rw [parseMembers,if_neg hne,jsonParseString,if_pos hc,hp.string hc]
  rfl

include hd

theorem parseMembers_sound {fuel : Nat} {p q : Parser δ} {r r' : R} {s : List UInt8}
    (hp : Sees p s) (hq : parseMembers keySize hk members fuel p r=.ok (q,r')) :
    ∃ c s',MembersRel keySize hk member c s (count r) s' (count r') ∧ Sees q s' := by
  induction fuel generalizing p r s with
  | zero => cases hq
  | succ fuel ih =>
    by_cases hstop : p.current=.rbrace ∨ p.current=.eof
    · rw [parseMembers_stop hstop] at hq
      injection hq with hq
      injection hq with hq hr
      subst hq hr
      rw [hp.current] at hstop
      exact ⟨true,s,.stop hstop,hp⟩
    by_cases hs : p.current=.string
    · have hs' : (lex s).1=.string := hp.current.symm.trans hs
      have h1 := hp.next (by rw [hs']; decide)
      obtain ⟨c₁,hc₁⟩ := exact_flag s
      rw [parseMembers_turn hp hs'] at hq
      split at hq
      · cases hq
      · next hcolon =>
        have hcolon' : (lex (lex s).2).1=.colon := h1.current.symm.trans (not_not.mp hcolon)
        have h2 := h1.next (by rw [hcolon']; decide)
        split at hq
        · cases hq
        · next t r₁ ht =>
          obtain ⟨c₂,s₁,hv,hs₁⟩ := (hd _).sound h2 ht
          obtain ⟨c₃,s',hm,hq'⟩ := ih (skipComma_sees hs₁) hq
          exact ⟨_,s',.member hs' hc₁ hcolon' hv hm,hq'⟩
    · rw [parseMembers,if_neg hstop,jsonParseString,if_neg hs] at hq
      cases hq

theorem parseMembers_complete {c : Bool} {s s' : List UInt8} {n n' : Nat}
    (h : MembersRel keySize hk member c s n s' n') {fuel : Nat} {p : Parser δ} {r : R}
    (hp : Sees p s) (hn : count r=n) (hf : 2*s.length+2 ≤ fuel) :
    ∃ q r',parseMembers keySize hk members fuel p r=.ok (q,r') ∧ count r'=n' ∧ Sees q s' := by
  induction h generalizing p r fuel with
  | stop h =>
    obtain ⟨fuel,rfl⟩ := Nat.exists_eq_add_of_le' hf
    rw [← hp.current] at h
    exact ⟨p,r,parseMembers_stop h,hn,hp⟩
  | @member c₁ c₂ c₃ s n s₁ n₁ s' n' hs _ hc hv hm ih =>
    obtain ⟨fuel,rfl⟩ := Nat.exists_eq_add_of_le' hf
    have h1 := hp.next (by rw [hs]; decide)
    have h2 := h1.next (by rw [hc]; decide)
    have hl1 := lex_length (s := s) (by rw [hs]; decide) (by rw [hs]; decide)
    have hl2 := lex_length (s := (lex s).2) (by rw [hc]; decide) (by rw [hc]; decide)
    have hl3 := (member _).shrinks hv
    have hl4 := afterComma_length s₁
    subst hn
    have hf₁ : 2*(lex (lex s).2).2.length+1 ≤ fuel+(2*s.length+1) := by omega
    have hf₂ : 2*(afterComma s₁).length+2 ≤ fuel+(2*s.length+1) := by omega
    obtain ⟨t,r₁,ht,hr₁,hs₁⟩ := (hd _).complete hv h2 hf₁
    obtain ⟨q,r',hq,hr',hs'⟩ := ih (skipComma_sees hs₁) hr₁ hf₂
    refine ⟨q,r',?_,hr',hs'⟩
    have hcolon : ¬(jsonNextToken p).current≠.colon := by
      rw [h1.current]
      exact not_not.mpr hc
    change parseMembers keySize hk members (fuel+(2*s.length+1)+1) p r=_
    rw [parseMembers_turn hp hs,if_neg hcolon,ht]
    exact hq

end Members

/-- The same for what stands in an array, which is only read while the request has room. -/
structure AcceptsElement (count : R → Nat) (limit : Nat)
    (element : (fuel : Nat) → Parser δ → (r : R) → ¬limit≤count r →
      Except Fault (Parser δ × R)) (rd : Reading) : Prop where
  sound : ∀ {fuel p q r r' s} {h : ¬limit≤count r},Sees p s → element fuel p r h=.ok (q,r') →
    ∃ c s',rd.rel c s (count r) s' (count r') ∧ Sees q s'
  complete : ∀ {c s n s' fuel p r} (h : ¬limit≤count r),rd.rel c s (count r) s' n → Sees p s →
    2*s.length+1 ≤ fuel → ∃ q r',element fuel p r h=.ok (q,r') ∧ count r'=n ∧ Sees q s'

section Elements

variable {limit : Nat} {element : (fuel : Nat) → Parser δ → (r : R) → ¬limit≤count r →
  Except Fault (Parser δ × R)} {rd : Reading} (he : AcceptsElement count limit element rd)

include he

theorem parseElements_sound {fuel : Nat} {p q : Parser δ} {r r' : R} {s : List UInt8}
    (hp : Sees p s) (hq : parseElements (fun r => limit≤count r) element fuel p r=.ok (q,r')) :
    ∃ c s',ElementsRel limit rd c s (count r) s' (count r') ∧ Sees q s' := by
  induction fuel generalizing p r s with
  | zero => cases hq
  | succ fuel ih =>
    rw [parseElements] at hq
    split at hq
    · next hb =>
      injection hq with hq
      injection hq with hq hr
      subst hq hr
      rw [hp.current] at hb
      exact ⟨true,_,.close hb,hp.next (by rw [hb]; decide)⟩
    next hb =>
    rw [hp.current] at hb
    split at hq
    · next heof =>
      injection hq with hq
      injection hq with hq hr
      subst hq hr
      rw [hp.current] at heof
      exact ⟨false,s,.eof heof,hp⟩
    next heof =>
    rw [hp.current] at heof
    split at hq
    · next hfull =>
      injection hq with hq
      injection hq with hq hr
      subst hq hr
      exact ⟨false,s,.full hb heof hfull,hp⟩
    next hfull =>
    split at hq
    · cases hq
    · next t r₁ ht =>
      obtain ⟨c₁,s₁,hv,hs₁⟩ := he.sound hp ht
      obtain ⟨c₂,s',hm,hs'⟩ := ih (skipComma_sees hs₁) hq
      exact ⟨_,s',.element hb heof hfull hv hm,hs'⟩

theorem parseElements_complete {c : Bool} {s s' : List UInt8} {n n' : Nat}
    (h : ElementsRel limit rd c s n s' n') {fuel : Nat} {p : Parser δ} {r : R} (hp : Sees p s)
    (hn : count r=n) (hf : 2*s.length+2 ≤ fuel) :
    ∃ q r',parseElements (fun r => limit≤count r) element fuel p r=.ok (q,r') ∧ count r'=n' ∧
      Sees q s' := by
  induction h generalizing p r fuel with
  | @close s n h =>
    obtain ⟨fuel,rfl⟩ := Nat.exists_eq_add_of_le' hf
    have hb : p.current=.rbracket := hp.current.trans h
    refine ⟨jsonNextToken p,r,?_,hn,hp.next (by rw [h]; decide)⟩
    change parseElements (fun r => limit≤count r) element (fuel+(2*s.length+1)+1) p r=_
    rw [parseElements,if_pos hb]
  | @eof s n h =>
    obtain ⟨fuel,rfl⟩ := Nat.exists_eq_add_of_le' hf
    have heof : p.current=.eof := hp.current.trans h
    refine ⟨p,r,?_,hn,hp⟩
    change parseElements (fun r => limit≤count r) element (fuel+(2*s.length+1)+1) p r=_
    rw [parseElements,if_neg (by rw [heof]; decide),if_pos heof]
  | @full s n hb heof h =>
    obtain ⟨fuel,rfl⟩ := Nat.exists_eq_add_of_le' hf
    rw [← hp.current] at hb heof
    subst hn
    refine ⟨p,r,?_,rfl,hp⟩
    change parseElements (fun r => limit≤count r) element (fuel+(2*s.length+1)+1) p r=_
    rw [parseElements,if_neg hb,if_neg heof,dif_pos h]
  | @element c₁ c₂ s n s₁ n₁ s' n' hb heof hfull hv hm ih =>
    obtain ⟨fuel,rfl⟩ := Nat.exists_eq_add_of_le' hf
    rw [← hp.current] at hb heof
    subst hn
    have hl3 := rd.shrinks hv
    have hl4 := afterComma_length s₁
    have hf₁ : 2*s.length+1 ≤ fuel+(2*s.length+1) := by omega
    have hf₂ : 2*(afterComma s₁).length+2 ≤ fuel+(2*s.length+1) := by omega
    obtain ⟨t,r₁,ht,hr₁,hs₁⟩ := he.complete hfull hv hp hf₁
    obtain ⟨q,r',hq,hr',hs'⟩ := ih (skipComma_sees hs₁) hr₁ hf₂
    refine ⟨q,r',?_,hr',hs'⟩
    change parseElements (fun r => limit≤count r) element (fuel+(2*s.length+1)+1) p r=_
    rw [parseElements,if_neg hb,if_neg heof,dif_neg hfull,ht]
    exact hq

theorem accepts_array (ht : rd.Tight) : Accepts count
    (arrayMember (fun r => limit≤count r) element) (.array limit rd ht) where
  sound := by
    intro fuel p q r r' s hp hq
    rw [arrayMember] at hq
    split at hq
    · cases hq
    · next hb =>
      have hb' : (lex s).1=.lbracket := hp.current.symm.trans (not_not.mp hb)
      obtain ⟨c,s',hl,hs'⟩ := parseElements_sound he (hp.next (by rw [hb']; decide)) hq
      exact ⟨c,s',⟨hb',hl⟩,hs'⟩
  complete := by
    intro c s n s' fuel p r hr hp hf
    obtain ⟨hb,hl⟩ := hr
    have hlen := lex_length (s := s) (by rw [hb]; decide) (by rw [hb]; decide)
    have hf' : 2*(lex s).2.length+2 ≤ fuel := by omega
    obtain ⟨q,r',hq,hr',hs'⟩ := parseElements_complete he hl (hp.next (by rw [hb]; decide)) rfl hf'
    refine ⟨q,r',?_,hr',hs'⟩
    have hc : ¬p.current≠.lbracket := not_not.mpr (hp.current.trans hb)
    rw [arrayMember,if_neg hc]
    exact hq

end Elements

theorem parseRequest_iff {members : List (List UInt8 × Handler δ R)}
    {grammar : List (List UInt8 × Reading)} (h : Follows count members grammar) {init : R}
    (hi : count init=0) (body : List UInt8) :
    (∃ r,parseRequest members init body body.length=.ok r) ↔ ∃ c,BodyRel grammar c body := by
  have hsees := init_sees (δ := δ) body
  have hd := accepts_dispatch h
  constructor
  · intro h
    obtain ⟨r,hr⟩ := h
    rw [parseRequest] at hr
    split at hr
    · cases hr
    · next hb =>
      have hb' : (lex body).1=.lbrace := hsees.current.symm.trans (not_not.mp hb)
      split at hr
      · cases hr
      · next q r' hq =>
        obtain ⟨c₁,s,hm,-⟩ := parseMembers_sound hd (hsees.next (by rw [hb']; decide)) hq
        rw [hi] at hm
        classical exact ⟨decide (c₁=true ∧ (lex s).1=.rbrace ∧ ∀ b∈(lex s).2,Blank b),hb',c₁,s,_,
          hm,decide_eq_true_iff⟩
  · intro h
    obtain ⟨c,hb,c₁,s,n,hm,-⟩ := h
    have hlen := lex_length (s := body) (by rw [hb]; decide) (by rw [hb]; decide)
    have hf : 2*(lex body).2.length+2 ≤ 2*body.length := by omega
    obtain ⟨q,r,hq,-,-⟩ := parseMembers_complete hd hm (hsees.next (by rw [hb]; decide)) hi hf
    refine ⟨r,?_⟩
    have hc : ¬(jsonNextToken (Parser.init body body.length : Parser δ)).current≠.lbrace :=
      not_not.mpr (hsees.current.trans hb)
    rw [parseRequest,if_neg hc,hq]

end Cllm.Api
