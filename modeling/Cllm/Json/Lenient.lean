import Cllm.Framework.Rfc8259
import Cllm.Json.Parser
import Cllm.Json.Scan

namespace Cllm.Json

open Rfc8259

/-- The two kinds of nesting. -/
inductive Bracket where
  | brace | bracket
  deriving DecidableEq

def Bracket.opening : Bracket → Token
  | .brace => .lbrace
  | .bracket => .lbracket

def Bracket.closing : Bracket → Token
  | .brace => .rbrace
  | .bracket => .rbracket

/-- The tokens that are a value on their own. -/
def isScalar (t : Token) : Bool := t=.string ∨ t=.number ∨ t=.true ∨ t=.false ∨ t=.null

/-- The first token of `s` is spelled as RFC 8259 has it. -/
def Exact (s : List UInt8) : Prop :=
  ((lex s).1=.string → ∃ l : Literal,trim s=l.text++(lex s).2) ∧
  ((lex s).1=.number → ∃ n : Numeral,trim s=n.text++(lex s).2)

theorem exact_flag (s : List UInt8) : ∃ c : Bool,c=true ↔ Exact s := by
  classical exact ⟨decide (Exact s),decide_eq_true_iff⟩

/-- What is left when a comma in front of `s` is passed over. -/
def afterComma (s : List UInt8) : List UInt8 := if (lex s).1=.comma then (lex s).2 else s

/-- RFC 8259 has `s` here, behind a value inside `b`: a comma and not the end, or the end. -/
def wellSeparated (b : Bracket) (s : List UInt8) : Bool :=
  if (lex s).1=.comma then (lex (lex s).2).1≠b.closing else (lex s).1=b.closing

inductive Part where
  | value
  | body (b : Bracket)
  deriving DecidableEq

/-- What may stand between `s` and `s'` for the parser to pass over it. The flag is false where
the text departs from RFC 8259: in the spelling of a string or a number, in a comma that is
missing or that nothing follows, in a bracket that the end of the input leaves open. -/
inductive Lenient : Part → Bool → List UInt8 → List UInt8 → Prop
  | scalar {c s} (h : isScalar (lex s).1) (hc : c=true ↔ Exact s) :
      Lenient .value c s (lex s).2
  | nested {c s s'} (b : Bracket) (h : (lex s).1=b.opening)
      (hb : Lenient (.body b) c (lex s).2 s') : Lenient .value c s s'
  | close {s} (b : Bracket) (h : (lex s).1=b.closing) : Lenient (.body b) true s (lex s).2
  | eof {s} (b : Bracket) (h : (lex s).1=.eof) : Lenient (.body b) false s s
  | member {c₁ c₂ c₃ s s₁ s'} (h : (lex s).1=.string) (hc : c₁=true ↔ Exact s)
      (hcolon : (lex (lex s).2).1=.colon) (hv : Lenient .value c₂ (lex (lex s).2).2 s₁)
      (hm : Lenient (.body .brace) c₃ (afterComma s₁) s') :
      Lenient (.body .brace) (c₁ && c₂ && wellSeparated .brace s₁ && c₃) s s'
  | element {c₁ c₂ s s₁ s'} (hv : Lenient .value c₁ s s₁)
      (hm : Lenient (.body .bracket) c₂ (afterComma s₁) s') :
      Lenient (.body .bracket) (c₁ && wellSeparated .bracket s₁ && c₂) s s'

variable {δ φ : Type} [Double δ φ] {p q : Parser δ} {s s' : List UInt8}

theorem scalar_apart {t : Token} (h : isScalar t) :
    t≠.eof ∧ t≠.error ∧ t≠.comma ∧ ∀ b : Bracket,t≠b.opening ∧ t≠b.closing := by
  rw [isScalar,decide_eq_true_eq] at h
  rcases h with rfl | rfl | rfl | rfl | rfl <;>
    exact ⟨by decide,by decide,by decide,fun b => by cases b <;> decide⟩

theorem Bracket.apart (b b' : Bracket) : b.opening≠.eof ∧ b.opening≠.error ∧ b.opening≠.comma ∧
    b.closing≠.eof ∧ b.closing≠.error ∧ b.closing≠.comma ∧ b.opening≠b'.closing := by
  cases b <;> cases b' <;> decide

/-- What no value starts with. -/
theorem Lenient.start {c : Bool} (h : Lenient .value c s s') :
    (lex s).1≠.eof ∧ (lex s).1≠.error ∧ (lex s).1≠.comma ∧ ∀ b : Bracket,(lex s).1≠b.closing := by
  cases h with
  | scalar h _ =>
    have ht := scalar_apart h
    exact ⟨ht.1,ht.2.1,ht.2.2.1,fun b => (ht.2.2.2 b).2⟩
  | nested b h _ =>
    have ht := Bracket.apart b
    rw [h]
    exact ⟨(ht b).1,(ht b).2.1,(ht b).2.2.1,fun b' => (ht b').2.2.2.2.2.2⟩

theorem afterComma_length (s : List UInt8) : (afterComma s).length ≤ s.length := by
  unfold afterComma
  split
  · next h =>
    have hl := lex_length (s := s) (by rw [h]; decide) (by rw [h]; decide)
    exact hl.le
  · exact le_rfl

/-- What holds of a parser in front of `s` for as long as it goes from token to token. -/
structure Steady (I : Parser δ → List UInt8 → Prop) : Prop where
  sees : ∀ {p s},I p s → Sees p s
  next : ∀ {p s},I p s → (lex s).1≠.error → I (jsonNextToken p) (lex s).2

variable {I : Parser δ → List UInt8 → Prop}

theorem Steady.skipComma (hI : Steady I) (h : I p s) : I (skipComma p) (afterComma s) := by
  unfold Json.skipComma afterComma
  rw [(hI.sees h).current]
  split
  · next hc => exact hI.next h (by rw [hc]; decide)
  · exact h

theorem steady_sees : Steady (Sees : Parser δ → List UInt8 → Prop) := ⟨id,Sees.next⟩

theorem skipComma_sees (h : Sees p s) : Sees (skipComma p) (afterComma s) :=
  steady_sees.skipComma h

/-- A value takes something off the input, and a body never adds to it. -/
theorem Lenient.length {k : Part} {c : Bool} (h : Lenient k c s s') :
    s'.length ≤ s.length ∧ (k=.value → s'.length < s.length) := by
  induction h with
  | scalar h _ =>
    have ht := scalar_apart h
    have hl := lex_length ht.1 ht.2.1
    exact ⟨hl.le,fun _ => hl⟩
  | @nested c s s' b h _ ih =>
    have ht := Bracket.apart b b
    have hl := lex_length (s := s) (by rw [h]; exact ht.1) (by rw [h]; exact ht.2.1)
    have hlt : s'.length < s.length := Nat.lt_of_le_of_lt ih.1 hl
    exact ⟨hlt.le,fun _ => hlt⟩
  | @close s b h =>
    have ht := Bracket.apart b b
    have hl := lex_length (s := s) (by rw [h]; exact ht.2.2.2.1) (by rw [h]; exact ht.2.2.2.2.1)
    exact ⟨hl.le,fun hk => by cases hk⟩
  | eof => exact ⟨le_rfl,fun hk => by cases hk⟩
  | @member c₁ c₂ c₃ s s₁ s' h _ hcolon _ _ ihv ihm =>
    have h1 := lex_length (s := s) (by rw [h]; decide) (by rw [h]; decide)
    have h2 := lex_length (s := (lex s).2) (by rw [hcolon]; decide) (by rw [hcolon]; decide)
    have h3 := afterComma_length s₁
    have h4 := ihv.1
    have h5 := ihm.1
    exact ⟨by omega,fun hk => by cases hk⟩
  | @element c₁ c₂ s s₁ s' _ _ ihv ihm =>
    have h3 := afterComma_length s₁
    have h4 := ihv.1
    have h5 := ihm.1
    exact ⟨by omega,fun hk => by cases hk⟩

/-- A text can be passed over in one way only. -/
theorem Lenient.determined {k : Part} {c c' : Bool} {t : List UInt8} (h : Lenient k c s s')
    (h' : Lenient k c' s t) : c=c' ∧ s'=t := by
  induction h generalizing c' t with
  | scalar h hc =>
    have ht := scalar_apart h
    cases h' with
    | scalar _ hc' =>
      refine ⟨?_,rfl⟩
      rw [Bool.eq_iff_iff,hc,hc']
    | nested b hb _ => exact absurd hb (ht.2.2.2 b).1
  | nested b h hb ih =>
    cases h' with
    | scalar hs _ => exact absurd h ((scalar_apart hs).2.2.2 b).1
    | nested b' hb' hm =>
      have hbb : b=b' := by
        rw [h] at hb'
        cases b <;> cases b' <;> first | rfl | cases hb'
      subst hbb
      exact ih hm
  | close b h =>
    have ht := Bracket.apart b b
    cases h' with
    | close => exact ⟨rfl,rfl⟩
    | eof _ he => exact absurd (h.symm.trans he) ht.2.2.2.1
    | member hs _ _ _ _ => rw [h] at hs; cases hs
    | element hv _ => exact absurd h (hv.start.2.2.2 .bracket)
  | eof b h =>
    have ht := Bracket.apart b b
    cases h' with
    | close _ hb => exact absurd (hb.symm.trans h) ht.2.2.2.1
    | eof => exact ⟨rfl,rfl⟩
    | member hs _ _ _ _ => rw [h] at hs; cases hs
    | element hv _ => exact absurd h hv.start.1
  | member h hc hcolon hv hm ihv ihm =>
    cases h' with
    | close _ hb => rw [h] at hb; cases hb
    | eof _ he => rw [h] at he; cases he
    | member _ hc' _ hv' hm' =>
      obtain ⟨rfl,rfl⟩ := ihv hv'
      obtain ⟨rfl,rfl⟩ := ihm hm'
      refine ⟨?_,rfl⟩
      congr 3
      rw [Bool.eq_iff_iff,hc,hc']
  | element hv hm ihv ihm =>
    cases h' with
    | close _ hb => exact absurd hb (hv.start.2.2.2 .bracket)
    | eof _ he => exact absurd he hv.start.1
    | element hv' hm' =>
      obtain ⟨rfl,rfl⟩ := ihv hv'
      obtain ⟨rfl,rfl⟩ := ihm hm'
      exact ⟨rfl,rfl⟩

/-- The function that reads each part. -/
def skipPart : Part → Nat → Parser δ → Except Fault (Parser δ)
  | .value => jsonSkipValue
  | .body .brace => skipMembers
  | .body .bracket => skipElements

section Turns

variable {fuel : Nat}

theorem skipValue_scalar (h : isScalar p.current) :
    jsonSkipValue (fuel+1) p=.ok (jsonNextToken p) := by
  rw [isScalar,decide_eq_true_eq] at h
  rw [jsonSkipValue]
  rcases h with h | h | h | h | h <;> rw [h]

theorem skipValue_nested (b : Bracket) (h : p.current=b.opening) :
    jsonSkipValue (fuel+1) p=skipPart (.body b) fuel (jsonNextToken p) := by
  rw [jsonSkipValue,h]
  cases b <;> rfl

theorem skipValue_other (h : ¬isScalar p.current) (hb : ∀ b : Bracket,p.current≠b.opening) :
    jsonSkipValue (fuel+1) p=.error .invalid := by
  have h1 := hb .brace
  have h2 := hb .bracket
  rw [jsonSkipValue]
  revert h h1 h2
  cases p.current <;> intro h h1 h2 <;> first
    | rfl
    | exact absurd rfl h1
    | exact absurd rfl h2
    | exact absurd rfl h

theorem skipBody_close (b : Bracket) (h : p.current=b.closing) :
    skipPart (.body b) (fuel+1) p=.ok (jsonNextToken p) := by
  cases b
  · rw [skipPart,skipMembers,h]
    rfl
  · rw [skipPart,skipElements,h]
    rfl

theorem skipBody_eof (b : Bracket) (h : p.current=.eof) :
    skipPart (.body b) (fuel+1) p=.ok p := by
  cases b
  · rw [skipPart,skipMembers,h]
    rfl
  · rw [skipPart,skipElements,h]
    rfl

theorem skipMembers_turn (hs : p.current=.string) (hc : (jsonNextToken p).current=.colon)
    {q : Parser δ} (hq : jsonSkipValue fuel (jsonNextToken (jsonNextToken p))=.ok q) :
    skipMembers (fuel+1) p=skipMembers fuel (skipComma q) := by
  rw [skipMembers,hs]
  simp only [hc,hq]
  rfl

theorem skipElements_turn (hb : p.current≠.rbracket) (he : p.current≠.eof) {q : Parser δ}
    (hq : jsonSkipValue fuel p=.ok q) :
    skipElements (fuel+1) p=skipElements fuel (skipComma q) := by
  rw [skipElements,if_neg hb,if_neg he,hq]

/-- How a turn over an object that goes on begins. -/
theorem skipMembers_ok {r : Parser δ} (hb : p.current≠.rbrace) (he : p.current≠.eof)
    (h : skipMembers (fuel+1) p=.ok r) :
    p.current=.string ∧ (jsonNextToken p).current=.colon ∧
    ∃ q,jsonSkipValue fuel (jsonNextToken (jsonNextToken p))=.ok q ∧
      skipMembers fuel (skipComma q)=.ok r := by
  rw [skipMembers,if_neg hb,if_neg he] at h
  split at h
  · cases h
  · next hs =>
    dsimp only at h
    split at h
    · cases h
    · next hc =>
      split at h
      · cases h
      · next q hq => exact ⟨not_not.mp hs,not_not.mp hc,q,hq,h⟩

theorem skipElements_ok {r : Parser δ} (hb : p.current≠.rbracket) (he : p.current≠.eof)
    (h : skipElements (fuel+1) p=.ok r) :
    ∃ q,jsonSkipValue fuel p=.ok q ∧ skipElements fuel (skipComma q)=.ok r := by
  rw [skipElements,if_neg hb,if_neg he] at h
  split at h
  · cases h
  · next q hq => exact ⟨q,hq,h⟩

end Turns

theorem skipPart_sound {k : Part} {fuel : Nat} (h : Sees p s) (hq : skipPart k fuel p=.ok q) :
    ∃ c s',Lenient k c s s' ∧ Sees q s' := by
  induction fuel generalizing k p q s with
  | zero => rcases k with _ | ⟨_ | _⟩ <;> cases hq
  | succ fuel ih =>
    obtain ⟨c₁,hc₁⟩ := exact_flag s
    cases k with
    | value =>
      change jsonSkipValue (fuel+1) p=.ok q at hq
      by_cases hs : isScalar p.current
      · rw [skipValue_scalar hs] at hq
        injection hq with hq
        rw [h.current] at hs
        subst hq
        exact ⟨c₁,_,.scalar hs hc₁,h.next (scalar_apart hs).2.1⟩
      by_cases hb : ∃ b : Bracket,p.current=b.opening
      · obtain ⟨b,hb⟩ := hb
        rw [skipValue_nested b hb] at hq
        rw [h.current] at hb
        have hn := h.next (by rw [hb]; exact (Bracket.apart b b).2.1)
        obtain ⟨c,s',hl,hs'⟩ := ih hn hq
        exact ⟨c,s',.nested b hb hl,hs'⟩
      · rw [skipValue_other hs (fun b hb' => hb ⟨b,hb'⟩)] at hq
        cases hq
    | body b =>
      by_cases hclose : p.current=b.closing
      · rw [skipBody_close b hclose] at hq
        injection hq with hq
        rw [h.current] at hclose
        subst hq
        exact ⟨true,_,.close b hclose,
          h.next (by rw [hclose]; exact (Bracket.apart b b).2.2.2.2.1)⟩
      by_cases heof : p.current=.eof
      · rw [skipBody_eof b heof] at hq
        injection hq with hq
        rw [h.current] at heof
        subst hq
        exact ⟨false,s,.eof b heof,h⟩
      cases b with
      | brace =>
        obtain ⟨hs,hc,t,ht,hm⟩ := skipMembers_ok hclose heof hq
        rw [h.current] at hs
        have h1 := h.next (by rw [hs]; decide)
        rw [h1.current] at hc
        have h2 := h1.next (by rw [hc]; decide)
        obtain ⟨c₂,s₁,hv,hs₁⟩ := ih (k := .value) h2 ht
        obtain ⟨c₃,s',hb,hs'⟩ := ih (k := .body .brace) (skipComma_sees hs₁) hm
        exact ⟨_,s',.member hs hc₁ hc hv hb,hs'⟩
      | bracket =>
        obtain ⟨t,ht,hm⟩ := skipElements_ok hclose heof hq
        obtain ⟨c₂,s₁,hv,hs₁⟩ := ih (k := .value) h ht
        obtain ⟨c₃,s',hb,hs'⟩ := ih (k := .body .bracket) (skipComma_sees hs₁) hm
        exact ⟨_,s',.element hv hb,hs'⟩

/-- The turns that are enough for a part of `s`. -/
def Part.turns (k : Part) (s : List UInt8) : Nat :=
  match k with
  | .value => 2*s.length+1
  | .body _ => 2*s.length+2

/-- With turns enough the skipper passes over the text, and keeps to what is steady. -/
theorem skipPart_keeps (hI : Steady I) {k : Part} {c : Bool} (hl : Lenient k c s s') {fuel : Nat}
    (h : I p s) (hf : k.turns s ≤ fuel) : ∃ q,skipPart k fuel p=.ok q ∧ I q s' := by
  induction hl generalizing p fuel with
  | scalar hs _ =>
    obtain ⟨fuel,rfl⟩ := Nat.exists_eq_add_of_le' hf
    exact ⟨jsonNextToken p,skipValue_scalar (by rw [(hI.sees h).current]; exact hs),
      hI.next h (scalar_apart hs).2.1⟩
  | @nested c s s' b hb _ ih =>
    obtain ⟨fuel,rfl⟩ := Nat.exists_eq_add_of_le' hf
    have ht := Bracket.apart b b
    have hn := hI.next h (by rw [hb]; exact ht.2.1)
    have hlen := lex_length (s := s) (by rw [hb]; exact ht.1) (by rw [hb]; exact ht.2.1)
    have hfuel : (Part.body b).turns (lex s).2 ≤ fuel+2*s.length := by
      simp only [Part.turns]
      omega
    obtain ⟨q,hq,hs'⟩ := ih hn hfuel
    exact ⟨q,(skipValue_nested b (by rw [(hI.sees h).current]; exact hb)).trans hq,hs'⟩
  | close b hb =>
    obtain ⟨fuel,rfl⟩ := Nat.exists_eq_add_of_le' hf
    exact ⟨jsonNextToken p,skipBody_close b (by rw [(hI.sees h).current]; exact hb),
      hI.next h (by rw [hb]; exact (Bracket.apart b b).2.2.2.2.1)⟩
  | eof b he =>
    obtain ⟨fuel,rfl⟩ := Nat.exists_eq_add_of_le' hf
    exact ⟨p,skipBody_eof b (by rw [(hI.sees h).current]; exact he),h⟩
  | @member c₁ c₂ c₃ s s₁ s' hs _ hcolon hv _ ihv ihm =>
    obtain ⟨fuel,rfl⟩ := Nat.exists_eq_add_of_le' hf
    have h1 := hI.next h (by rw [hs]; decide)
    have h2 := hI.next h1 (by rw [hcolon]; decide)
    have hl1 := lex_length (s := s) (by rw [hs]; decide) (by rw [hs]; decide)
    have hl2 := lex_length (s := (lex s).2) (by rw [hcolon]; decide) (by rw [hcolon]; decide)
    have hl3 := hv.length.1
    have hl4 := afterComma_length s₁
    have hfuel : Part.value.turns (lex (lex s).2).2 ≤ fuel+(2*s.length+1) := by
      simp only [Part.turns]
      omega
    have hfuel' : (Part.body .brace).turns (afterComma s₁) ≤ fuel+(2*s.length+1) := by
      simp only [Part.turns]
      omega
    obtain ⟨q,hq,hq1⟩ := ihv h2 hfuel
    obtain ⟨r,hr,hr1⟩ := ihm (hI.skipComma hq1) hfuel'
    have hturn := skipMembers_turn (by rw [(hI.sees h).current]; exact hs)
      (by rw [(hI.sees h1).current]; exact hcolon) hq
    exact ⟨r,hturn.trans hr,hr1⟩
  | @element c₁ c₂ s s₁ s' hv _ ihv ihm =>
    obtain ⟨fuel,rfl⟩ := Nat.exists_eq_add_of_le' hf
    have hl3 := hv.length.2 rfl
    have hl4 := afterComma_length s₁
    have hfuel : Part.value.turns s ≤ fuel+(2*s.length+1) := by
      simp only [Part.turns]
      omega
    have hfuel' : (Part.body .bracket).turns (afterComma s₁) ≤ fuel+(2*s.length+1) := by
      simp only [Part.turns]
      omega
    obtain ⟨q,hq,hq1⟩ := ihv h hfuel
    obtain ⟨r,hr,hr1⟩ := ihm (hI.skipComma hq1) hfuel'
    have hturn := skipElements_turn (by rw [(hI.sees h).current]; exact hv.start.2.2.2 .bracket)
      (by rw [(hI.sees h).current]; exact hv.start.1) hq
    exact ⟨r,hturn.trans hr,hr1⟩

theorem skipPart_complete {k : Part} {c : Bool} (hl : Lenient k c s s') {fuel : Nat}
    (h : Sees p s) (hf : k.turns s ≤ fuel) : ∃ q,skipPart k fuel p=.ok q ∧ Sees q s' :=
  skipPart_keeps steady_sees hl h hf

end Cllm.Json
