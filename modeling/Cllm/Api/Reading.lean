import Cllm.Api.Requests
import Cllm.Json.Spelling

namespace Cllm.Api

open Libc Json Rfc8259

/-- Behind a text that was left in its middle: nothing here that a member could go on with. -/
def Stuck (s : List UInt8) : Prop :=
  (lex s).1≠.comma ∧ (lex s).1≠.rbrace ∧ (lex s).1≠.eof ∧
  ((lex s).1=.string → (lex (lex s).2).1≠.colon)

/-- The texts that may stand for the value of a member. The numbers count the entries that the
request holds before and after; the flag is false where the text departs from RFC 8259. -/
structure Reading where
  rel : Bool → List UInt8 → Nat → List UInt8 → Nat → Prop
  shrinks : ∀ {c s n s' n'},rel c s n s' n' → s'.length < s.length
  proper : ∀ {s n s' n'},rel true s n s' n' → Lenient .value true s s'
  clean : ∀ {c s n s' n' t},rel c s n s' n' → Lenient .value true s t →
    (c=true ∧ s'=t) ∨ Stuck s'

namespace Reading

/-- A single token of one of the kinds `ok`, which adds `k` entries. -/
def scalar (ok : Token → Bool) (h : ∀ t,ok t=true → isScalar t=true) (k : Nat) : Reading where
  rel c s n s' n' := ok (lex s).1=true ∧ s'=(lex s).2 ∧ n'=n+k ∧ (c=true ↔ Exact s)
  shrinks := by
    intro c s n s' n' hr
    obtain ⟨hok,rfl,-,-⟩ := hr
    have ht := scalar_apart (h _ hok)
    exact lex_length ht.1 ht.2.1
  proper := by
    intro s n s' n' hr
    obtain ⟨hok,rfl,-,hx⟩ := hr
    exact .scalar (h _ hok) hx
  clean := by
    intro c s n s' n' t hr ht
    obtain ⟨hok,rfl,-,hx⟩ := hr
    exact .inl ((Lenient.scalar (h _ hok) hx).determined ht)

/-- Any value at all, passed over by json_skip_value. -/
def skipped : Reading where
  rel c s n s' n' := Lenient .value c s s' ∧ n'=n
  shrinks hr := hr.1.length.2 rfl
  proper hr := hr.1
  clean hr ht := .inl (hr.1.determined ht)

def string : Reading := scalar (fun t => t=.string) (fun t h => by
  obtain rfl := of_decide_eq_true h
  rfl) 0

theorem number_isScalar (t : Token) (h : decide (t=.number)=true) : isScalar t=true := by
  obtain rfl := of_decide_eq_true h
  rfl

def number : Reading := scalar (fun t => t=.number) number_isScalar 0

def bool : Reading := scalar (fun t => t=.true ∨ t=.false) (fun t h => by
  obtain rfl | rfl := of_decide_eq_true h
  · rfl
  · rfl) 0

end Reading

/-- The key that `s` starts with, as a buffer of `keySize` bytes holds it. -/
def keyAt (keySize : Nat) (hk : 0<keySize) (s : List UInt8) : List UInt8 :=
  (copyString keySize hk ((stringAt s).take (stringBufSize-1))).bytes

/-- What the loop over the members may pass over: up to the closing brace or the end. -/
inductive MembersRel (keySize : Nat) (hk : 0<keySize) (member : List UInt8 → Reading) :
    Bool → List UInt8 → Nat → List UInt8 → Nat → Prop
  | stop {s n} (h : (lex s).1=.rbrace ∨ (lex s).1=.eof) :
      MembersRel keySize hk member true s n s n
  | member {c₁ c₂ c₃ s n s₁ n₁ s' n'} (hs : (lex s).1=.string) (hx : c₁=true ↔ Exact s)
      (hc : (lex (lex s).2).1=.colon)
      (hv : (member (keyAt keySize hk s)).rel c₂ (lex (lex s).2).2 n s₁ n₁)
      (hm : MembersRel keySize hk member c₃ (afterComma s₁) n₁ s' n') :
      MembersRel keySize hk member (c₁ && c₂ && wellSeparated .brace s₁ && c₃) s n s' n'

namespace MembersRel

variable {keySize : Nat} {hk : 0<keySize} {member : List UInt8 → Reading} {c : Bool}
  {s s' t : List UInt8} {n n' : Nat}

theorem length (h : MembersRel keySize hk member c s n s' n') : s'.length ≤ s.length := by
  induction h with
  | stop => exact le_rfl
  | @member c₁ c₂ c₃ s n s₁ n₁ s' n' hs _ hc hv _ ih =>
    have h1 := lex_length (s := s) (by rw [hs]; decide) (by rw [hs]; decide)
    have h2 := lex_length (s := (lex s).2) (by rw [hc]; decide) (by rw [hc]; decide)
    have h3 := (member _).shrinks hv
    have h4 := afterComma_length s₁
    omega

/-- Where the loop stops. -/
theorem stops (h : MembersRel keySize hk member c s n s' n') :
    (lex s').1=.rbrace ∨ (lex s').1=.eof := by
  induction h with
  | stop h => exact h
  | member _ _ _ _ _ ih => exact ih

theorem proper (h : MembersRel keySize hk member c s n s' n') (hc : c=true)
    (hb : (lex s').1=.rbrace) : Lenient (.body .brace) true s (lex s').2 := by
  induction h with
  | stop => exact .close .brace hb
  | @member c₁ c₂ c₃ s n s₁ n₁ s' n' hs hx hcolon hv _ ih =>
    simp only [Bool.and_eq_true] at hc
    obtain ⟨⟨⟨h1,h2⟩,hsep⟩,h3⟩ := hc
    subst h2
    have hl := Lenient.member hs hx hcolon ((member _).proper hv) (ih h3 hb)
    rw [h1,hsep] at hl
    exact hl

/-- Nothing can be read behind a value that was left in its middle. -/
theorem not_stuck (hst : Stuck s) : ¬MembersRel keySize hk member c (afterComma s) n s' n' := by
  have hs : afterComma s=s := if_neg hst.1
  rw [hs]
  intro h
  cases h with
  | stop h => exact h.elim hst.2.1 hst.2.2.1
  | member hstr _ hcolon _ _ => exact hst.2.2.2 hstr hcolon

/-- A proper body is read to its end, without a departure. -/
theorem clean (h : MembersRel keySize hk member c s n s' n') {k : Bool}
    (hl : Lenient (.body .brace) k s t) (hk : k=true) :
    c=true ∧ (lex s').1=.rbrace ∧ (lex s').2=t := by
  induction h generalizing k t with
  | @stop s n h =>
    cases hl with
    | close _ hb => exact ⟨rfl,hb,rfl⟩
    | eof => cases hk
    | member hs _ _ _ _ =>
      rw [hs] at h
      rcases h with h | h <;> cases h
  | @member c₁ c₂ c₃ s n s₁ n₁ s' n' hs hx hcolon hv hm ih =>
    cases hl with
    | close _ hb => rw [hs] at hb; cases hb
    | eof => cases hk
    | @member k₁ k₂ k₃ _ t₁ _ _ hx' _ hv' hm' =>
      simp only [Bool.and_eq_true] at hk
      obtain ⟨⟨⟨h1,h2⟩,hsep⟩,h3⟩ := hk
      subst h2
      obtain ⟨hc2,rfl⟩ | hst := (member _).clean hv hv'
      · obtain ⟨hc3,hb,ht⟩ := ih hm' h3
        have hc1 : c₁=true := hx.mpr (hx'.mp h1)
        exact ⟨by rw [hc1,hc2,hsep,hc3]; rfl,hb,ht⟩
      · exact absurd hm (not_stuck hst)

end MembersRel

/-- A reading that a proper value leaves no choice. -/
def Reading.Tight (rd : Reading) : Prop := ∀ {c s n s' n' t},rd.rel c s n s' n' →
  Lenient .value true s t → c=true ∧ s'=t

/-- What the loop over an array may pass over while the request holds less than `limit`
entries; an array that is longer is left where it is. -/
inductive ElementsRel (limit : Nat) (element : Reading) :
    Bool → List UInt8 → Nat → List UInt8 → Nat → Prop
  | close {s n} (h : (lex s).1=.rbracket) : ElementsRel limit element true s n (lex s).2 n
  | eof {s n} (h : (lex s).1=.eof) : ElementsRel limit element false s n s n
  | full {s n} (hb : (lex s).1≠.rbracket) (he : (lex s).1≠.eof) (h : limit≤n) :
      ElementsRel limit element false s n s n
  | element {c₁ c₂ s n s₁ n₁ s' n'} (hb : (lex s).1≠.rbracket) (he : (lex s).1≠.eof)
      (hn : ¬limit≤n) (hv : element.rel c₁ s n s₁ n₁)
      (hm : ElementsRel limit element c₂ (afterComma s₁) n₁ s' n') :
      ElementsRel limit element (c₁ && wellSeparated .bracket s₁ && c₂) s n s' n'

namespace ElementsRel

variable {limit : Nat} {element : Reading} {c : Bool} {s s' t : List UInt8} {n n' : Nat}

theorem length (h : ElementsRel limit element c s n s' n') : s'.length ≤ s.length := by
  induction h with
  | close h => exact (lex_length (by rw [h]; decide) (by rw [h]; decide)).le
  | eof => exact le_rfl
  | full => exact le_rfl
  | @element c₁ c₂ s n s₁ n₁ s' n' _ _ _ hv _ ih =>
    have h3 := element.shrinks hv
    have h4 := afterComma_length s₁
    omega

theorem proper (h : ElementsRel limit element c s n s' n') (hc : c=true) :
    Lenient (.body .bracket) true s s' := by
  induction h with
  | close h => exact .close .bracket h
  | eof => cases hc
  | full => cases hc
  | @element c₁ c₂ s n s₁ n₁ s' n' _ _ _ hv _ ih =>
    simp only [Bool.and_eq_true] at hc
    obtain ⟨⟨h1,hsep⟩,h2⟩ := hc
    subst h1
    have hl := Lenient.element (element.proper hv) (ih h2)
    rw [hsep] at hl
    exact hl

/-- An element of a proper array is no place where a member could go on. -/
theorem stuck_of_value {s₁ : List UInt8} (hv : Lenient .value true s s₁)
    (hsep : wellSeparated .bracket s₁=true) : Stuck s := by
  have hstart := hv.start
  refine ⟨hstart.2.2.1,hstart.2.2.2 .brace,hstart.1,fun hs hcolon => ?_⟩
  have hs₁ : (lex s).2=s₁ := by
    cases hv with
    | scalar => rfl
    | nested b hb _ =>
      rw [hs] at hb
      cases b <;> cases hb
  rw [hs₁] at hcolon
  rw [wellSeparated,hcolon] at hsep
  cases hsep

theorem clean (he : element.Tight) (h : ElementsRel limit element c s n s' n') {k : Bool}
    (hl : Lenient (.body .bracket) k s t) (hk : k=true) : (c=true ∧ s'=t) ∨ Stuck s' := by
  induction h generalizing k t with
  | @close s n h =>
    cases hl with
    | close => exact .inl ⟨rfl,rfl⟩
    | eof => cases hk
    | element hv _ => exact absurd h (hv.start.2.2.2 .bracket)
  | @eof s n h =>
    cases hl with
    | close _ hb => rw [h] at hb; cases hb
    | eof => cases hk
    | element hv _ => exact absurd h hv.start.1
  | @full s n hb _ _ =>
    cases hl with
    | close _ hb' => exact absurd hb' hb
    | eof => cases hk
    | @element k₁ k₂ _ s₁ _ hv _ =>
      simp only [Bool.and_eq_true] at hk
      obtain ⟨⟨h1,hsep⟩,-⟩ := hk
      subst h1
      exact .inr (stuck_of_value hv hsep)
  | @element c₁ c₂ s n s₁ n₁ s' n' hb _ _ hv _ ih =>
    cases hl with
    | close _ hb' => exact absurd hb' hb
    | eof => cases hk
    | @element k₁ k₂ _ t₁ _ hv' hm' =>
      simp only [Bool.and_eq_true] at hk
      obtain ⟨⟨h1,hsep⟩,h2⟩ := hk
      subst h1
      obtain ⟨hc1,rfl⟩ := he hv hv'
      obtain ⟨hc2,ht⟩ | hst := ih hm' h2
      · exact .inl ⟨by rw [hc1,hsep,hc2]; rfl,ht⟩
      · exact .inr hst

end ElementsRel

namespace Reading

def array (limit : Nat) (element : Reading) (he : element.Tight) : Reading where
  rel c s n s' n' := (lex s).1=.lbracket ∧ ElementsRel limit element c (lex s).2 n s' n'
  shrinks := by
    intro c s n s' n' h
    have h1 := lex_length (s := s) (by rw [h.1]; decide) (by rw [h.1]; decide)
    exact Nat.lt_of_le_of_lt h.2.length h1
  proper := by
    intro s n s' n' h
    exact .nested .bracket h.1 (h.2.proper rfl)
  clean := by
    intro c s n s' n' t h ht
    cases ht with
    | scalar hs _ => exact absurd h.1 ((scalar_apart hs).2.2.2 .bracket).1
    | nested b hb hl =>
      cases b with
      | brace => rw [h.1] at hb; cases hb
      | bracket => exact h.2.clean he hl rfl

/-- An object, which adds an entry once its brace is closed. -/
def objectRel (keySize : Nat) (hk : 0<keySize) (member : List UInt8 → Reading)
    (c : Bool) (s : List UInt8) (n : Nat) (s' : List UInt8) (n' : Nat) : Prop :=
  (lex s).1=.lbrace ∧ ∃ c₁ s₁ n₁,MembersRel keySize hk member c₁ (lex s).2 0 s₁ n₁ ∧
    (((lex s₁).1=.rbrace ∧ c=c₁ ∧ s'=(lex s₁).2 ∧ n'=n+1) ∨
      ((lex s₁).1=.eof ∧ c=false ∧ s'=s₁ ∧ n'=n))

theorem objectRel_tight {keySize : Nat} {hk : 0<keySize} {member : List UInt8 → Reading}
    {c : Bool} {s s' t : List UInt8} {n n' : Nat} (h : objectRel keySize hk member c s n s' n')
    (ht : Lenient .value true s t) : c=true ∧ s'=t := by
  obtain ⟨hs,c₁,s₁,n₁,hm,he⟩ := h
  cases ht with
  | scalar hsc _ => exact absurd hs ((scalar_apart hsc).2.2.2 .brace).1
  | nested b hb hl =>
    cases b with
    | bracket => rw [hs] at hb; cases hb
    | brace =>
      obtain ⟨hc,hb',ht⟩ := hm.clean hl rfl
      obtain ⟨-,rfl,rfl,-⟩ | ⟨he',-⟩ := he
      · exact ⟨hc,ht⟩
      · rw [hb'] at he'
        cases he'

def object (keySize : Nat) (hk : 0<keySize) (member : List UInt8 → Reading) : Reading where
  rel := objectRel keySize hk member
  shrinks := by
    intro c s n s' n' h
    obtain ⟨hs,c₁,s₁,n₁,hm,he⟩ := h
    have h1 := lex_length (s := s) (by rw [hs]; decide) (by rw [hs]; decide)
    have h2 := hm.length
    obtain ⟨hb,-,rfl,-⟩ | ⟨-,-,rfl,-⟩ := he
    · have h3 := lex_length (s := s₁) (by rw [hb]; decide) (by rw [hb]; decide)
      omega
    · omega
  proper := by
    intro s n s' n' h
    obtain ⟨hs,c₁,s₁,n₁,hm,he⟩ := h
    obtain ⟨hb,hc,rfl,-⟩ | ⟨-,hc,-,-⟩ := he
    · exact .nested .brace hs (hm.proper hc.symm hb)
    · cases hc
  clean h ht := .inl (objectRel_tight h ht)

theorem object_tight (keySize : Nat) (hk : 0<keySize) (member : List UInt8 → Reading) :
    (object keySize hk member).Tight := fun h ht => objectRel_tight h ht

theorem scalar_tight (ok : Token → Bool) (h : ∀ t,ok t=true → isScalar t=true) (k : Nat) :
    (scalar ok h k).Tight := by
  intro c s n s' n' t hr ht
  obtain ⟨hok,rfl,-,hx⟩ := hr
  exact (Lenient.scalar (h _ hok) hx).determined ht

/-- The reading of the member with this key. -/
def dispatch : List (List UInt8 × Reading) → List UInt8 → Reading
  | [],_ => skipped
  | (name,rd)::rds,key => if strcmp key name=0 then rd else dispatch rds key

end Reading

/-- A whole body: a brace, the members behind it and what follows. -/
def BodyRel (members : List (List UInt8 × Reading)) (c : Bool) (body : List UInt8) : Prop :=
  (lex body).1=.lbrace ∧ ∃ c₁ s n,
    MembersRel 64 key_pos (Reading.dispatch members) c₁ (lex body).2 0 s n ∧
    (c=true ↔ c₁=true ∧ (lex s).1=.rbrace ∧ ∀ b∈(lex s).2,Blank b)

/-- Without a departure, a body is one object of RFC 8259. -/
theorem BodyRel.proper {members : List (List UInt8 × Reading)} {body : List UInt8}
    (h : BodyRel members true body) : ∃ ms,Spells (.object ms) body := by
  obtain ⟨hs,c₁,s,n,hm,hc⟩ := h
  obtain ⟨rfl,hb,hblank⟩ := hc.mp rfl
  obtain ⟨ms,hms⟩ := (hm.proper rfl hb).spelled rfl
  exact ⟨ms,(lex s).2,spaced_of_punctuation (c := 123) (k := .lbrace) rfl hs hms,hblank⟩

/-- And an object of RFC 8259 is read without one. -/
theorem BodyRel.clean {members : List (List UInt8 × Reading)} {c : Bool} {body : List UInt8}
    {ms : Members} (h : BodyRel members c body) (hb : Spells (.object ms) body) : c=true := by
  obtain ⟨hs,c₁,s,n,hm,hc⟩ := h
  obtain ⟨rest,hsp,hblank⟩ := hb
  obtain ⟨-,hms⟩ := lex_of_spaced (k := .lbrace) rfl hsp
  obtain ⟨h1,h2,h3⟩ := hm.clean (Members.lenient ms hms).1 rfl
  rw [hc,h3]
  exact ⟨h1,h2,hblank⟩

end Cllm.Api
