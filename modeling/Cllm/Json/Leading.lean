import Cllm.Json.RoundTrip

namespace Cllm.Json

open Rfc8259

variable {c : Bool} {s x y rest : List UInt8}

/-- What a text that starts with a string is as the inside of an object. -/
theorem Lenient.leading (h : Lenient (.body .brace) c s rest) (hs : (lex s).1=.string) :
    ∃ c₁ c₂ c₃ s₁,c=(c₁ && c₂ && wellSeparated .brace s₁ && c₃) ∧
      Lenient .value c₂ (lex (lex s).2).2 s₁ ∧
      Lenient (.body .brace) c₃ (afterComma s₁) rest := by
  cases h with
  | close _ h =>
    rw [hs] at h
    cases h
  | eof _ h =>
    rw [hs] at h
    cases h
  | member _ _ _ hv hm => exact ⟨_,_,_,_,rfl,hv,hm⟩

/-- A member and a comma go in front of the inside of an object. -/
theorem spelled_member_iff (name : Literal) (v : Value) (hx : (lex x).1≠.rbrace) :
    (Part.body .brace).Spelled (name.text++58::(v.texts.flatten++44::x)) rest ↔
      (Part.body .brace).Spelled x rest := by
  have hcomma : lex (44::x)=(.comma,x) := lex_mark rfl x
  constructor
  · intro h
    obtain ⟨ms,hms⟩ := h
    have hlex := lex_literal (w := []) (by simp) name (58::(v.texts.flatten++44::x))
    rw [List.nil_append] at hlex
    have hcolon : lex (58::(v.texts.flatten++44::x))=(.colon,v.texts.flatten++44::x) :=
      lex_mark rfl _
    obtain ⟨c₁,c₂,c₃,s₁,hc,hv,hm⟩ := (Members.lenient ms hms).1.leading (by rw [hlex])
    rw [hlex] at hv
    simp only [hcolon] at hv
    -- the value ends where its own text ends
    have hdelimited : Delimited (44::x) := delimited_mark (k := .comma) rfl x
    have hvalue := Value.lenient v (spaced_flatten v.texts (44::x)) hdelimited
    obtain ⟨-,rfl⟩ := hvalue.determined hv
    rw [afterComma,if_pos (by rw [hcomma]),hcomma] at hm
    have hc₃ : c₃=true := by
      rw [Eq.comm,Bool.and_eq_true] at hc
      exact hc.2
    exact hm.spelled hc₃
  · intro h
    obtain ⟨ms,hms⟩ := h
    cases ms with
    | nil => exact absurd (lex_of_spaced (k := .rbrace) rfl hms).1 hx
    | cons name' v' ms =>
      have hmore : Spaced (Members.cons name' v' ms).more (44::x) rest :=
        ⟨[],x,by simp,rfl,hms⟩
      have hvalue := spaced_append.mpr ⟨44::x,spaced_flatten v.texts (44::x),hmore⟩
      exact ⟨.cons name v (.cons name' v' ms),[],_,by simp,rfl,[],_,by simp,rfl,hvalue⟩

theorem object_iff : (∃ v,Spells v (123::y)) ↔
    ∃ rest,(Part.body .brace).Spelled y rest ∧ ∀ c∈rest,Blank c := by
  have hbrace : lex (123::y)=(.lbrace,y) := lex_mark rfl y
  constructor
  · intro h
    obtain ⟨v,rest,hv,hrest⟩ := h
    have hdelimited : Delimited rest := by
      have h := delimited_of_blanks hrest (x := []) (by simp [Delimited])
      rwa [List.append_nil] at h
    have hl := Value.lenient v hv hdelimited
    cases hl with
    | scalar h _ =>
      rw [hbrace] at h
      cases h
    | nested b h hb =>
      rw [hbrace] at h hb
      cases b with
      | brace => exact ⟨rest,hb.spelled rfl,hrest⟩
      | bracket => cases h
  · intro h
    obtain ⟨rest,⟨ms,hms⟩,hrest⟩ := h
    exact ⟨.object ms,rest,⟨[],y,by simp,rfl,hms⟩,hrest⟩

/-- A member in front of the others of an object neither breaks it nor mends it. -/
theorem leading_member_iff (name : Literal) (v : Value) (hx : (lex x).1≠.rbrace) :
    (∃ u,Spells u (123::(name.text++58::(v.texts.flatten++44::x)))) ↔ ∃ u,Spells u (123::x) := by
  simp only [object_iff,spelled_member_iff name v hx]

theorem lex_quote_ne (y : List UInt8) : (lex (34::y)).1≠.rbrace := by
  rw [lex_string (trim_cons (by decide) y)]
  cases scanString y with
  | none => simp
  | some r => simp

end Cllm.Json
