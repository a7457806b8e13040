import Cllm.Json.Lenient

namespace Cllm.Json

open Rfc8259

variable {s t w x rest : List UInt8} {c : UInt8}

theorem isWhitespace_iff : isWhitespace c=true ↔ Blank c := by
  rw [isWhitespace,decide_eq_true_eq]

theorem isDigit_iff : isDigit c=true ↔ Digit c := by
  rw [isDigit,decide_eq_true_eq]

theorem trim_blanks (h : ∀ c∈w,Blank c) (x : List UInt8) : trim (w++x)=trim x := by
  induction w with
  | nil => rfl
  | cons c w ih =>
    have hc : isWhitespace c=true := isWhitespace_iff.mpr (h c (List.mem_cons_self ..))
    have ht := ih (fun d hd => h d (List.mem_cons_of_mem c hd))
    rw [trim] at ht ⊢
    rw [List.cons_append,List.dropWhile_cons,if_pos hc]
    exact ht

theorem trim_cons (h : ¬Blank c) (x : List UInt8) : trim (c::x)=c::x := by
  rw [trim,List.dropWhile_cons,if_neg (fun hc => h (isWhitespace_iff.mp hc))]

theorem trim_token (hw : ∀ c∈w,Blank c) (hc : ¬Blank c) (x : List UInt8) :
    trim (w++(c::x))=c::x := (trim_blanks hw _).trans (trim_cons hc x)

/-- The blanks in front of the first token. -/
theorem eq_blanks_trim (s : List UInt8) : ∃ w,(∀ c∈w,Blank c) ∧ s=w++trim s := by
  refine ⟨s.takeWhile isWhitespace,?_,(List.takeWhile_append_dropWhile ..).symm⟩
  intro c hc
  exact isWhitespace_iff.mp (List.mem_takeWhile_imp hc)

theorem punctuation_not_blank {k : Token} (h : punctuation c=some k) : ¬Blank c := by
  unfold punctuation at h
  split_ifs at h <;> (subst c; decide)

/-- The blanks, the one character and what follows of a token of one character. -/
theorem lex_of_spaced {k : Token} (hc : punctuation c=some k) {ts : List (List UInt8)}
    (h : Spaced ([c]::ts) s rest) : (lex s).1=k ∧ Spaced ts (lex s).2 rest := by
  obtain ⟨w,s',hw,rfl,ht⟩ := h
  have hl := lex_punctuation (trim_token hw (punctuation_not_blank hc) s') hc
  rw [List.singleton_append,hl]
  exact ⟨rfl,ht⟩

/-- The byte that the lexer keeps of a character. -/
def lexedChar : StringChar → UInt8
  | .plain c _ => c
  | .escape e => e.byte
  | .unicode _ => 63

/-- What the lexer makes of a literal. -/
def lexed (l : Literal) : List UInt8 := l.map lexedChar

theorem scanString_literal (l : Literal) (x : List UInt8) :
    scanString (l.inner++34::x)=some (lexed l,x) := by
  induction l with
  | nil => exact scanString_quote x
  | cons k l ih =>
    cases k with
    | plain c h =>
      have hs : scanString (c::(Literal.inner l++34::x))=some (c::lexed l,x) := by
        rw [scanString_plain h.2.1 h.2.2,ih]
        rfl
      exact hs
    | escape e =>
      have hletter : e.letter≠117 := by cases e <;> decide
      have hbyte : unescape e.letter=e.byte := by cases e <;> decide
      have hs : scanString (92::e.letter::(Literal.inner l++34::x))=some (e.byte::lexed l,x) := by
        rw [scanString_escape hletter,ih,hbyte]
        rfl
      exact hs
    | unicode d =>
      have hs : scanString (92::117::d ⟨0,by decide⟩::d ⟨1,by decide⟩::d ⟨2,by decide⟩::
          d ⟨3,by decide⟩::(Literal.inner l++34::x))=some (63::lexed l,x) := by
        rw [scanString_unicode,ih]
        rfl
      exact hs

theorem trim_literal (hw : ∀ c∈w,Blank c) (l : Literal) (x : List UInt8) :
    trim (w++(l.text++x))=34::(l.inner++34::x) := by
  have ht : l.text++x=34::(l.inner++34::x) := by simp [Literal.text]
  rw [ht]
  exact trim_token hw (by decide) _

theorem lex_literal (hw : ∀ c∈w,Blank c) (l : Literal) (x : List UInt8) :
    lex (w++(l.text++x))=(.string,x) := by
  have hl := lex_string (trim_literal hw l x)
  rw [scanString_literal] at hl
  exact hl

theorem stringAt_literal (hw : ∀ c∈w,Blank c) (l : Literal) (x : List UInt8) :
    stringAt (w++(l.text++x))=lexed l := by
  rw [stringAt,trim_literal hw,List.tail_cons,scanString_literal]
  rfl

/-- What may follow a number that ends where it should. -/
def Delimited (s : List UInt8) : Prop := ∀ c∈s.head?,¬Digit c ∧ c≠46 ∧ c≠101 ∧ c≠69

theorem dropWhile_digits {ds : List UInt8} (hds : ∀ d∈ds,Digit d)
    (hx : ∀ c∈x.head?,¬Digit c) : (ds++x).dropWhile isDigit=x := by
  induction ds with
  | nil =>
    cases x with
    | nil => rfl
    | cons c x =>
      have hc : ¬isDigit c=true := fun h => hx c rfl (isDigit_iff.mp h)
      rw [List.nil_append,List.dropWhile_cons,if_neg hc]
  | cons d ds ih =>
    have hd : isDigit d=true := isDigit_iff.mpr (hds d (List.mem_cons_self ..))
    rw [List.cons_append,List.dropWhile_cons,if_pos hd]
    exact ih (fun e he => hds e (List.mem_cons_of_mem d he))

theorem head_digits (ds : Digits) (x : List UInt8) : ∃ d r,ds.1++x=d::r ∧ Digit d := by
  obtain ⟨ds,hne,hd⟩ := ds
  cases ds with
  | nil => exact absurd rfl hne
  | cons d ds => exact ⟨d,ds++x,rfl,hd d (List.mem_cons_self ..)⟩

theorem scanSign_text (n : Numeral) (x : List UInt8) :
    scanSign (n.signText++(n.whole.1++x))=n.whole.1++x := by
  obtain ⟨d,r,hd,hdigit⟩ := head_digits n.whole x
  rw [hd,Numeral.signText,scanSign]
  split
  · rfl
  · have h45 : d≠45 := by
      rintro rfl
      exact absurd hdigit (by decide)
    simp [h45]

theorem scanFraction_text (n : Numeral) (hx : ∀ c∈x.head?,¬Digit c ∧ c≠46) :
    scanFraction (n.fractionText++x)=x := by
  rw [Numeral.fractionText,scanFraction]
  cases n.fraction with
  | none =>
    have h46 : ¬x.head?=some 46 := fun h => (hx 46 h).2 rfl
    simp only [List.nil_append,if_neg h46]
  | some ds =>
    exact dropWhile_digits ds.2.2 (fun c hc => (hx c hc).1)

theorem scanExponent_text (n : Numeral) (hx : Delimited x) :
    scanExponent (n.exponentText++x)=x := by
  rw [Numeral.exponentText,scanExponent]
  cases n.exponent with
  | none =>
    have he : ¬(x.head?=some 101 ∨ x.head?=some 69) := by
      rintro (h | h)
      · exact (hx _ h).2.2.1 rfl
      · exact (hx _ h).2.2.2 rfl
    simp only [List.nil_append,if_neg he]
  | some e =>
    have hmark : (e.text++x).head?=some 101 ∨ (e.text++x).head?=some 69 := by
      rcases e.isMarker with h | h <;> simp [Exponent.text,h]
    have hdrop := dropWhile_digits e.digits.2.2 (fun c hc => (hx c hc).1)
    have htail : (e.text++x).tail=e.sign.toList++(e.digits.1++x) := by simp [Exponent.text]
    simp only [if_pos hmark,htail]
    cases hs : e.sign with
    | none =>
      obtain ⟨d,r,hd,hdigit⟩ := head_digits e.digits x
      have hne : ¬((e.digits.1++x).head?=some 43 ∨ (e.digits.1++x).head?=some 45) := by
        rw [hd]
        rintro (h | h) <;>
        · injection h with h
          subst h
          exact absurd hdigit (by decide)
      rw [Option.toList_none,List.nil_append,if_neg hne]
      exact hdrop
    | some c =>
      have hsign : (c::(e.digits.1++x)).head?=some 43 ∨ (c::(e.digits.1++x)).head?=some 45 := by
        rcases e.isSign c hs with h | h <;> simp [h]
      rw [Option.toList_some,List.singleton_append,if_pos hsign]
      exact hdrop

theorem exponent_head (n : Numeral) (hx : Delimited x) :
    ∀ c∈(n.exponentText++x).head?,¬Digit c ∧ c≠46 := by
  rw [Numeral.exponentText]
  cases n.exponent with
  | none => exact fun c hc => ⟨(hx c hc).1,(hx c hc).2.1⟩
  | some e =>
    intro c hc
    have hm : e.marker=c := Option.some.inj hc
    rw [← hm]
    rcases e.isMarker with h | h <;> (rw [h]; decide)

theorem fraction_head (n : Numeral) (hx : ∀ c∈x.head?,¬Digit c ∧ c≠46) :
    ∀ c∈(n.fractionText++x).head?,¬Digit c := by
  rw [Numeral.fractionText]
  cases n.fraction with
  | none => exact fun c hc => (hx c hc).1
  | some ds =>
    intro c hc
    have hm : 46=c := Option.some.inj hc
    rw [← hm]
    decide

theorem scanNumber_text (n : Numeral) (hx : Delimited x) : scanNumber (n.text++x)=x := by
  have htext : n.text++x=
      n.signText++(n.whole.1++(n.fractionText++(n.exponentText++x))) := by
    simp only [Numeral.text,List.append_assoc]
  have he := exponent_head n hx
  rw [scanNumber,htext,scanSign_text,dropWhile_digits n.whole.2.2 (fraction_head n he),
    scanFraction_text n he,scanExponent_text n hx]

theorem numeral_head (n : Numeral) (x : List UInt8) :
    ∃ c r,n.text++x=c::r ∧ (c=45 ∨ Digit c) := by
  obtain ⟨d,r,hd,hdigit⟩ := head_digits n.whole (n.fractionText++n.exponentText++x)
  cases hn : n.negative with
  | true => exact ⟨45,_,by simp only [Numeral.text,Numeral.signText,hn]; rfl,.inl rfl⟩
  | false =>
    refine ⟨d,r,?_,.inr hdigit⟩
    rw [← hd]
    simp [Numeral.text,Numeral.signText,hn]

theorem number_not_blank (h : c=45 ∨ Digit c) : ¬Blank c := by
  rintro (rfl | rfl | rfl | rfl) <;> exact absurd h (by decide)

theorem trim_numeral (hw : ∀ c∈w,Blank c) (n : Numeral) (x : List UInt8) :
    trim (w++(n.text++x))=n.text++x := by
  obtain ⟨c,r,hr,hc⟩ := numeral_head n x
  rw [hr]
  exact trim_token hw (number_not_blank hc) r

theorem lex_numeral (hw : ∀ c∈w,Blank c) (n : Numeral) (hx : Delimited x) :
    lex (w++(n.text++x))=(.number,x) := by
  obtain ⟨c,r,hr,hc⟩ := numeral_head n x
  have ht := trim_numeral hw n x
  have hd : c=45 ∨ isDigit c := hc.imp_right isDigit_iff.mpr
  rw [hr] at ht
  rw [hr,lex_number ht hd,← hr,scanNumber_text n hx]

theorem numberAt_numeral {δ φ : Type} [Double δ φ] (hw : ∀ c∈w,Blank c) (n : Numeral)
    (hx : Delimited x) : (numberAt (w++(n.text++x)) : δ)=numberValue n.text := by
  have hn : numeral (n.text++x)=n.text := by
    rw [numeral,scanNumber_text n hx,List.length_append,Nat.add_sub_cancel,List.take_left]
  rw [numberAt,trim_numeral hw,hn]

theorem lex_word {word : List UInt8} {k : Token} (hw : ∀ c∈w,Blank c)
    (hc : keyword c=some (word,k)) (x : List UInt8) : lex (w++(c::word++x))=(k,x) := by
  have hb : ¬Blank c := by
    rintro (rfl | rfl | rfl | rfl) <;> cases hc
  have hl := lex_keyword (trim_token hw hb (word++x)) hc
  rw [scanKeyword,List.take_left,List.drop_left,if_pos rfl] at hl
  exact hl

theorem exact_of_other (hs : (lex s).1≠.string) (hn : (lex s).1≠.number) : Exact s :=
  ⟨fun h => absurd h hs,fun h => absurd h hn⟩

theorem exact_literal (hw : ∀ c∈w,Blank c) (l : Literal) (x : List UInt8) :
    Exact (w++(l.text++x)) := by
  rw [Exact,lex_literal hw,trim_blanks hw]
  refine ⟨fun _ => ⟨l,?_⟩,fun h => by cases h⟩
  exact trim_cons (by decide) _

theorem exact_numeral (hw : ∀ c∈w,Blank c) (n : Numeral) (hx : Delimited x) :
    Exact (w++(n.text++x)) := by
  rw [Exact,lex_numeral hw n hx,trim_numeral hw]
  exact ⟨fun h => (by cases h),fun _ => ⟨n,rfl⟩⟩

theorem delimited_of_blanks (hw : ∀ c∈w,Blank c) (hx : Delimited x) : Delimited (w++x) := by
  cases w with
  | nil => exact hx
  | cons c w =>
    intro d hd
    have hcd : c=d := Option.some.inj hd
    have hb := hw c (List.mem_cons_self ..)
    rw [← hcd]
    rcases hb with rfl | rfl | rfl | rfl <;> decide

/-- A token of one character ends the number in front of it. -/
theorem delimited_of_punctuation {k : Token} (hc : punctuation c=some k)
    {ts : List (List UInt8)} (h : Spaced ([c]::ts) s rest) : Delimited s := by
  obtain ⟨w,s',hw,rfl,-⟩ := h
  apply delimited_of_blanks hw
  intro d hd
  have hcd : c=d := Option.some.inj hd
  subst hcd
  unfold punctuation at hc
  split_ifs at hc <;> (subst c; decide)

/-- The bracket that closes a body is not behind a comma. -/
theorem spaced_close {k : Token} (hc : punctuation c=some k) (hk : k≠.comma)
    (h : Spaced [[c]] s rest) : Delimited s ∧ Spaced [[c]] (afterComma s) rest := by
  have hne : (lex s).1≠.comma := by rw [(lex_of_spaced hc h).1]; exact hk
  refine ⟨delimited_of_punctuation hc h,?_⟩
  rw [afterComma,if_neg hne]
  exact h

theorem spaced_comma {ts : List (List UInt8)} (h : Spaced ([44]::ts) s rest) :
    Delimited s ∧ Spaced ts (afterComma s) rest := by
  obtain ⟨hl,ht⟩ := lex_of_spaced (k := .comma) rfl h
  refine ⟨delimited_of_punctuation (k := .comma) rfl h,?_⟩
  rw [afterComma,if_pos hl]
  exact ht

theorem lenient_literal {l : Literal} (h : Spaced [l.text] s rest) :
    Lenient .value true s rest := by
  obtain ⟨w,s',hw,rfl,rfl⟩ := h
  have hl := lex_literal hw l s'
  have hv := Lenient.scalar (c := true) (s := w++(l.text++s')) (by rw [hl]; rfl)
    (iff_of_true rfl (exact_literal hw l s'))
  rw [hl] at hv
  exact hv

theorem lenient_numeral {n : Numeral} (h : Spaced [n.text] s rest) (hr : Delimited rest) :
    Lenient .value true s rest := by
  obtain ⟨w,s',hw,rfl,rfl⟩ := h
  have hl := lex_numeral hw n hr
  have hv := Lenient.scalar (c := true) (s := w++(n.text++s')) (by rw [hl]; rfl)
    (iff_of_true rfl (exact_numeral hw n hr))
  rw [hl] at hv
  exact hv

theorem keyword_scalar {word : List UInt8} {k : Token} (hc : keyword c=some (word,k)) :
    isScalar k=true := by
  unfold keyword at hc
  split_ifs at hc <;> (injection hc with hc; injection hc with _ hc; subst hc; rfl)

theorem lenient_word {word : List UInt8} {k : Token} (hc : keyword c=some (word,k))
    (h : Spaced [c::word] s rest) : Lenient .value true s rest := by
  obtain ⟨w,s',hw,rfl,rfl⟩ := h
  have hl := lex_word hw hc s'
  have hk := keyword_plain hc
  have hv := Lenient.scalar (c := true) (s := w++(c::word++s'))
    (by rw [hl]; exact keyword_scalar hc)
    (iff_of_true rfl (exact_of_other (by rw [hl]; exact hk.1) (by rw [hl]; exact hk.2.1)))
  rw [hl] at hv
  exact hv

/-- The closing character of a body, without a comma in front of it. -/
theorem separated_close {b : Bracket} (hc : punctuation c=some b.closing)
    (h : Spaced [[c]] s rest) : wellSeparated b s=true ∧ Delimited s ∧
      Lenient (.body b) true (afterComma s) rest := by
  obtain ⟨hl,hr⟩ := lex_of_spaced hc h
  have hne : (lex s).1≠.comma := by rw [hl]; exact (Bracket.apart b b).2.2.2.2.2.1
  have hrest : (lex s).2=rest := hr
  refine ⟨?_,delimited_of_punctuation hc h,?_⟩
  · rw [wellSeparated,if_neg hne,hl]
    exact decide_eq_true rfl
  · rw [afterComma,if_neg hne,← hrest]
    exact .close b hl

/-- A comma, and a body that does not end behind it. -/
theorem separated_comma {b : Bracket} {ts : List (List UInt8)} (h : Spaced ([44]::ts) s rest)
    (ht : ∀ x,Spaced ts x rest → Lenient (.body b) true x rest ∧ (lex x).1≠b.closing) :
    wellSeparated b s=true ∧ Delimited s ∧ Lenient (.body b) true (afterComma s) rest := by
  have hc : punctuation 44=some .comma := by decide
  obtain ⟨hl,hr⟩ := lex_of_spaced hc h
  obtain ⟨hb,hne⟩ := ht _ hr
  refine ⟨?_,delimited_of_punctuation hc h,?_⟩
  · rw [wellSeparated,if_pos hl]
    exact decide_eq_true hne
  · rw [afterComma,if_pos hl]
    exact hb

mutual

theorem Value.lenient : (v : Value) → {s rest : List UInt8} → Spaced v.texts s rest →
    Delimited rest → Lenient .value true s rest
  | .null,_,_,h,_ => lenient_word (c := 110) rfl h
  | .bool true,_,_,h,_ => lenient_word (c := 116) rfl h
  | .bool false,_,_,h,_ => lenient_word (c := 102) rfl h
  | .number _,_,_,h,hr => lenient_numeral h hr
  | .string _,_,_,h,_ => lenient_literal h
  | .array es,_,_,h,_ => by
    obtain ⟨hl,hes⟩ := lex_of_spaced (k := .lbracket) rfl h
    exact .nested .bracket hl (Elements.lenient es hes).1
  | .object ms,_,_,h,_ => by
    obtain ⟨hl,hms⟩ := lex_of_spaced (k := .lbrace) rfl h
    exact .nested .brace hl (Members.lenient ms hms).1

theorem Elements.lenient : (es : Elements) → {s rest : List UInt8} → Spaced es.texts s rest →
    Lenient (.body .bracket) true s rest ∧ (es≠.nil → (lex s).1≠.rbracket)
  | .nil,s,_,h => by
    obtain ⟨hl,hr⟩ := lex_of_spaced (k := .rbracket) rfl h
    have hrest : (lex s).2=_ := hr
    refine ⟨?_,fun hn => absurd rfl hn⟩
    rw [← hrest]
    exact .close .bracket hl
  | .cons v es,s,rest,h => by
    obtain ⟨s₁,hv,hm⟩ := spaced_append.mp h
    have hmore : wellSeparated .bracket s₁=true ∧ Delimited s₁ ∧
        Lenient (.body .bracket) true (afterComma s₁) rest := by
      cases es with
      | nil => exact separated_close rfl hm
      | cons v' es' =>
        apply separated_comma hm
        intro x hx
        have ih := Elements.lenient (.cons v' es') hx
        exact ⟨ih.1,ih.2 (by simp)⟩
    have hvalue := Value.lenient v hv hmore.2.1
    refine ⟨?_,fun _ => hvalue.start.2.2.2 .bracket⟩
    have he := Lenient.element hvalue hmore.2.2
    rw [hmore.1] at he
    exact he

theorem Members.lenient : (ms : Members) → {s rest : List UInt8} → Spaced ms.texts s rest →
    Lenient (.body .brace) true s rest ∧ (ms≠.nil → (lex s).1≠.rbrace)
  | .nil,s,_,h => by
    obtain ⟨hl,hr⟩ := lex_of_spaced (k := .rbrace) rfl h
    have hrest : (lex s).2=_ := hr
    refine ⟨?_,fun hn => absurd rfl hn⟩
    rw [← hrest]
    exact .close .brace hl
  | .cons name v ms,s,rest,h => by
    obtain ⟨w,s₀,hw,rfl,hcolon⟩ := h
    obtain ⟨hlc,hvm⟩ := lex_of_spaced (k := .colon) rfl hcolon
    obtain ⟨s₁,hv,hm⟩ := spaced_append.mp hvm
    have hmore : wellSeparated .brace s₁=true ∧ Delimited s₁ ∧
        Lenient (.body .brace) true (afterComma s₁) rest := by
      cases ms with
      | nil => exact separated_close rfl hm
      | cons name' v' ms' =>
        apply separated_comma hm
        intro x hx
        have ih := Members.lenient (.cons name' v' ms') hx
        exact ⟨ih.1,ih.2 (by simp)⟩
    have hvalue := Value.lenient v hv hmore.2.1
    have hl := lex_literal hw name s₀
    refine ⟨?_,fun _ => by rw [hl]; simp⟩
    have hflag : true=true ↔ Exact (w++(name.text++s₀)) :=
      iff_of_true rfl (exact_literal hw name s₀)
    have he := Lenient.member (by rw [hl]) hflag (by rw [hl]; exact hlc) (by rw [hl]; exact hvalue)
      hmore.2.2
    rw [hmore.1] at he
    exact he

end

theorem punctuation_injective {d : UInt8} {k : Token} (hc : punctuation c=some k)
    (hd : punctuation d=some k) : d=c := by
  have hchar : ∀ {b : UInt8},punctuation b=some k →
      b=(match k with
        | .lbrace => 123
        | .rbrace => 125
        | .lbracket => 91
        | .rbracket => 93
        | .colon => 58
        | _ => 44) := by
    intro b hb
    unfold punctuation at hb
    split_ifs at hb <;> (injection hb with hb; subst hb; assumption)
  exact (hchar hd).trans (hchar hc).symm

theorem punctuation_not_scalar {k : Token} (hc : punctuation c=some k) : isScalar k=false := by
  unfold punctuation at hc
  split_ifs at hc <;> (injection hc with hc; subst hc; rfl)

theorem spaced_of_punctuation {k : Token} (hc : punctuation c=some k) (h : (lex s).1=k)
    {ts : List (List UInt8)} (ht : Spaced ts (lex s).2 rest) : Spaced ([c]::ts) s rest := by
  have hplain := punctuation_plain hc
  have hns := punctuation_not_scalar hc
  obtain ⟨w,hw,hs⟩ := eq_blanks_trim s
  rcases lex_cases s with ⟨-,hl⟩ | ⟨d,r,t,htrim,hd,hl⟩ | ⟨r,x,-,-,hl⟩ | ⟨d,r,word,t,-,hk,hl⟩ |
    ⟨d,r,-,-,hl⟩ | hl
  · rw [hl] at h
    exact absurd h.symm hplain.2.2.2
  · rw [hl] at h ht
    have htk : t=k := h
    subst htk
    rw [punctuation_injective hc hd] at htrim
    exact ⟨w,r,hw,by rw [List.singleton_append,← htrim]; exact hs,ht⟩
  · rw [hl] at h
    exact absurd h.symm hplain.1
  · rw [hl] at h
    have hsc := keyword_scalar hk
    have htk : t=k := h
    rw [htk,hns] at hsc
    cases hsc
  · rw [hl] at h
    exact absurd h.symm hplain.2.1
  · rw [hl] at h
    exact absurd h.symm hplain.2.2.1

/-- A single value token, spelled as it should be. -/
theorem spelled_scalar (h : isScalar (lex s).1) (he : Exact s) :
    ∃ v : Value,Spaced v.texts s (lex s).2 := by
  obtain ⟨w,hw,hs⟩ := eq_blanks_trim s
  rcases lex_cases s with ⟨-,hl⟩ | ⟨d,r,t,-,hd,hl⟩ | ⟨r,x,-,-,hl⟩ | ⟨d,r,word,t,htrim,hk,hl⟩ |
    ⟨d,r,-,-,hl⟩ | hl
  · rw [hl] at h
    cases h
  · rw [hl] at h
    rw [punctuation_not_scalar hd] at h
    cases h
  · obtain ⟨l,ht⟩ := he.1 (by rw [hl])
    exact ⟨.string l,w,(lex s).2,hw,by rw [← ht]; exact hs,rfl⟩
  · have hword : ∃ v : Value,v.texts=[d::word] := by
      unfold keyword at hk
      split_ifs at hk with h1 h2 h3
      · injection hk with hk; injection hk with hk _
        exact ⟨.bool true,by rw [h1,← hk]; rfl⟩
      · injection hk with hk; injection hk with hk _
        exact ⟨.bool false,by rw [h2,← hk]; rfl⟩
      · injection hk with hk; injection hk with hk _
        exact ⟨.null,by rw [h3,← hk]; rfl⟩
    obtain ⟨v,hv⟩ := hword
    rw [hl]
    refine ⟨v,?_⟩
    rw [hv]
    exact ⟨w,r,hw,by rw [List.cons_append,← htrim]; exact hs,rfl⟩
  · obtain ⟨n,ht⟩ := he.2 (by rw [hl])
    exact ⟨.number n,w,(lex s).2,hw,by rw [← ht]; exact hs,rfl⟩
  · rw [hl] at h
    cases h

/-- Something that RFC 8259 has between `s` and `s'`. -/
def Part.Spelled : Part → List UInt8 → List UInt8 → Prop
  | .value,s,s' => ∃ v : Value,Spaced v.texts s s'
  | .body .brace,s,s' => ∃ ms : Members,Spaced ms.texts s s'
  | .body .bracket,s,s' => ∃ es : Elements,Spaced es.texts s s'

theorem members_more {ms : Members} (hw : wellSeparated .brace s=true)
    (h : Spaced ms.texts (afterComma s) rest) : Spaced ms.more s rest := by
  have hms := Members.lenient ms h
  unfold wellSeparated at hw
  unfold afterComma at h hms
  split at hw
  · next hc =>
    rw [if_pos hc] at h hms
    rw [decide_eq_true_eq] at hw
    cases ms with
    | nil => exact absurd (lex_of_spaced (k := .rbrace) rfl h).1 hw
    | cons name v ms => exact spaced_of_punctuation (c := 44) (k := .comma) rfl hc h
  · next hc =>
    rw [if_neg hc] at h hms
    rw [decide_eq_true_eq] at hw
    cases ms with
    | nil => exact h
    | cons name v ms => exact absurd hw (hms.2 (by simp))

theorem elements_more {es : Elements} (hw : wellSeparated .bracket s=true)
    (h : Spaced es.texts (afterComma s) rest) : Spaced es.more s rest := by
  have hes := Elements.lenient es h
  unfold wellSeparated at hw
  unfold afterComma at h hes
  split at hw
  · next hc =>
    rw [if_pos hc] at h hes
    rw [decide_eq_true_eq] at hw
    cases es with
    | nil => exact absurd (lex_of_spaced (k := .rbracket) rfl h).1 hw
    | cons v es => exact spaced_of_punctuation (c := 44) (k := .comma) rfl hc h
  · next hc =>
    rw [if_neg hc] at h hes
    rw [decide_eq_true_eq] at hw
    cases es with
    | nil => exact h
    | cons v es => exact absurd hw (hes.2 (by simp))

theorem Lenient.spelled {k : Part} {c : Bool} {s' : List UInt8} (h : Lenient k c s s')
    (hc : c=true) : k.Spelled s s' := by
  induction h with
  | scalar h he => exact spelled_scalar h (he.mp hc)
  | nested b h _ ih =>
    cases b with
    | brace =>
      obtain ⟨ms,hms⟩ := ih hc
      exact ⟨.object ms,spaced_of_punctuation (c := 123) (k := .lbrace) rfl h hms⟩
    | bracket =>
      obtain ⟨es,hes⟩ := ih hc
      exact ⟨.array es,spaced_of_punctuation (c := 91) (k := .lbracket) rfl h hes⟩
  | close b h =>
    cases b with
    | brace => exact ⟨.nil,spaced_of_punctuation (c := 125) (k := .rbrace) rfl h rfl⟩
    | bracket => exact ⟨.nil,spaced_of_punctuation (c := 93) (k := .rbracket) rfl h rfl⟩
  | eof => cases hc
  | @member c₁ c₂ c₃ s s₁ s' hs he hcolon _ _ ihv ihm =>
    simp only [Bool.and_eq_true] at hc
    obtain ⟨⟨⟨h1,h2⟩,hsep⟩,h3⟩ := hc
    obtain ⟨name,hname⟩ := (he.mp h1).1 hs
    obtain ⟨v,hv⟩ := ihv h2
    obtain ⟨ms,hms⟩ := ihm h3
    obtain ⟨w,hw,hsw⟩ := eq_blanks_trim s
    have hmore := spaced_append.mpr ⟨s₁,hv,members_more hsep hms⟩
    have hrest := spaced_of_punctuation (c := 58) (k := .colon) rfl hcolon hmore
    exact ⟨.cons name v ms,w,(lex s).2,hw,by rw [← hname]; exact hsw,hrest⟩
  | @element c₁ c₂ s s₁ s' _ _ ihv ihm =>
    simp only [Bool.and_eq_true] at hc
    obtain ⟨⟨h1,hsep⟩,h2⟩ := hc
    obtain ⟨v,hv⟩ := ihv h1
    obtain ⟨es,hes⟩ := ihm h2
    exact ⟨.cons v es,spaced_append.mpr ⟨s₁,hv,elements_more hsep hes⟩⟩

end Cllm.Json
