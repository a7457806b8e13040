import Cllm.Json.Tree

namespace Cllm.Json

open Libc Rfc8259

/-- A token with what the parser has read of it. -/
inductive Lexeme where
  | token (t : Token)
  | string (s : List UInt8)
  | number (v : Option ℚ)

/-- The current token of the parser, the contents of string_buf or the value of number_value. -/
def Parser.lexeme (p : Parser Binary64) : Lexeme :=
  if p.current=.string then .string p.stringBuf.bytes
  else if p.current=.number then .number p.numberValue.value
  else .token p.current

/-- What `n` calls of json_next_token read. -/
def Parser.lexemes : Nat → Parser Binary64 → List Lexeme
  | 0,_ => []
  | n+1,p => (jsonNextToken p).lexeme::Parser.lexemes n (jsonNextToken p)

/-- The characters that json_write_string does not skip. -/
def keeps (c : UInt8) : Bool := 32 ≤ c ∨ c=8 ∨ c=9 ∨ c=10 ∨ c=12 ∨ c=13

/-- What string_buf has room for. -/
def held (s : List UInt8) : List UInt8 := s.take (stringBufSize-1)

def commaLexeme (b : Bool) : List Lexeme := if b then [.token .comma] else []

mutual

def Tree.lexemes : Tree → List Lexeme
  | .null => [.token .null]
  | .bool true => [.token .true]
  | .bool false => [.token .false]
  | .int i => [.number (some i.toInt)]
  | .string s => [.string (held (s.1.filter keeps))]
  | .array ts => .token .lbracket::(ts.lexemes false++[.token .rbracket])
  | .object fs => .token .lbrace::(fs.lexemes false++[.token .rbrace])

def Trees.lexemes : Trees → Bool → List Lexeme
  | .nil,_ => []
  | .cons t ts,b => commaLexeme b++(t.lexemes++ts.lexemes true)

def Fields.lexemes : Fields → Bool → List Lexeme
  | .nil,_ => []
  | .cons k t fs,b =>
    commaLexeme b++.string (held k.1)::.token .colon::(t.lexemes++fs.lexemes true)

end

/-- The first lexeme of `s`. -/
def lexemeAt (s : List UInt8) : Lexeme :=
  if (lex s).1=.string then .string (held (stringAt s))
  else if (lex s).1=.number then .number (numberAt s : Binary64).value
  else .token (lex s).1

/-- `s` is read as `ls`, and then `rest` is left. -/
def Lexes : List Lexeme → List UInt8 → List UInt8 → Prop
  | [],s,rest => s=rest
  | l::ls,s,rest => (lex s).1≠.error ∧ lexemeAt s=l ∧ Lexes ls (lex s).2 rest

variable {s x rest : List UInt8} {ls ms : List Lexeme} {p : Parser Binary64}

theorem lexes_append {s' : List UInt8} (hl : Lexes ls s s') (hm : Lexes ms s' rest) :
    Lexes (ls++ms) s rest := by
  induction ls generalizing s with
  | nil =>
    have hs : s=s' := hl
    exact hs ▸ hm
  | cons l ls ih =>
    obtain ⟨he,ha,hr⟩ := hl
    exact ⟨he,ha,ih hr⟩

theorem Sees.lexeme (h : Sees p s) : p.lexeme=lexemeAt s := by
  unfold Parser.lexeme lexemeAt
  rw [h.current]
  split
  · next hs => rw [h.string (h.current.trans hs)]; rfl
  · split
    · next hn => rw [h.number (h.current.trans hn)]
    · rfl

/-- json_next_token reads the lexemes of its input. -/
theorem lexemes_of_lexes (hp : p.Within) (hs : p.rest=s) (h : Lexes ls s rest) :
    p.lexemes ls.length=ls := by
  induction ls generalizing p s with
  | nil => rfl
  | cons l ls ih =>
    obtain ⟨he,ha,hr⟩ := h
    have hsees := jsonNextToken_sees hp
    rw [hs] at hsees
    have hnext := ih hsees.within (hsees.rest (by rw [hsees.current]; exact he)) hr
    rw [List.length_cons,Parser.lexemes,hsees.lexeme,ha,hnext]

theorem lex_mark {c : UInt8} {k : Token} (hc : punctuation c=some k) (x : List UInt8) :
    lex (c::x)=(k,x) := lex_punctuation (trim_cons (punctuation_not_blank hc) x) hc

theorem lexes_mark {c : UInt8} {k : Token} (hc : punctuation c=some k) (x : List UInt8) :
    Lexes [.token k] (c::x) x := by
  have hplain := punctuation_plain hc
  have hl := lex_mark hc x
  refine ⟨?_,?_,?_⟩
  · rw [hl]
    exact hplain.2.2.1
  · rw [lexemeAt,hl,if_neg hplain.1,if_neg hplain.2.1]
  · rw [hl]
    rfl

theorem lexes_word {c : UInt8} {word : List UInt8} {k : Token} (hc : keyword c=some (word,k))
    (x : List UInt8) : Lexes [.token k] (c::word++x) x := by
  have hplain := keyword_plain hc
  have hl := lex_word (w := []) (by simp) hc x
  rw [List.nil_append] at hl
  refine ⟨?_,?_,?_⟩
  · rw [hl]
    exact hplain.2.2.1
  · rw [lexemeAt,hl,if_neg hplain.1,if_neg hplain.2.1]
  · rw [hl]
    rfl

theorem lexes_int (i : Int32) (hx : Delimited x) :
    Lexes [.number (some (i.toInt : ℚ))] (intText i++x) x := by
  have hl := lex_numeral (w := []) (by simp) (intNumeral i) hx
  have hv : (numberAt ([]++((intNumeral i).text++x)) : Binary64)=_ :=
    numberAt_numeral (by simp) (intNumeral i) hx
  rw [List.nil_append,intNumeral_text] at hl hv
  refine ⟨?_,?_,?_⟩
  · rw [hl]
    simp
  · rw [lexemeAt,hl,if_neg (by simp),if_pos rfl,hv,numberValue_intText]
  · rw [hl]
    rfl

theorem lex_scanned {t d : List UInt8} (h : scanString t=some (d,x)) :
    lex (34::t)=(.string,x) := by
  have hl := lex_string (trim_cons (by decide) t)
  rw [h] at hl
  exact hl

/-- A string token whose characters are scanned as `d`. -/
theorem lexes_scanned {t d : List UInt8} (h : scanString t=some (d,x)) :
    Lexes [.string (held d)] (34::t) x := by
  have ht : trim (34::t)=34::t := trim_cons (by decide) t
  have hl := lex_scanned h
  refine ⟨?_,?_,?_⟩
  · rw [hl]
    simp
  · rw [lexemeAt,hl,if_pos rfl,stringAt,ht,List.tail_cons,h,Option.getD_some]
  · rw [hl]
    rfl

theorem scanString_key {k : List UInt8} (hk : ∀ c∈k,c≠0 ∧ c≠34 ∧ c≠92) (x : List UInt8) :
    scanString (k++34::x)=some (k,x) := by
  induction k with
  | nil => exact scanString_quote x
  | cons c k ih =>
    rw [List.forall_mem_cons] at hk
    rw [List.cons_append,scanString_plain hk.1.2.1 hk.1.2.2,ih hk.2]
    rfl

/-- The element of a literal that json_write_string writes for a character. -/
def stringElement (c : UInt8) : Option StringChar :=
  if c=34 then some (.escape .quote)
  else if c=92 then some (.escape .backslash)
  else if c=8 then some (.escape .b)
  else if c=12 then some (.escape .f)
  else if c=10 then some (.escape .n)
  else if c=13 then some (.escape .r)
  else if c=9 then some (.escape .t)
  else if h : 32 ≤ c ∧ c≠34 ∧ c≠92 then some (.plain c h)
  else none

/-- The characters that have an escape of their own. -/
def Marked (c : UInt8) : Prop := c=34 ∨ c=92 ∨ c=8 ∨ c=12 ∨ c=10 ∨ c=13 ∨ c=9

theorem stringElement_unmarked {c : UInt8} (h : ¬Marked c) :
    stringElement c=if h : 32 ≤ c ∧ c≠34 ∧ c≠92 then some (.plain c h) else none := by
  simp only [Marked,not_or] at h
  obtain ⟨h1,h2,h3,h4,h5,h6,h7⟩ := h
  rw [stringElement,if_neg h1,if_neg h2,if_neg h3,if_neg h4,if_neg h5,if_neg h6,if_neg h7]

theorem escaped_unmarked {c : UInt8} (h : ¬Marked c) :
    escaped c=if c < 32 then none else some [c] := by
  simp only [Marked,not_or] at h
  obtain ⟨h1,h2,h3,h4,h5,h6,h7⟩ := h
  rw [escaped,if_neg h1,if_neg h2,if_neg h3,if_neg h4,if_neg h5,if_neg h6,if_neg h7]

theorem stringElement_text (c : UInt8) :
    ((stringElement c).map StringChar.text).getD []=(escaped c).getD [] := by
  by_cases h : Marked c
  · rcases h with rfl | rfl | rfl | rfl | rfl | rfl | rfl <;> rfl
  · rw [stringElement_unmarked h,escaped_unmarked h]
    by_cases h32 : 32 ≤ c
    · have hplain : 32 ≤ c ∧ c≠34 ∧ c≠92 := ⟨h32,fun hc => h (.inl hc),fun hc => h (.inr (.inl hc))⟩
      rw [dif_pos hplain,if_neg (UInt8.not_lt.mpr h32)]
      rfl
    · rw [dif_neg (fun hc => h32 hc.1),if_pos (UInt8.not_le.mp h32)]
      rfl

theorem stringElement_lexed (c : UInt8) :
    (stringElement c).map lexedChar=if keeps c then some c else none := by
  have hk : keeps c=true ↔ 32 ≤ c ∨ c=8 ∨ c=9 ∨ c=10 ∨ c=12 ∨ c=13 := decide_eq_true_iff
  by_cases h : Marked c
  · rcases h with rfl | rfl | rfl | rfl | rfl | rfl | rfl <;> rfl
  · rw [stringElement_unmarked h]
    simp only [Marked,not_or] at h
    obtain ⟨h1,h2,h3,h4,h5,h6,h7⟩ := h
    by_cases h32 : 32 ≤ c
    · rw [dif_pos ⟨h32,h1,h2⟩,if_pos (hk.mpr (Or.inl h32))]
      rfl
    · have hno : ¬keeps c=true := by
        rw [hk]
        tauto
      rw [dif_neg (fun hc => h32 hc.1),if_neg hno]
      rfl

def stringLiteral (s : List UInt8) : Literal := s.filterMap stringElement

theorem stringLiteral_inner (s : List UInt8) : (stringLiteral s).inner=escapedText s := by
  induction s with
  | nil => rfl
  | cons c s ih =>
    have hc := stringElement_text c
    have he : escapedText (c::s)=(escaped c).getD []++escapedText s := rfl
    rw [he,← ih,← hc,stringLiteral,List.filterMap_cons]
    cases stringElement c <;> rfl

theorem lexed_stringLiteral (s : List UInt8) : lexed (stringLiteral s)=s.filter keeps := by
  induction s with
  | nil => rfl
  | cons c s ih =>
    have hc := stringElement_lexed c
    rw [stringLiteral,List.filterMap_cons,List.filter_cons]
    cases hs : stringElement c with
    | none =>
      rw [hs] at hc
      split at hc
      · cases hc
      · next hk =>
        rw [if_neg hk]
        exact ih
    | some e =>
      rw [hs] at hc
      split at hc
      · next hk =>
        rw [if_pos hk,← ih,← Option.some.inj hc]
        rfl
      · cases hc

theorem lexes_string (s : List UInt8) (x : List UInt8) :
    Lexes [.string (held (s.filter keeps))] (stringText s++x) x := by
  have hscan := scanString_literal (stringLiteral s) x
  rw [stringLiteral_inner,lexed_stringLiteral] at hscan
  have hl := lexes_scanned hscan
  have ht : stringText s++x=34::(escapedText s++34::x) := by simp [stringText]
  rw [ht]
  exact hl

theorem delimited_mark {c : UInt8} {k : Token} (hc : punctuation c=some k) (x : List UInt8) :
    Delimited (c::x) :=
  @delimited_of_punctuation (c::x) x c k hc [] ⟨[],x,by simp,rfl,rfl⟩

theorem Trees.delimited (ts : Trees) (hx : Delimited x) : Delimited (ts.text true++x) := by
  cases ts with
  | nil => exact hx
  | cons t ts => exact delimited_mark (k := .comma) rfl _

theorem Fields.delimited (fs : Fields) (hx : Delimited x) : Delimited (fs.text true++x) := by
  cases fs with
  | nil => exact hx
  | cons k t fs => exact delimited_mark (k := .comma) rfl _

theorem lexes_comma (b : Bool) (x : List UInt8) : Lexes (commaLexeme b) (comma b++x) x := by
  cases b with
  | true => exact lexes_mark (k := .comma) rfl x
  | false => rfl

mutual

theorem Tree.lexes : (t : Tree) → {x : List UInt8} → Delimited x →
    Lexes t.lexemes (t.text++x) x
  | .null,x,_ => lexes_word (c := 110) rfl x
  | .bool true,x,_ => lexes_word (c := 116) rfl x
  | .bool false,x,_ => lexes_word (c := 102) rfl x
  | .int i,_,hx => lexes_int i hx
  | .string s,x,_ => lexes_string s.1 x
  | .array ts,x,_ => by
    have hclose := lexes_mark (c := 93) (k := .rbracket) rfl x
    have hts := Trees.lexes ts false (delimited_mark (c := 93) (k := .rbracket) rfl x)
    have hall := lexes_append (lexes_mark (c := 91) (k := .lbracket) rfl _)
      (lexes_append hts hclose)
    simpa [Tree.lexemes,Tree.text] using hall
  | .object fs,x,_ => by
    have hclose := lexes_mark (c := 125) (k := .rbrace) rfl x
    have hfs := Fields.lexes fs false (delimited_mark (c := 125) (k := .rbrace) rfl x)
    have hall := lexes_append (lexes_mark (c := 123) (k := .lbrace) rfl _)
      (lexes_append hfs hclose)
    simpa [Tree.lexemes,Tree.text] using hall

theorem Trees.lexes : (ts : Trees) → (b : Bool) → {x : List UInt8} → Delimited x →
    Lexes (ts.lexemes b) (ts.text b++x) x
  | .nil,_,_,_ => rfl
  | .cons t ts,b,x,hx => by
    have ht := Tree.lexes t (ts.delimited hx)
    have hall := lexes_append (lexes_comma b _) (lexes_append ht (Trees.lexes ts true hx))
    simpa [Trees.lexemes,Trees.text] using hall

theorem Fields.lexes : (fs : Fields) → (b : Bool) → {x : List UInt8} → Delimited x →
    Lexes (fs.lexemes b) (fs.text b++x) x
  | .nil,_,_,_ => rfl
  | .cons k t fs,b,x,hx => by
    have ht := Tree.lexes t (fs.delimited hx)
    have hkey := lexes_scanned (scanString_key k.2 (58::(t.text++(fs.text true++x))))
    have hcolon := lexes_mark (c := 58) (k := .colon) rfl (t.text++(fs.text true++x))
    have hall := lexes_append (lexes_comma b _) (lexes_append hkey (lexes_append hcolon
      (lexes_append ht (Fields.lexes fs true hx))))
    simpa [Fields.lexemes,Fields.text] using hall

end

/-- A value of one lexeme. -/
def Lexeme.isScalar : Lexeme → Bool
  | .token t => Json.isScalar t
  | .string _ => true
  | .number _ => true

theorem isScalar_lexemeAt : (lexemeAt s).isScalar=isScalar (lex s).1 := by
  unfold lexemeAt
  split
  · next h => rw [h]; rfl
  · split
    · next h => rw [h]; rfl
    · rfl

theorem lenient_scalar {l : Lexeme} (h : Lexes [l] s x) (hl : l.isScalar) :
    ∃ c,Lenient .value c s x := by
  obtain ⟨-,ha,hr⟩ := h
  have hx : (lex s).2=x := hr
  rw [← ha,isScalar_lexemeAt] at hl
  obtain ⟨c,hc⟩ := exact_flag s
  exact ⟨c,hx ▸ .scalar hl hc⟩

theorem Trees.afterComma (ts : Trees) (hx : (lex x).1≠.comma) :
    afterComma (ts.text true++x)=ts.text false++x := by
  cases ts with
  | nil => exact if_neg hx
  | cons t ts =>
    have hl := lex_mark (c := 44) (k := .comma) rfl (t.text++(ts.text true++x))
    have ht : (Trees.cons t ts).text true++x=44::(t.text++(ts.text true++x)) := by
      simp [Trees.text,comma]
    rw [ht,Json.afterComma,hl,if_pos rfl]
    simp [Trees.text,comma]

theorem Fields.afterComma (fs : Fields) (hx : (lex x).1≠.comma) :
    afterComma (fs.text true++x)=fs.text false++x := by
  cases fs with
  | nil => exact if_neg hx
  | cons k t fs =>
    have hl := lex_mark (c := 44) (k := .comma) rfl
      (34::(k.1++34::58::(t.text++(fs.text true++x))))
    have ht : (Fields.cons k t fs).text true++x=
        44::34::(k.1++34::58::(t.text++(fs.text true++x))) := by
      simp [Fields.text,comma]
    rw [ht,Json.afterComma,hl,if_pos rfl]
    simp [Fields.text,comma]

theorem lenient_close (b : Bracket) {c : UInt8} (hc : punctuation c=some b.closing)
    (x : List UInt8) : Lenient (.body b) true (c::x) x := by
  have hl := lex_mark hc x
  have h := Lenient.close (s := c::x) b (by rw [hl])
  rw [hl] at h
  exact h

theorem lenient_nested (b : Bracket) {c : UInt8} {flag : Bool} {y : List UInt8}
    (hc : punctuation c=some b.opening) (h : Lenient (.body b) flag y x) :
    Lenient .value flag (c::y) x := by
  have hl := lex_mark hc y
  exact .nested b (by rw [hl]) (by rw [hl]; exact h)

mutual

theorem Tree.lenient : (t : Tree) → {x : List UInt8} → Delimited x →
    ∃ c,Lenient .value c (t.text++x) x
  | .null,_,hx => lenient_scalar (Tree.lexes .null hx) rfl
  | .bool true,_,hx => lenient_scalar (Tree.lexes (.bool true) hx) rfl
  | .bool false,_,hx => lenient_scalar (Tree.lexes (.bool false) hx) rfl
  | .int i,_,hx => lenient_scalar (Tree.lexes (.int i) hx) rfl
  | .string s,_,hx => lenient_scalar (Tree.lexes (.string s) hx) rfl
  | .array ts,x,_ => by
    obtain ⟨c,hts⟩ := Trees.lenient ts x
    have h := lenient_nested .bracket (c := 91) rfl hts
    exact ⟨c,by simpa [Tree.text] using h⟩
  | .object fs,x,_ => by
    obtain ⟨c,hfs⟩ := Fields.lenient fs x
    have h := lenient_nested .brace (c := 123) rfl hfs
    exact ⟨c,by simpa [Tree.text] using h⟩

theorem Trees.lenient : (ts : Trees) → (x : List UInt8) →
    ∃ c,Lenient (.body .bracket) c (ts.text false++93::x) x
  | .nil,x => ⟨true,lenient_close .bracket rfl x⟩
  | .cons t ts,x => by
    have hclose := lex_mark (c := 93) (k := .rbracket) rfl x
    obtain ⟨c₁,ht⟩ := Tree.lenient t
      (ts.delimited (delimited_mark (c := 93) (k := .rbracket) rfl x))
    obtain ⟨c₂,hts⟩ := Trees.lenient ts x
    rw [← ts.afterComma (by rw [hclose]; simp)] at hts
    have h := Lenient.element ht hts
    exact ⟨_,by simpa [Trees.text,comma] using h⟩

theorem Fields.lenient : (fs : Fields) → (x : List UInt8) →
    ∃ c,Lenient (.body .brace) c (fs.text false++125::x) x
  | .nil,x => ⟨true,lenient_close .brace rfl x⟩
  | .cons k t fs,x => by
    have hclose := lex_mark (c := 125) (k := .rbrace) rfl x
    obtain ⟨c₁,ht⟩ := Tree.lenient t
      (fs.delimited (delimited_mark (c := 125) (k := .rbrace) rfl x))
    obtain ⟨c₂,hfs⟩ := Fields.lenient fs x
    rw [← fs.afterComma (by rw [hclose]; simp)] at hfs
    have hkey := lex_scanned (scanString_key k.2 (58::(t.text++(fs.text true++125::x))))
    have hcolon := lex_mark (c := 58) (k := .colon) rfl (t.text++(fs.text true++125::x))
    obtain ⟨c,hc⟩ := exact_flag (34::(k.1++34::58::(t.text++(fs.text true++125::x))))
    have h := Lenient.member (by rw [hkey]) hc (by rw [hkey,hcolon]) (by rw [hkey,hcolon]; exact ht)
      hfs
    exact ⟨_,by simpa [Fields.text,comma] using h⟩

end

/-- A parser on what a writer has put out. -/
theorem init_writer {size : Nat} (w : Writer size) :
    (Parser.init w.buf.bytes (jsonWriterLength w) : Parser Binary64).Within ∧
    (Parser.init w.buf.bytes (jsonWriterLength w) : Parser Binary64).rest=w.text := by
  refine ⟨⟨Nat.zero_le _,?_⟩,rfl⟩
  change w.offset ≤ w.buf.bytes.length
  rw [w.buf.size]
  exact w.fits

/-- What the writer makes of a tree is lexed as the tokens of that tree, and is passed over as one
value with nothing behind it. -/
theorem serialised_lexes {size : Nat} {f : Call size} {t : Tree} (h : Serialises f (.value t))
    (buf : Buffer size) (hok : (f (jsonWriterInit buf)).2=true) :
    let w := (f (jsonWriterInit buf)).1
    let p : Parser Binary64 := .init w.buf.bytes (jsonWriterLength w)
    p.lexemes (t.lexemes.length+1)=t.lexemes++[.token .eof] ∧
    ∀ fuel,2*jsonWriterLength w+1 ≤ fuel →
      ∃ q,jsonSkipValue fuel (jsonNextToken p)=.ok q ∧ q.current=.eof := by
  intro w p
  have ht : w.text=t.text := (h.appends (b := false) rfl).text hok
  have hd : Delimited [] := by simp [Delimited]
  obtain ⟨hp,hrest⟩ := init_writer w
  have hlex := Tree.lexes t hd
  have heof : Lexes [.token .eof] [] [] := ⟨by decide,rfl,rfl⟩
  have hall := lexes_append hlex heof
  rw [List.append_nil,← ht] at hall
  refine ⟨?_,?_⟩
  · have hl := lexemes_of_lexes hp hrest hall
    rw [List.length_append,List.length_singleton] at hl
    exact hl
  · intro fuel hfuel
    obtain ⟨c,hlen⟩ := Tree.lenient t hd
    rw [List.append_nil,← ht] at hlen
    have hsees := jsonNextToken_sees hp
    rw [hrest] at hsees
    have hturns : Part.turns .value w.text ≤ fuel := by
      simp only [Part.turns,w.length_text]
      exact hfuel
    obtain ⟨q,hq,hs⟩ := skipPart_complete hlen hsees hturns
    exact ⟨q,hq,hs.current⟩

/-- The member "n" with the value -5, in a buffer of 64 bytes. -/
theorem serialised_lexes_member :
    let f : Call 64 := all [jsonWriteObjectStart,all [jsonWriteKvInt [110] (-5),all []],
      jsonWriteObjectEnd]
    let w := (f (jsonWriterInit (.zero 64))).1
    let p : Parser Binary64 := .init w.buf.bytes (jsonWriterLength w)
    p.lexemes 6=[.token .lbrace,.string [110],.token .colon,.number (some (-5)),.token .rbrace,
      .token .eof] := by
  let k : Key := ⟨[110],by decide +kernel⟩
  have hm : @Serialises 64 (all [attempt [jsonWriteKey k.1,jsonWriteInt (-5)],all []])
      (.members (.cons k (.int (-5)) .nil)) := .kv k (.int (-5)) .noMember
  have h := Serialises.object hm
  have hv : (((-5 : Int32).toInt : Int) : ℚ)=-5 := by
    have hi : (-5 : Int32).toInt=-5 := by decide
    rw [hi]
    norm_num
  have hlen : ((Piece.value (.object (.cons k (.int (-5)) .nil))).text false).length=8 := by
    decide
  have hok := (h.appends (w := jsonWriterInit (.zero 64)) (b := false) rfl).fits (by
    rw [hlen]
    decide)
  have hl := (serialised_lexes h (.zero 64) hok).1
  have ht : (Tree.object (.cons k (.int (-5)) .nil)).lexemes=[.token .lbrace,.string [110],
      .token .colon,.number (some ((-5 : Int32).toInt : ℚ)),.token .rbrace] := rfl
  rw [ht,hv] at hl
  exact hl

end Cllm.Json
