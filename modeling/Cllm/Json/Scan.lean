import Mathlib.Data.List.Basic
import Cllm.Json.Lexer

namespace Cllm.Json

open Libc

def trim (s : List UInt8) : List UInt8 := s.dropWhile isWhitespace

/-- The characters of a string whose opening quote has been read, and what follows it; `none` is
a lexical error. -/
def scanString : List UInt8 → Option (List UInt8 × List UInt8)
  | [] => none
  | c::s =>
    if c=34 then some ([],s)
    else if c=92 then
      match s with
      | [] => none
      | e::s =>
        if e=117 then
          match s with
          | _::_::_::_::s => (scanString s).map fun r => (63::r.1,r.2)
          | _ => none
        else (scanString s).map fun r => (unescape e::r.1,r.2)
    else (scanString s).map fun r => (c::r.1,r.2)

theorem scanString_quote (s : List UInt8) : scanString (34::s)=some ([],s) := by
  simp [scanString.eq_def]

theorem scanString_plain {c : UInt8} (hq : c≠34) (hb : c≠92) (s : List UInt8) :
    scanString (c::s)=(scanString s).map fun r => (c::r.1,r.2) := by
  rw [scanString.eq_def]
  simp [hq,hb]

theorem scanString_backslash : scanString [92]=none := by simp [scanString.eq_def]

theorem scanString_escape {e : UInt8} (he : e≠117) (s : List UInt8) :
    scanString (92::e::s)=(scanString s).map fun r => (unescape e::r.1,r.2) := by
  rw [scanString.eq_def]
  simp [he]

theorem scanString_unicode (a b c d : UInt8) (s : List UInt8) :
    scanString (92::117::a::b::c::d::s)=(scanString s).map fun r => (63::r.1,r.2) := by
  rw [scanString.eq_def]
  simp

theorem scanString_cut {s : List UInt8} (h : s.length<4) : scanString (92::117::s)=none := by
  rw [scanString.eq_def]
  match s,h with
  | [],_ => rfl
  | [_],_ => rfl
  | [_,_],_ => rfl
  | [_,_,_],_ => rfl

def scanSign (s : List UInt8) : List UInt8 := if s.head?=some 45 then s.tail else s

def scanFraction (s : List UInt8) : List UInt8 :=
  if s.head?=some 46 then s.tail.dropWhile isDigit else s

def scanExponent (s : List UInt8) : List UInt8 :=
  if s.head?=some 101 ∨ s.head?=some 69 then
    (if s.tail.head?=some 43 ∨ s.tail.head?=some 45 then s.tail.tail else s.tail).dropWhile isDigit
  else s

/-- What follows the number at the front of `s`. -/
def scanNumber (s : List UInt8) : List UInt8 :=
  scanExponent (scanFraction ((scanSign s).dropWhile isDigit))

/-- The characters of that number. -/
def numeral (s : List UInt8) : List UInt8 := s.take (s.length-(scanNumber s).length)

/-- The token of one of the literal names, and what follows it. -/
def scanKeyword (word : List UInt8) (t : Token) (s : List UInt8) : Token × List UInt8 :=
  if s.take word.length=word then (t,s.drop word.length) else (.error,s)

/-- The first token of `s` and what follows it. -/
def lex (s : List UInt8) : Token × List UInt8 :=
  match trim s with
  | [] => (.eof,[])
  | c::r =>
    match punctuation c with
    | some t => (t,r)
    | none =>
      if c=34 then
        match scanString r with
        | some (_,r') => (.string,r')
        | none => (.error,r)
      else
        match keyword c with
        | some (word,t) => scanKeyword word t r
        | none => if c=45 ∨ isDigit c then (.number,scanNumber (c::r)) else (.error,r)

/-- The characters of the string that `s` starts with. -/
def stringAt (s : List UInt8) : List UInt8 := ((scanString (trim s).tail).getD ([],[])).1

/-- The value of the number that `s` starts with. -/
def numberAt {δ φ : Type} [Double δ φ] (s : List UInt8) : δ := numberValue (numeral (trim s))

theorem keyword_apart {c : UInt8} {r : List UInt8 × Token} (h : keyword c=some r) :
    punctuation c=none ∧ c≠34 := by
  unfold keyword at h
  split_ifs at h with h1 h2 h3
  · subst h1; decide
  · subst h2; decide
  · subst h3; decide

theorem number_apart {c : UInt8} (h : c=45 ∨ isDigit c) :
    punctuation c=none ∧ c≠34 ∧ keyword c=none := by
  have hne : ∀ k : UInt8,k≠45 → isDigit k=false → c≠k := by
    rintro k hk hd rfl
    rcases h with h | h
    · exact hk h
    · simp [hd] at h
  refine ⟨?_,hne 34 (by decide) (by decide),?_⟩
  · unfold punctuation
    simp only [if_neg (hne 123 (by decide) (by decide)),if_neg (hne 125 (by decide) (by decide)),
      if_neg (hne 91 (by decide) (by decide)),if_neg (hne 93 (by decide) (by decide)),
      if_neg (hne 58 (by decide) (by decide)),if_neg (hne 44 (by decide) (by decide))]
  · unfold keyword
    simp only [if_neg (hne 116 (by decide) (by decide)),if_neg (hne 102 (by decide) (by decide)),
      if_neg (hne 110 (by decide) (by decide))]

section Lex

variable {s r : List UInt8} {c : UInt8}

theorem lex_nil (h : trim s=[]) : lex s=(.eof,[]) := by rw [lex,h]

theorem lex_punctuation {t : Token} (h : trim s=c::r) (hc : punctuation c=some t) :
    lex s=(t,r) := by
  rw [lex,h]
  simp only [hc]

theorem lex_string (h : trim s=34::r) :
    lex s=(match scanString r with
      | some (_,r') => (.string,r')
      | none => (.error,r)) := by
  have hp : punctuation 34=none := by decide
  rw [lex,h]
  simp only [hp,if_pos]

theorem lex_keyword {word : List UInt8} {t : Token} (h : trim s=c::r)
    (hc : keyword c=some (word,t)) : lex s=scanKeyword word t r := by
  have ha := keyword_apart hc
  rw [lex,h]
  simp only [ha.1,if_neg ha.2,hc]

theorem lex_number (h : trim s=c::r) (hc : c=45 ∨ isDigit c) :
    lex s=(.number,scanNumber (c::r)) := by
  have ha := number_apart hc
  rw [lex,h]
  simp only [ha.1,if_neg ha.2.1,ha.2.2,if_pos hc]

theorem lex_other (h : trim s=c::r) (hp : punctuation c=none) (hq : c≠34)
    (hk : keyword c=none) (hn : ¬(c=45 ∨ isDigit c)) : lex s=(.error,r) := by
  rw [lex,h]
  simp only [hp,if_neg hq,hk,if_neg hn]

/-- Every way in which `lex` reads a text. -/
theorem lex_cases (s : List UInt8) :
    (trim s=[] ∧ lex s=(.eof,[])) ∨
    (∃ c r t,trim s=c::r ∧ punctuation c=some t ∧ lex s=(t,r)) ∨
    (∃ r x,trim s=34::r ∧ scanString r=some x ∧ lex s=(.string,x.2)) ∨
    (∃ c r word t,trim s=c::(word++r) ∧ keyword c=some (word,t) ∧ lex s=(t,r)) ∨
    (∃ c r,trim s=c::r ∧ (c=45 ∨ isDigit c) ∧ lex s=(.number,scanNumber (c::r))) ∨
    (lex s).1=.error := by
  cases ht : trim s with
  | nil => exact .inl ⟨rfl,lex_nil ht⟩
  | cons c r =>
    right
    cases hp : punctuation c with
    | some t => exact .inl ⟨c,r,t,rfl,hp,lex_punctuation ht hp⟩
    | none =>
      right
      by_cases hq : c=34
      · subst hq
        have hl := lex_string ht
        cases hr : scanString r with
        | none =>
          rw [hr] at hl
          exact .inr (.inr (.inr (by rw [hl])))
        | some x =>
          rw [hr] at hl
          exact .inl ⟨r,x,rfl,hr,hl⟩
      · right
        cases hk : keyword c with
        | some w =>
          have hl := lex_keyword ht hk
          unfold scanKeyword at hl
          split at hl
          · next hw =>
            have hr : r=w.1++r.drop w.1.length := by
              conv_lhs => rw [← List.take_append_drop w.1.length r,hw]
            exact .inl ⟨c,r.drop w.1.length,w.1,w.2,by rw [← hr],hk,hl⟩
          · exact .inr (.inr (by rw [hl]))
        | none =>
          by_cases hd : c=45 ∨ isDigit c
          · exact .inr (.inl ⟨c,r,rfl,hd,lex_number ht hd⟩)
          · exact .inr (.inr (by rw [lex_other ht hp hq hk hd]))

end Lex

theorem scanString_length {s : List UInt8} {x : List UInt8 × List UInt8}
    (h : scanString s=some x) : x.2.length < s.length := by
  fun_induction scanString s generalizing x with
  | case1 => cases h
  | case2 s => injection h with h; subst h; simp
  | case3 => cases h
  | case4 a b c d s _ ih =>
    obtain ⟨y,hy,rfl⟩ := Option.map_eq_some_iff.mp h
    have hlt := ih hy
    simp only [List.length_cons]
    omega
  | case5 => cases h
  | case6 e s _ hu ih =>
    obtain ⟨y,hy,rfl⟩ := Option.map_eq_some_iff.mp h
    have hlt := ih hy
    simp only [List.length_cons]
    omega
  | case7 c s hq hb ih =>
    obtain ⟨y,hy,rfl⟩ := Option.map_eq_some_iff.mp h
    have hlt := ih hy
    simp only [List.length_cons]
    omega

theorem length_dropDigits (s : List UInt8) : (s.dropWhile isDigit).length ≤ s.length :=
  List.length_dropWhile_le isDigit s

theorem length_tail (s : List UInt8) : s.tail.length ≤ s.length := by
  rw [List.length_tail]
  omega

theorem length_scanFraction (s : List UInt8) : (scanFraction s).length ≤ s.length := by
  unfold scanFraction
  split
  · exact (length_dropDigits _).trans (length_tail s)
  · exact le_rfl

theorem length_scanExponent (s : List UInt8) : (scanExponent s).length ≤ s.length := by
  unfold scanExponent
  split
  · apply (length_dropDigits _).trans
    split
    · exact (length_tail _).trans (length_tail s)
    · exact length_tail s
  · exact le_rfl

theorem length_scanNumber {c : UInt8} {r : List UInt8} (hc : c=45 ∨ isDigit c) :
    (scanNumber (c::r)).length ≤ r.length := by
  have hwhole : ((scanSign (c::r)).dropWhile isDigit).length ≤ r.length := by
    unfold scanSign
    by_cases h45 : c=45
    · simpa [h45] using length_dropDigits r
    · have hd : isDigit c=true := hc.resolve_left h45
      simpa [h45,hd] using length_dropDigits r
  exact ((length_scanExponent _).trans (length_scanFraction _)).trans hwhole

theorem lex_length {s : List UInt8} (he : (lex s).1≠.eof) (hn : (lex s).1≠.error) :
    (lex s).2.length < s.length := by
  have htrim : (trim s).length ≤ s.length := List.length_dropWhile_le isWhitespace s
  rcases lex_cases s with ⟨-,hl⟩ | ⟨c,r,t,ht,-,hl⟩ | ⟨r,x,ht,hr,hl⟩ | ⟨c,r,w,t,ht,-,hl⟩ |
    ⟨c,r,ht,hd,hl⟩ | hl
  · exact absurd (by rw [hl]) he
  · rw [hl]
    rw [ht] at htrim
    exact htrim
  · have hx := scanString_length hr
    rw [hl]
    rw [ht,List.length_cons] at htrim
    exact hx.trans htrim
  · rw [hl]
    rw [ht,List.length_cons,List.length_append] at htrim
    change r.length < s.length
    omega
  · have hr := length_scanNumber (r := r) hd
    rw [hl]
    rw [ht] at htrim
    exact Nat.lt_of_le_of_lt hr htrim
  · exact absurd hl hn

theorem take_append_take {α : Type*} (l d : List α) (n : Nat) :
    (l.take n++d).take n=(l++d).take n := by
  rw [List.take_append,List.take_append,List.take_take,Nat.min_self,List.length_take]
  congr 2
  omega

namespace Parser

variable {δ φ : Type} {p q : Parser δ}

def suffix (p : Parser δ) (i : Nat) : List UInt8 := (p.input.take p.len).drop i

/-- What is left of the input. -/
def rest (p : Parser δ) : List UInt8 := p.suffix p.pos

/-- The parser is within its input. -/
structure Within (p : Parser δ) : Prop where
  pos : p.pos ≤ p.len
  len : p.len ≤ p.input.length

theorem suffix_of_le {i : Nat} (h : p.len ≤ i) : p.suffix i=[] := by
  apply List.drop_eq_nil_of_le
  rw [List.length_take]
  omega

theorem suffix_of_lt {i : Nat} (hl : p.len ≤ p.input.length) (h : i<p.len) :
    p.suffix i=p.char i::p.suffix (i+1) := by
  have ht : i<(p.input.take p.len).length := by rw [List.length_take]; omega
  have hi : i<p.input.length := by omega
  have hc : p.char i=(p.input.take p.len)[i] := by simp [char,hi]
  rw [hc]
  exact List.drop_eq_getElem_cons ht

theorem length_suffix {i : Nat} (hl : p.len ≤ p.input.length) :
    (p.suffix i).length=p.len-i := by
  rw [suffix,List.length_drop,List.length_take,Nat.min_eq_left hl]

theorem suffix_add (p : Parser δ) (i k : Nat) : p.suffix (i+k)=(p.suffix i).drop k := by
  rw [suffix,suffix,List.drop_drop]

theorem suffix_cons {i : Nat} {c : UInt8} {s : List UInt8} (hl : p.len ≤ p.input.length)
    (h : p.suffix i=c::s) : i<p.len ∧ p.char i=c ∧ p.suffix (i+1)=s := by
  have hi : i<p.len := by
    have hn := length_suffix (i := i) hl
    rw [h,List.length_cons] at hn
    omega
  rw [suffix_of_lt hl hi] at h
  injection h with hc hs
  exact ⟨hi,hc,hs⟩

theorem suffix_nil {i : Nat} (hl : p.len ≤ p.input.length) (h : p.suffix i=[]) : p.len ≤ i := by
  have hn := length_suffix (i := i) hl
  rw [h,List.length_nil] at hn
  omega

@[simp] theorem suffix_push (p : Parser δ) (c : UInt8) (i : Nat) :
    (p.push c).suffix i=p.suffix i := by
  unfold push
  split <;> rfl

@[simp] theorem pos_push (p : Parser δ) (c : UInt8) : (p.push c).pos=p.pos+1 := by
  unfold push
  split <;> rfl

@[simp] theorem len_push (p : Parser δ) (c : UInt8) : (p.push c).len=p.len := by
  unfold push
  split <;> rfl

@[simp] theorem input_push (p : Parser δ) (c : UInt8) : (p.push c).input=p.input := by
  unfold push
  split <;> rfl

theorem bytes_push (p : Parser δ) (c : UInt8) :
    (p.push c).stringBuf.bytes=(p.stringBuf.bytes++[c]).take (stringBufSize-1) := by
  have hb := p.stringBuf.fits
  unfold push
  split
  · next h =>
    rw [List.take_of_length_le]
    rw [List.length_append,List.length_singleton]
    omega
  · next h =>
    have hn : p.stringBuf.bytes.length=stringBufSize-1 := by omega
    rw [← hn,List.take_left]

theorem walk_suffix (test : UInt8 → Bool) (hl : p.len ≤ p.input.length) (n i : Nat)
    (hn : n=p.len-i) : p.suffix (p.walk test n i)=(p.suffix i).dropWhile test := by
  induction n generalizing i with
  | zero =>
    have hi : p.len ≤ i := by omega
    rw [walk,suffix_of_le hi,List.dropWhile_nil]
  | succ n ih =>
    have hi : i<p.len := by omega
    rw [walk,suffix_of_lt hl hi,List.dropWhile_cons]
    split
    · exact ih (i+1) (by omega)
    · exact suffix_of_lt hl hi

theorem walk_bounds (test : UInt8 → Bool) (p : Parser δ) (n i : Nat) :
    i ≤ p.walk test n i ∧ p.walk test n i ≤ i+n := by
  induction n generalizing i with
  | zero => exact ⟨le_rfl,le_rfl⟩
  | succ n ih =>
    rw [walk]
    split
    · have h := ih (i+1)
      omega
    · omega

theorem skip_suffix (test : UInt8 → Bool) (hl : p.len ≤ p.input.length) (i : Nat) :
    p.suffix (p.skip test i)=(p.suffix i).dropWhile test := walk_suffix test hl _ i rfl

theorem skip_bounds (test : UInt8 → Bool) (p : Parser δ) {i : Nat} (h : i ≤ p.len) :
    i ≤ p.skip test i ∧ p.skip test i ≤ p.len := by
  have hw := walk_bounds test p (p.len-i) i
  rw [skip]
  omega

/-- What the string loop makes of `p`: the token, and the characters kept by the buffer. -/
def StringRead (p q : Parser δ) : Option (List UInt8 × List UInt8) → Prop
  | none => q.Within ∧ q.current=.error
  | some (d,s) => q.Within ∧ q.current=.string ∧ q.rest=s ∧
      q.stringBuf.bytes=(p.stringBuf.bytes++d).take (stringBufSize-1)

theorem StringRead.of_push {c : UInt8} {r : Option (List UInt8 × List UInt8)} {t : Parser δ}
    (hb : p.stringBuf=q.stringBuf) (h : StringRead (p.push c) t r) :
    StringRead q t (r.map fun r => (c::r.1,r.2)) := by
  cases r with
  | none => exact h
  | some r =>
    obtain ⟨hw,hc,hr,ht⟩ := h
    refine ⟨hw,hc,hr,?_⟩
    rw [ht,bytes_push,hb,take_append_take,List.append_assoc,List.singleton_append]

theorem Within.fail (h : p.Within) (message : List UInt8) : (p.fail message).Within :=
  ⟨h.pos,h.len⟩

section StringLoop

variable {n : Nat} (ih : ∀ {p : Parser δ},p.Within → p.rest.length<n →
  StringRead p (stringLoop n p) (scanString p.rest))

include ih

/-- One character kept at `i`, and the rest of the loop. -/
theorem stringRead_push {i : Nat} {c : UInt8} {s : List UInt8} (hl : p.len ≤ p.input.length)
    (hs : p.suffix i=c::s) (hn : (p.suffix i).length ≤ n) (k : UInt8) :
    StringRead p (stringLoop n (({p with pos := i} : Parser δ).push k))
      ((scanString s).map fun r => (k::r.1,r.2)) := by
  obtain ⟨hi,-,h1⟩ := suffix_cons hl hs
  let q := ({p with pos := i} : Parser δ).push k
  have hr : q.rest=s := by
    rw [rest,suffix_push,pos_push]
    exact h1
  have hw : q.Within := ⟨by rw [pos_push,len_push]; exact hi,by simpa [q] using hl⟩
  have hlt : q.rest.length<n := by
    rw [hr]
    rw [hs,List.length_cons] at hn
    omega
  have h := ih hw hlt
  rw [hr] at h
  exact StringRead.of_push (p := ({p with pos := i} : Parser δ)) rfl h

/-- A backslash with a character behind it. -/
theorem stringRead_escape {e : UInt8} {s : List UInt8} (hw : p.Within) (hs : p.rest=92::e::s)
    (hn : p.rest.length ≤ n+1) :
    StringRead p (stringLoop (n+1) p) (scanString (92::e::s)) := by
  obtain ⟨hi,hc,h1⟩ := suffix_cons hw.len hs
  obtain ⟨hi1,he,h2⟩ := suffix_cons hw.len h1
  rw [hs,List.length_cons,List.length_cons] at hn
  have hn1 : (p.suffix (p.pos+1)).length ≤ n := by rw [h1,List.length_cons]; omega
  have he' : ({p with pos := p.pos+1} : Parser δ).char (p.pos+1)=e := he
  rw [stringLoop,if_pos hi]
  simp only [hc,he']
  rw [if_neg (by decide),if_pos ⟨trivial,hi1⟩]
  by_cases hu : e=117
  · rw [if_pos hu,hu]
    have hlen := length_suffix (i := p.pos+1+1) hw.len
    rw [h2] at hlen
    split
    · next h4 =>
      have h4' : p.len ≤ p.pos+1+4 := h4
      rw [scanString_cut (by omega)]
      exact ⟨Within.fail (p := ({p with pos := p.pos+1} : Parser δ)) ⟨hi,hw.len⟩ _,rfl⟩
    · next h4 =>
      have h4' : ¬p.len ≤ p.pos+1+4 := h4
      obtain ⟨a,b,d,f,t,rfl⟩ : ∃ a b d f t,s=a::b::d::f::t := by
        match s with
        | a::b::d::f::t => exact ⟨a,b,d,f,t,rfl⟩
        | [] | [_] | [_,_] | [_,_,_] =>
          simp only [List.length_cons,List.length_nil] at hlen
          omega
      have h3 : p.suffix (p.pos+1+4)=f::t := by
        rw [suffix_add _ _ 4,h1]
        rfl
      rw [scanString_unicode]
      apply stringRead_push ih hw.len h3
      rw [h3]
      simp only [List.length_cons] at hn ⊢
      omega
  · rw [if_neg hu,scanString_escape hu]
    exact stringRead_push ih hw.len h1 hn1 _

end StringLoop

theorem stringLoop_read (n : Nat) (hw : p.Within) (hn : p.rest.length<n) :
    StringRead p (stringLoop n p) (scanString p.rest) := by
  induction n generalizing p with
  | zero => omega
  | succ n ih =>
    cases hs : p.rest with
    | nil =>
      have hi := suffix_nil hw.len hs
      rw [stringLoop,if_neg (by omega)]
      exact ⟨hw.fail _,rfl⟩
    | cons c s =>
      obtain ⟨hi,hc,h1⟩ := suffix_cons hw.len hs
      have hn1 : p.rest.length ≤ n := by omega
      by_cases hq : c=34
      · rw [stringLoop,if_pos hi,hc,if_pos hq,hq,scanString_quote]
        refine ⟨⟨hi,hw.len⟩,rfl,h1,?_⟩
        have hb := p.stringBuf.fits
        rw [List.append_nil,List.take_of_length_le (by omega)]
      by_cases hbs : c=92 ∧ s≠[]
      · obtain ⟨rfl,hne⟩ := hbs
        obtain ⟨e,t,rfl⟩ := List.exists_cons_of_ne_nil hne
        exact stringRead_escape ih hw hs (by omega)
      · have hstop : ¬(c=92 ∧ p.pos+1<p.len) := by
          rintro ⟨rfl,hlt⟩
          refine hbs ⟨rfl,?_⟩
          rw [← h1,suffix_of_lt hw.len hlt]
          exact List.cons_ne_nil _ _
        rw [stringLoop,if_pos hi,hc,if_neg hq,if_neg hstop]
        have hpush := stringRead_push ih hw.len hs hn1 c
        by_cases hb : c=92
        · have hnil : s=[] := by
            by_contra hne
            exact hbs ⟨hb,hne⟩
          subst hb hnil
          rw [scanString_backslash]
          exact hpush
        · rw [scanString_plain hq hb]
          exact hpush

theorem parseString_read {c : UInt8} {s : List UInt8} (hw : p.Within) (hs : p.rest=c::s) :
    StringRead {p with stringBuf := .empty _ (by decide)} p.parseString (scanString s) := by
  obtain ⟨hi,-,h1⟩ := suffix_cons hw.len hs
  have hn : s.length<p.len-p.pos := by
    have hlen := length_suffix (i := p.pos+1) hw.len
    rw [h1] at hlen
    omega
  have h := stringLoop_read (p := {p with pos := p.pos+1,stringBuf := .empty _ (by decide)})
    (p.len-p.pos) ⟨hi,hw.len⟩ (by change (p.suffix (p.pos+1)).length<_; rw [h1]; exact hn)
  have hr : rest {p with pos := p.pos+1,stringBuf := .empty _ (by decide)}=s := h1
  rw [hr] at h
  cases hc : scanString s with
  | none => rw [hc] at h; exact h
  | some r => rw [hc] at h; exact h

theorem head_suffix (hl : p.len ≤ p.input.length) (i : Nat) (c : UInt8) :
    (p.suffix i).head?=some c ↔ i<p.len ∧ p.char i=c := by
  by_cases hi : i<p.len
  · rw [suffix_of_lt hl hi]
    simp [hi]
  · rw [suffix_of_le (Nat.le_of_not_lt hi)]
    simp [hi]

theorem tail_suffix (p : Parser δ) (i : Nat) : (p.suffix i).tail=p.suffix (i+1) := by
  rw [suffix_add,List.drop_one]

theorem numberEnd_suffix (hl : p.len ≤ p.input.length) {i : Nat} (hi : i<p.len) :
    p.suffix (p.numberEnd i)=scanNumber (p.suffix i) := by
  have hminus : (p.suffix i).head?=some 45 ↔ p.char i=45 := by
    rw [head_suffix hl]
    exact and_iff_right hi
  simp only [numberEnd,accept,scanNumber,scanExponent,scanFraction,scanSign,and_or_left,
    decide_eq_true_eq,← head_suffix hl,apply_ite p.suffix,skip_suffix _ hl,← tail_suffix,hminus]

theorem numberEnd_bounds {i : Nat} (hi : i<p.len) :
    i ≤ p.numberEnd i ∧ p.numberEnd i ≤ p.len := by
  have hskip : ∀ {j},i ≤ j → j ≤ p.len → i ≤ p.skip isDigit j ∧ p.skip isDigit j ≤ p.len := by
    intro j hij hj
    have h := skip_bounds isDigit p hj
    omega
  have haccept : ∀ (test : UInt8 → Bool) {j},i ≤ j → j ≤ p.len →
      i ≤ p.accept test j ∧ p.accept test j ≤ p.len := by
    intro test j hij hj
    unfold accept
    split <;> omega
  let j1 := if p.char i=45 then i+1 else i
  let j2 := p.skip isDigit j1
  let j3 := if j2<p.len ∧ p.char j2=46 then p.skip isDigit (j2+1) else j2
  have h1 : i ≤ j1 ∧ j1 ≤ p.len := by
    unfold j1
    split <;> omega
  have h2 : i ≤ j2 ∧ j2 ≤ p.len := hskip h1.1 h1.2
  have h3 : i ≤ j3 ∧ j3 ≤ p.len := by
    unfold j3
    split
    · exact hskip (by omega) (by omega)
    · exact h2
  change i ≤ (if j3<p.len ∧ (p.char j3=101 ∨ p.char j3=69) then _ else j3) ∧
    (if j3<p.len ∧ (p.char j3=101 ∨ p.char j3=69) then _ else j3) ≤ p.len
  split
  · have h4 := haccept (fun c => c=43 ∨ c=45) (j := j3+1) (by omega) (by omega)
    exact hskip h4.1 h4.2
  · exact h3

theorem chars_eq_numeral (hw : p.Within) (hi : p.pos<p.len) :
    (p.input.drop p.pos).take (p.numberEnd p.pos-p.pos)=numeral p.rest := by
  have hb := numberEnd_bounds hi
  have hn := numberEnd_suffix hw.len hi
  have hlen := length_suffix (i := p.pos) hw.len
  have hlen' := length_suffix (i := p.numberEnd p.pos) hw.len
  rw [numeral,rest,← hn,hlen,hlen',suffix,List.drop_take,List.take_take]
  congr 1
  omega

theorem skipWhitespace_within (hw : p.Within) : p.skipWhitespace.Within :=
  ⟨(skip_bounds isWhitespace p hw.pos).2,hw.len⟩

theorem rest_skipWhitespace (hw : p.Within) : p.skipWhitespace.rest=trim p.rest :=
  skip_suffix isWhitespace hw.len p.pos

end Parser

variable {δ φ : Type} [Double δ φ] {p : Parser δ}

theorem stringLoop_source (n : Nat) (p : Parser δ) :
    (p.stringLoop n).input=p.input ∧ (p.stringLoop n).len=p.len := by
  induction n generalizing p with
  | zero => exact ⟨rfl,rfl⟩
  | succ n ih =>
    have hpush (q : Parser δ) (c : UInt8) :
        ((q.push c).stringLoop n).input=q.input ∧ ((q.push c).stringLoop n).len=q.len := by
      have hrest := ih (q.push c)
      rw [Parser.input_push,Parser.len_push] at hrest
      exact hrest
    rw [Parser.stringLoop]
    simp only
    split_ifs
    · exact ⟨rfl,rfl⟩
    · exact ⟨rfl,rfl⟩
    · exact hpush _ _
    · exact hpush _ _
    · exact hpush _ _
    · exact ⟨rfl,rfl⟩

/-- The input stays as it is. -/
theorem jsonNextToken_source (p : Parser δ) :
    (jsonNextToken p).input=p.input ∧ (jsonNextToken p).len=p.len := by
  have hinput : p.skipWhitespace.input=p.input := rfl
  have hlen : p.skipWhitespace.len=p.len := rfl
  rw [jsonNextToken,← hinput,← hlen]
  generalize p.skipWhitespace=q
  by_cases hend : q.len ≤ q.pos
  · simp only [if_pos hend]
    exact ⟨trivial,trivial⟩
  · simp only [if_neg hend]
    cases punctuation (q.char q.pos) with
    | some t => exact ⟨rfl,rfl⟩
    | none =>
      by_cases hq : q.char q.pos=34
      · simp only [if_pos hq]
        exact stringLoop_source _ _
      · simp only [if_neg hq]
        cases keyword (q.char q.pos) with
        | some w =>
          simp only [Parser.parseKeyword]
          split_ifs <;> exact ⟨rfl,rfl⟩
        | none => split_ifs <;> exact ⟨rfl,rfl⟩

/-- The parser has just read the first token of `s`. -/
structure Sees (p : Parser δ) (s : List UInt8) : Prop where
  within : p.Within
  current : p.current=(lex s).1
  rest : p.current≠.error → p.rest=(lex s).2
  string : p.current=.string → p.stringBuf.bytes=(stringAt s).take (stringBufSize-1)
  number : p.current=.number → p.numberValue=numberAt s

open Cllm.Json.Parser

theorem sees_of_error {s : List UInt8} (hw : p.Within) (hc : p.current=.error)
    (hs : (lex s).1=.error) : Sees p s where
  within := hw
  current := hc.trans hs.symm
  rest h := absurd hc h
  string h := by rw [hc] at h; cases h
  number h := by rw [hc] at h; cases h

/-- A token without a value of its own. -/
theorem sees_of_plain {s : List UInt8} (hw : p.Within) (hc : p.current=(lex s).1)
    (hr : p.rest=(lex s).2) (hs : p.current≠.string) (hn : p.current≠.number) : Sees p s :=
  ⟨hw,hc,fun _ => hr,fun h => absurd h hs,fun h => absurd h hn⟩

theorem punctuation_plain {c : UInt8} {t : Token} (h : punctuation c=some t) :
    t≠.string ∧ t≠.number ∧ t≠.error ∧ t≠.eof := by
  unfold punctuation at h
  split_ifs at h <;> (injection h with h; subst h; decide)

theorem keyword_plain {c : UInt8} {word : List UInt8} {t : Token}
    (h : keyword c=some (word,t)) : t≠.string ∧ t≠.number ∧ t≠.error ∧ t≠.eof := by
  unfold keyword at h
  split_ifs at h <;>
    (injection h with h; injection h with _ h; subst h; decide)

theorem parseKeyword_sees {s r word : List UInt8} {c : UInt8} {t : Token} (hw : p.Within)
    (hs : p.rest=c::r) (hl : lex s=scanKeyword word t r)
    (ht : t≠.string ∧ t≠.number ∧ t≠.error ∧ t≠.eof) : Sees (p.parseKeyword word t) s := by
  obtain ⟨hi,-,h1⟩ := suffix_cons hw.len hs
  have hlen := length_suffix (i := p.pos+1) hw.len
  rw [h1] at hlen
  have hmatch : (p.pos+(word.length+1) ≤ p.len ∧
      (p.input.drop (p.pos+1)).take word.length=word) ↔ r.take word.length=word := by
    have hr : r=(p.input.drop (p.pos+1)).take (p.len-(p.pos+1)) := by
      rw [← h1,suffix,List.drop_take]
    constructor
    · intro h
      rw [hr,List.take_take,Nat.min_eq_left (by omega)]
      exact h.2
    · intro h
      have hle : word.length ≤ r.length := by
        have hn := congrArg List.length h
        rw [List.length_take] at hn
        omega
      refine ⟨by omega,?_⟩
      rw [hr,List.take_take,Nat.min_eq_left (by omega)] at h
      exact h
  unfold parseKeyword
  unfold scanKeyword at hl
  split
  · next h =>
    rw [if_pos (hmatch.mp h)] at hl
    apply sees_of_plain (p := {p with pos := p.pos+(word.length+1),current := t})
      ⟨h.1,hw.len⟩ (by rw [hl]) _ ht.1 ht.2.1
    rw [hl]
    change p.suffix (p.pos+(word.length+1))=r.drop word.length
    rw [← h1,← suffix_add]
    congr 1
    omega
  · next h =>
    rw [if_neg (fun hm => h (hmatch.mpr hm))] at hl
    exact sees_of_error (hw.fail _) rfl (by rw [hl])

theorem parseString_sees {s r : List UInt8} (hw : p.Within) (hs : p.rest=34::r)
    (ht : trim s=34::r) : Sees p.parseString s := by
  have hl := lex_string ht
  have h := parseString_read hw hs
  cases hr : scanString r with
  | none =>
    rw [hr] at h hl
    exact sees_of_error h.1 h.2 (by rw [hl])
  | some x =>
    rw [hr] at h hl
    obtain ⟨h1,h2,h3,h4⟩ := h
    refine ⟨h1,by rw [h2,hl],fun _ => by rw [h3,hl],fun _ => ?_,fun hn => ?_⟩
    · have hx : stringAt s=x.1 := by rw [stringAt,ht,List.tail_cons,hr,Option.getD_some]
      rw [h4,hx]
      rfl
    · rw [h2] at hn
      cases hn

theorem parseNumber_sees {s r : List UInt8} {c : UInt8} (hw : p.Within) (hs : p.rest=c::r)
    (ht : trim s=c::r) (hc : c=45 ∨ isDigit c) : Sees p.parseNumber s := by
  obtain ⟨hi,-,-⟩ := suffix_cons hw.len hs
  have hl := lex_number ht hc
  have hn := numberEnd_suffix hw.len hi
  refine ⟨⟨(numberEnd_bounds hi).2,hw.len⟩,by rw [hl]; rfl,fun _ => ?_,?_,fun _ => ?_⟩
  · rw [hl,← hs]
    exact hn
  · intro h
    cases h
  · rw [numberAt,ht,← hs,← chars_eq_numeral hw hi]
    rfl

/-- One token on: the parser sees what was left of the input. -/
theorem jsonNextToken_sees (hw : p.Within) : Sees (jsonNextToken p) p.rest := by
  have hq := skipWhitespace_within hw
  have hr := rest_skipWhitespace hw
  unfold jsonNextToken
  generalize p.skipWhitespace=q at hq hr
  cases hs : q.rest with
  | nil =>
    have hi := suffix_nil hq.len hs
    have hl := lex_nil (hr.symm.trans hs)
    simp only [if_pos hi]
    exact sees_of_plain (p := {q with current := .eof}) ⟨hq.pos,hq.len⟩ (by rw [hl])
      (by rw [hl]; exact hs) (by simp) (by simp)
  | cons c r =>
    have ht := hr.symm.trans hs
    obtain ⟨hi,hc,h1⟩ := suffix_cons hq.len hs
    simp only [if_neg (Nat.not_le_of_lt hi),hc]
    split
    · next t hp =>
      have hl := lex_punctuation ht hp
      have hplain := punctuation_plain hp
      exact sees_of_plain (p := {q with pos := q.pos+1,current := t}) ⟨hi,hq.len⟩ (by rw [hl])
        (by rw [hl]; exact h1) hplain.1 hplain.2.1
    · next hp =>
      split
      · next hquote =>
        subst hquote
        exact parseString_sees hq hs ht
      · next hquote =>
        split
        · next word t hk =>
          exact parseKeyword_sees hq hs (lex_keyword ht hk) (keyword_plain hk)
        · next hk =>
          split
          · next hn => exact parseNumber_sees hq hs ht hn
          · next hn =>
            have hl := lex_other ht hp hquote hk hn
            exact sees_of_error (hq.fail _) rfl (by rw [hl])

/-- The token after the one it sees. -/
theorem Sees.next {s : List UInt8} (h : Sees p s) (hc : (lex s).1≠.error) :
    Sees (jsonNextToken p) (lex s).2 := by
  rw [← h.rest (by rw [h.current]; exact hc)]
  exact jsonNextToken_sees h.within

theorem init_sees (body : List UInt8) :
    Sees (jsonNextToken (Parser.init body body.length : Parser δ)) body := by
  have h := jsonNextToken_sees (p := (Parser.init body body.length : Parser δ))
    ⟨Nat.zero_le _,le_rfl⟩
  have hr : (Parser.init body body.length : Parser δ).rest=body := List.take_length
  rw [hr] at h
  exact h

end Cllm.Json
