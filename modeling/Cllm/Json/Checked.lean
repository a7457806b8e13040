import Cllm.Json.Scan

namespace Cllm.Json.Checked

open Libc Cllm.Json.Parser

variable {δ φ : Type}

/-- p->input[i]; `none` for a read at or past the end of the input. -/
def char (p : Parser δ) (i : Nat) : Option UInt8 := if i<p.len then some (p.char i) else none

def walk (test : UInt8 → Bool) (p : Parser δ) : (n i : Nat) → Option Nat
  | 0,i => some i
  | n+1,i => do
    let c ← char p i
    if test c then walk test p n (i+1) else some i

def skip (test : UInt8 → Bool) (p : Parser δ) (i : Nat) : Option Nat := walk test p (p.len-i) i

/-- p->pos < p->len && test(p->input[p->pos]) -/
def peek (test : UInt8 → Bool) (p : Parser δ) (i : Nat) : Option Bool :=
  if i<p.len then (char p i).map test else some false

def fractionEnd (p : Parser δ) (i : Nat) : Option Nat := do
  let dot ← peek (fun c => c=46) p i
  if dot then skip isDigit p (i+1) else some i

def exponentEnd (p : Parser δ) (i : Nat) : Option Nat := do
  let exponent ← peek (fun c => c=101 ∨ c=69) p i
  if exponent then
    let sign ← peek (fun c => c=43 ∨ c=45) p (i+1)
    skip isDigit p (if sign then i+1+1 else i+1)
  else some i

def numberEnd (p : Parser δ) (start : Nat) : Option Nat := do
  let minus ← char p start
  let i ← skip isDigit p (if minus=45 then start+1 else start)
  let i ← fractionEnd p i
  exponentEnd p i

/-- The characters from `i` on that the loop over a number reads. -/
def chars (p : Parser δ) : (n i : Nat) → Option (List UInt8)
  | 0,_ => some []
  | n+1,i => do
    let c ← char p i
    let cs ← chars p n (i+1)
    some (c::cs)

def parseNumber [Double δ φ] (p : Parser δ) : Option (Parser δ) := do
  let i ← numberEnd p p.pos
  let text ← chars p (i-p.pos) p.pos
  some {p with pos := i,numberValue := Json.numberValue text,current := .number}

/-- One comparison after the other, up to the first that fails. -/
def sameWord (p : Parser δ) : (word : List UInt8) → (i : Nat) → Option Bool
  | [],_ => some true
  | c::word,i => do
    let d ← char p i
    if d=c then sameWord p word (i+1) else some false

def parseKeyword (p : Parser δ) (word : List UInt8) (t : Token) : Option (Parser δ) := do
  let same ← if p.pos+(word.length+1) ≤ p.len then sameWord p word (p.pos+1) else some false
  some
    (if same then {p with pos := p.pos+(word.length+1),current := t}
    else p.fail (cstr "Invalid token"))

theorem stringBuf_pos : 0 < stringBufSize := by decide

def stringLoop : (n : Nat) → Parser δ → Option (Parser δ)
  | 0,p => some (p.fail (cstr "Unterminated string"))
  | n+1,p =>
    if p.pos<p.len then do
      let c ← char p p.pos
      if c=34 then some {p with pos := p.pos+1,current := .string}
      else if c=92 ∧ p.pos+1<p.len then
        let q : Parser δ := {p with pos := p.pos+1}
        let e ← char q q.pos
        if e=117 then
          if q.len ≤ q.pos+4 then some (q.fail (cstr "Invalid unicode escape"))
          else stringLoop n ({q with pos := q.pos+4}.push 63)
        else stringLoop n (q.push (unescape e))
      else stringLoop n (p.push c)
    else some (p.fail (cstr "Unterminated string"))

def parseString (p : Parser δ) : Option (Parser δ) :=
  stringLoop (p.len-p.pos) {p with pos := p.pos+1,stringBuf := .empty _ stringBuf_pos}

/-- json_next_token behind the whitespace. -/
def token [Double δ φ] (p : Parser δ) : Option (Parser δ) :=
  if p.len ≤ p.pos then some {p with current := .eof}
  else do
    let c ← char p p.pos
    match punctuation c with
    | some t => some {p with pos := p.pos+1,current := t}
    | none =>
      if c=34 then parseString p
      else
        match keyword c with
        | some (word,t) => parseKeyword p word t
        | none =>
          if c=45 ∨ isDigit c then parseNumber p
          else some (p.fail (cstr "Unexpected character: %c"))

def jsonNextToken [Double δ φ] (p : Parser δ) : Option (Parser δ) := do
  let i ← skip isWhitespace p p.pos
  token {p with pos := i}

variable {p : Parser δ} {i : Nat}

theorem char_eq (h : i<p.len) : char p i=some (p.char i) := if_pos h

theorem walk_eq (test : UInt8 → Bool) (n : Nat) (h : i+n ≤ p.len) :
    walk test p n i=some (p.walk test n i) := by
  induction n generalizing i with
  | zero => rfl
  | succ n ih =>
    have hc := char_eq (p := p) (i := i) (by omega)
    rw [walk,Parser.walk,hc,Option.bind_eq_bind,Option.bind_some]
    split_ifs
    · apply ih
      omega
    · rfl

theorem skip_eq (test : UInt8 → Bool) (h : i ≤ p.len) :
    skip test p i=some (p.skip test i) := by
  apply walk_eq
  omega

theorem peek_eq (test : UInt8 → Bool) (p : Parser δ) (i : Nat) :
    peek test p i=some (decide (i<p.len ∧ test (p.char i)=true)) := by
  rw [peek]
  by_cases h : i<p.len
  · simp [h,char_eq]
  · simp [h]

theorem fractionEnd_eq (p : Parser δ) (i : Nat) : fractionEnd p i=
    some (if i<p.len ∧ p.char i=46 then p.skip isDigit (i+1) else i) := by
  rw [fractionEnd,peek_eq,Option.bind_eq_bind,Option.bind_some]
  by_cases h : i<p.len ∧ p.char i=46
  · rw [if_pos h,if_pos (by simpa using h)]
    exact skip_eq isDigit (by omega)
  · rw [if_neg h,if_neg (by simpa using h)]

theorem exponentEnd_eq (p : Parser δ) (i : Nat) : exponentEnd p i=
    some (if i<p.len ∧ (p.char i=101 ∨ p.char i=69) then
        p.skip isDigit (p.accept (fun c => c=43 ∨ c=45) (i+1))
      else i) := by
  rw [exponentEnd,peek_eq,Option.bind_eq_bind,Option.bind_some]
  by_cases h : i<p.len ∧ (p.char i=101 ∨ p.char i=69)
  · rw [if_pos h,if_pos (by simpa using h),peek_eq,Option.bind_some,accept]
    by_cases hs : i+1<p.len ∧ decide (p.char (i+1)=43 ∨ p.char (i+1)=45)=true
    · rw [if_pos (decide_eq_true hs),if_pos hs]
      exact skip_eq isDigit (by omega)
    · rw [if_neg (by simpa using hs),if_neg hs]
      exact skip_eq isDigit (by omega)
  · rw [if_neg h,if_neg (by simpa using h)]

theorem numberEnd_eq (h : i<p.len) : numberEnd p i=some (p.numberEnd i) := by
  have hsign : (if p.char i=45 then i+1 else i) ≤ p.len := by split_ifs <;> omega
  rw [numberEnd,char_eq h,Option.bind_eq_bind,Option.bind_some,skip_eq isDigit hsign,
    Option.bind_eq_bind,Option.bind_some,fractionEnd_eq,Option.bind_some,exponentEnd_eq]
  rfl

theorem chars_eq (hl : p.len ≤ p.input.length) (n : Nat) (h : i+n ≤ p.len) :
    chars p n i=some ((p.input.drop i).take n) := by
  induction n generalizing i with
  | zero => rfl
  | succ n ih =>
    have hi : i<p.input.length := by omega
    have hc : p.char i=p.input[i] := by simp [Parser.char,hi]
    rw [chars,char_eq (by omega),ih (by omega),List.drop_eq_getElem_cons hi,List.take_succ_cons,hc]
    rfl

theorem parseNumber_eq [Double δ φ] (hw : p.Within) (h : p.pos<p.len) :
    parseNumber p=some p.parseNumber := by
  have hb := numberEnd_bounds h
  rw [parseNumber,numberEnd_eq h,Option.bind_eq_bind,Option.bind_some,
    chars_eq hw.len _ (by omega),Option.bind_eq_bind,Option.bind_some]
  rfl

theorem sameWord_eq (hl : p.len ≤ p.input.length) (word : List UInt8) (h : i+word.length ≤ p.len) :
    sameWord p word i=some (decide ((p.input.drop i).take word.length=word)) := by
  induction word generalizing i with
  | nil => rfl
  | cons c word ih =>
    rw [List.length_cons] at h
    have hi : i<p.input.length := by omega
    have hc : p.char i=p.input[i] := by simp [Parser.char,hi]
    rw [sameWord,char_eq (by omega),Option.bind_eq_bind,Option.bind_some,hc,
      List.drop_eq_getElem_cons hi,List.length_cons,List.take_succ_cons]
    by_cases hd : p.input[i]=c
    · rw [if_pos hd,ih (by omega)]
      simp [hd]
    · rw [if_neg hd]
      simp [hd]

theorem parseKeyword_eq (hw : p.Within) (word : List UInt8) (t : Token) :
    parseKeyword p word t=some (p.parseKeyword word t) := by
  rw [parseKeyword,Parser.parseKeyword]
  by_cases hroom : p.pos+(word.length+1) ≤ p.len
  · rw [if_pos hroom,sameWord_eq hw.len word (by omega),Option.bind_eq_bind,Option.bind_some]
    simp [hroom]
  · simp [hroom]

theorem stringLoop_eq (n : Nat) (p : Parser δ) : stringLoop n p=some (p.stringLoop n) := by
  induction n generalizing p with
  | zero => rfl
  | succ n ih =>
    rw [stringLoop,Parser.stringLoop]
    by_cases h : p.pos<p.len
    · simp only [h,if_true,char_eq h,Option.bind_eq_bind,Option.bind_some]
      by_cases hq : p.char p.pos=34
      · simp [hq]
      · rw [if_neg hq,if_neg hq]
        by_cases hb : p.char p.pos=92 ∧ p.pos+1<p.len
        · rw [if_pos hb,if_pos hb]
          have he : char {p with pos := p.pos+1} (p.pos+1)=some (p.char (p.pos+1)) :=
            char_eq (p := {p with pos := p.pos+1}) hb.2
          simp only [he,Option.bind_some,ih]
          change _=some (if p.char (p.pos+1)=117 then _ else _)
          split_ifs <;> rfl
        · rw [if_neg hb,if_neg hb]
          exact ih _
    · simp [h]

theorem parseString_eq (p : Parser δ) : parseString p=some p.parseString := stringLoop_eq _ _

/-- No read of json_next_token is at or past the end. -/
theorem jsonNextToken_eq [Double δ φ] (hw : p.Within) :
    jsonNextToken p=some (Json.jsonNextToken p) := by
  have hq := skipWhitespace_within hw
  rw [jsonNextToken,Json.jsonNextToken,skip_eq isWhitespace hw.pos,Option.bind_eq_bind,
    Option.bind_some]
  change token p.skipWhitespace=_
  generalize p.skipWhitespace=q at hq
  rw [token]
  by_cases hend : q.len ≤ q.pos
  · simp only [hend,if_true]
  · have hlt : q.pos<q.len := by omega
    simp only [hend,if_false,char_eq hlt,Option.bind_eq_bind,Option.bind_some]
    cases punctuation (q.char q.pos) with
    | some t => rfl
    | none =>
      simp only [parseString_eq]
      by_cases hs : q.char q.pos=34
      · rw [if_pos hs,if_pos hs]
      · rw [if_neg hs,if_neg hs]
        cases keyword (q.char q.pos) with
        | some w => exact parseKeyword_eq hq w.1 w.2
        | none =>
          simp only [parseNumber_eq hq hlt]
          split_ifs <;> rfl

end Cllm.Json.Checked
