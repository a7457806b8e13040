import Cllm.Libc.Memory

namespace Cllm.Json

open Libc

/-- What the parser needs of C's `double`: the arithmetic of parse_number, the casts to `int` and
`float`, and the `float` nearest to `m`/10^`k`, which the defaults of a request are. -/
class Double (δ : Type) (φ : outParam Type) extends Add δ,Mul δ,Div δ,Neg δ where
  ofNat : Nat → δ
  toInt : δ → Int32
  toFloat : δ → φ
  decimal (m k : Nat) : φ

/-- The machine's own; a double that no `int` can hold is cast to INT_MIN. -/
instance : Double Float Float32 where
  ofNat := Float.ofNat
  toInt x := if -2147483649<x ∧ x<2147483648 then x.toInt32 else Int32.minValue
  toFloat := Float.toFloat32
  decimal m k := Float32.ofScientific m true k

/-- json_token_t. -/
inductive Token where
  | lbrace | rbrace | lbracket | rbracket | colon | comma
  | string | number | true | false | null | eof | error
  deriving DecidableEq

abbrev stringBufSize : Nat := 1024

/-- json_parser_t; `string_len` is how far `stringBuf` is filled. -/
structure Parser (δ : Type) where
  input : List UInt8
  len : Nat
  pos : Nat
  current : Token
  stringBuf : CField stringBufSize
  numberValue : δ
  error : CField 128

def isWhitespace (c : UInt8) : Bool := c=32 ∨ c=9 ∨ c=10 ∨ c=13

def isDigit (c : UInt8) : Bool := 48≤c ∧ c≤57

/-- The tokens of one character. -/
def punctuation (c : UInt8) : Option Token :=
  if c=123 then some .lbrace
  else if c=125 then some .rbrace
  else if c=91 then some .lbracket
  else if c=93 then some .rbracket
  else if c=58 then some .colon
  else if c=44 then some .comma
  else none

/-- The three literal names, by their first letter. -/
def keyword (c : UInt8) : Option (List UInt8 × Token) :=
  if c=116 then some ([114,117,101],.true)
  else if c=102 then some ([97,108,115,101],.false)
  else if c=110 then some ([117,108,108],.null)
  else none

/-- The character behind a backslash, `u` apart. -/
def unescape (c : UInt8) : UInt8 :=
  if c=98 then 8
  else if c=102 then 12
  else if c=110 then 10
  else if c=114 then 13
  else if c=116 then 9
  else c

section Number

variable {δ φ : Type} [Double δ φ]

/-- The locals of the loop that reads a number off its characters. -/
structure NumberState (δ : Type) where
  value : δ
  fraction : δ
  divisor : δ
  exponent : Int32
  expNegative : Bool
  inDecimal : Bool
  inExponent : Bool

def NumberState.init : NumberState δ where
  value := Double.ofNat 0
  fraction := Double.ofNat 0
  divisor := Double.ofNat 10
  exponent := 0
  expNegative := false
  inDecimal := false
  inExponent := false

/-- One turn of the loop; `first` is i == start. The exponent is an `int` and wraps. -/
def numberStep (first : Bool) (n : NumberState δ) (c : UInt8) : NumberState δ :=
  if c=45 ∧ first then n
  else if c=46 then {n with inDecimal := true}
  else if c=101 ∨ c=69 then {n with inExponent := true}
  else if c=43 then n
  else if c=45 ∧ n.inExponent then {n with expNegative := true}
  else if isDigit c then
    if n.inExponent then
      {n with exponent := n.exponent*10+Int32.ofNat (c.toNat-48)}
    else if n.inDecimal then
      {n with fraction := n.fraction+Double.ofNat (c.toNat-48)/n.divisor,
              divisor := n.divisor*Double.ofNat 10}
    else {n with value := n.value*Double.ofNat 10+Double.ofNat (c.toNat-48)}
  else n

/-- for (i = 0; i < n; i++) mult *= 10.0 -/
def powerOfTen : Nat → δ
  | 0 => Double.ofNat 1
  | n+1 => powerOfTen n*Double.ofNat 10

/-- The value of the characters of a number. -/
def numberValue (text : List UInt8) : δ :=
  let n := match text with
    | [] => NumberState.init
    | c::cs => cs.foldl (numberStep false) (numberStep true NumberState.init c)
  let value := n.value+n.fraction
  let value :=
    if n.inExponent then
      let exponent := if n.expNegative then -n.exponent else n.exponent
      let turns := if exponent>0 then exponent else -exponent
      let mult : δ := powerOfTen turns.toInt.toNat
      if exponent>0 then value*mult else value/mult
    else value
  if text.head?=some 45 then -value else value

end Number

namespace Parser

variable {δ φ : Type}

/-- json_parser_init. -/
def init [Double δ φ] (input : List UInt8) (len : Nat) : Parser δ where
  input := input
  len := len
  pos := 0
  current := .eof
  stringBuf := .empty _ (by decide)
  numberValue := Double.ofNat 0
  error := .empty _ (by decide)

/-- p->input[i] -/
def char (p : Parser δ) (i : Nat) : UInt8 := p.input.getD i 0

/-- while (i < p->len && test(p->input[i])) i++, with `n` characters left. -/
def walk (test : UInt8 → Bool) (p : Parser δ) : (n i : Nat) → Nat
  | 0,i => i
  | n+1,i => if test (p.char i) then walk test p n (i+1) else i

def skip (test : UInt8 → Bool) (p : Parser δ) (i : Nat) : Nat := p.walk test (p.len-i) i

def skipWhitespace (p : Parser δ) : Parser δ := {p with pos := p.skip isWhitespace p.pos}

def fail (p : Parser δ) (message : List UInt8) : Parser δ :=
  {p with current := .error,
          error := ⟨message.take 127,Nat.lt_succ_of_le (List.length_take_le _ _)⟩}

/-- Keeps the character while the buffer has room for it and its NUL, and goes on. -/
def push (p : Parser δ) (c : UInt8) : Parser δ :=
  if h : p.stringBuf.bytes.length < stringBufSize-1 then
    {p with stringBuf := ⟨p.stringBuf.bytes++[c],by
              rw [List.length_append,List.length_singleton]; exact Nat.add_lt_of_lt_sub h⟩,
            pos := p.pos+1}
  else {p with pos := p.pos+1}

/-- The loop of parse_string, with `n` turns to take at most. -/
def stringLoop : (n : Nat) → Parser δ → Parser δ
  | 0,p => p.fail (cstr "Unterminated string")
  | n+1,p =>
    if p.pos<p.len then
      let c := p.char p.pos
      if c=34 then {p with pos := p.pos+1,current := .string}
      else if c=92 ∧ p.pos+1<p.len then
        let q : Parser δ := {p with pos := p.pos+1}
        let e := q.char q.pos
        if e=117 then
          if q.len≤q.pos+4 then q.fail (cstr "Invalid unicode escape")
          else stringLoop n ({q with pos := q.pos+4}.push 63)
        else stringLoop n (q.push (unescape e))
      else stringLoop n (p.push c)
    else p.fail (cstr "Unterminated string")

def parseString (p : Parser δ) : Parser δ :=
  stringLoop (p.len-p.pos) {p with pos := p.pos+1,stringBuf := .empty _ (by decide)}

/-- if (p->pos < p->len && test(p->input[p->pos])) p->pos++ -/
def accept (test : UInt8 → Bool) (p : Parser δ) (i : Nat) : Nat :=
  if i<p.len ∧ test (p.char i) then i+1 else i

/-- Where the number that starts at `start` ends. -/
def numberEnd (p : Parser δ) (start : Nat) : Nat :=
  let i := if p.char start=45 then start+1 else start
  let i := p.skip isDigit i
  let i := if i<p.len ∧ p.char i=46 then p.skip isDigit (i+1) else i
  if i<p.len ∧ (p.char i=101 ∨ p.char i=69) then
    p.skip isDigit (p.accept (fun c => c=43 ∨ c=45) (i+1))
  else i

def parseNumber [Double δ φ] (p : Parser δ) : Parser δ :=
  let i := p.numberEnd p.pos
  {p with pos := i,
          numberValue := Json.numberValue ((p.input.drop p.pos).take (i-p.pos)),
          current := .number}

/-- One of the literal names, whose letters behind the first are `word`. -/
def parseKeyword (p : Parser δ) (word : List UInt8) (t : Token) : Parser δ :=
  if p.pos+(word.length+1)≤p.len ∧ (p.input.drop (p.pos+1)).take word.length=word then
    {p with pos := p.pos+(word.length+1),current := t}
  else p.fail (cstr "Invalid token")

end Parser

/-- json_next_token. The kernel's snprintf has no %c and puts it out as it stands. -/
def jsonNextToken {δ φ : Type} [Double δ φ] (parser : Parser δ) : Parser δ :=
  let p := parser.skipWhitespace
  if p.len≤p.pos then {p with current := .eof}
  else
    let c := p.char p.pos
    match punctuation c with
    | some t => {p with pos := p.pos+1,current := t}
    | none =>
      if c=34 then p.parseString
      else
        match keyword c with
        | some (word,t) => p.parseKeyword word t
        | none =>
          if c=45 ∨ isDigit c then p.parseNumber
          else p.fail (cstr "Unexpected character: %c")

end Cllm.Json
