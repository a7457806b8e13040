import Cllm.Json.Lexer

namespace Cllm.Json

open Libc

/-- How a function on the parser fails: it returns -1, or the turns given to the model run out. -/
inductive Fault where
  | invalid
  | fuel
  deriving DecidableEq

variable {δ φ : Type} [Double δ φ]

/-- if (p->current == JSON_TOK_COMMA) json_next_token(p) -/
def skipComma (p : Parser δ) : Parser δ := if p.current=.comma then jsonNextToken p else p

mutual

/-- json_skip_value; one turn of `fuel` for each value and each turn of a loop. -/
def jsonSkipValue : (fuel : Nat) → Parser δ → Except Fault (Parser δ)
  | 0,_ => .error .fuel
  | fuel+1,p =>
    match p.current with
    | .lbrace => skipMembers fuel (jsonNextToken p)
    | .lbracket => skipElements fuel (jsonNextToken p)
    | .string | .number | .true | .false | .null => .ok (jsonNextToken p)
    | _ => .error .invalid

/-- Its loop over an object, and the brace behind it. -/
def skipMembers : (fuel : Nat) → Parser δ → Except Fault (Parser δ)
  | 0,_ => .error .fuel
  | fuel+1,p =>
    if p.current=.rbrace then .ok (jsonNextToken p)
    else if p.current=.eof then .ok p
    else if p.current≠.string then .error .invalid
    else
      let colon := jsonNextToken p
      if colon.current≠.colon then .error .invalid
      else
        match jsonSkipValue fuel (jsonNextToken colon) with
        | .error e => .error e
        | .ok q => skipMembers fuel (skipComma q)

/-- Its loop over an array, and the bracket behind it. -/
def skipElements : (fuel : Nat) → Parser δ → Except Fault (Parser δ)
  | 0,_ => .error .fuel
  | fuel+1,p =>
    if p.current=.rbracket then .ok (jsonNextToken p)
    else if p.current=.eof then .ok p
    else
      match jsonSkipValue fuel p with
      | .error e => .error e
      | .ok q => skipElements fuel (skipComma q)

end

/-- The copy that json_parse_string makes of the characters in string_buf. -/
def copyString (size : Nat) (h : 0 < size) (s : List UInt8) : CField size :=
  .copyWithin s (min s.length (size-1))
    (Nat.lt_of_le_of_lt (Nat.min_le_right _ _) (Nat.sub_lt h Nat.one_pos)) (Nat.min_le_left _ _)

/-- json_parse_string into a buffer of `size` bytes. -/
def jsonParseString (size : Nat) (h : 0 < size) (p : Parser δ) :
    Except Fault (CField size × Parser δ) :=
  if p.current=.string then .ok (copyString size h p.stringBuf.bytes,jsonNextToken p)
  else .error .invalid

/-- json_parse_number. -/
def jsonParseNumber (p : Parser δ) : Except Fault (δ × Parser δ) :=
  if p.current=.number then .ok (p.numberValue,jsonNextToken p) else .error .invalid

/-- json_parse_int. -/
def jsonParseInt (p : Parser δ) : Except Fault (Int32 × Parser δ) :=
  if p.current=.number then .ok (Double.toInt p.numberValue,jsonNextToken p)
  else .error .invalid

/-- json_parse_bool. -/
def jsonParseBool (p : Parser δ) : Except Fault (Bool × Parser δ) :=
  if p.current=.true then .ok (true,jsonNextToken p)
  else if p.current=.false then .ok (false,jsonNextToken p)
  else .error .invalid

end Cllm.Json
