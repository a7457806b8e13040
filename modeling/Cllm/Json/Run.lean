import Cllm.Framework.Trace
import Cllm.Json.Parser
import Cllm.Json.Scan

namespace Cllm.Json

open Libc Trace

/-- What the result of a parser does not show: its calls of json_next_token, and its writes to
the entry `index` of an array with `size` entries, of bytes or of something else. -/
inductive Event where
  | next
  | byte (size index : Nat) (value : UInt8)
  | entry (size index : Nat)
  deriving DecidableEq

abbrev Run (α : Type) := Traced Event Fault α

def calls (es : List Event) : Nat := es.count .next

/-- The writes are inside their arrays. -/
def Event.allowed : Event → Prop
  | .next => True
  | .byte size index _ => index < size
  | .entry size index => index < size

def InBounds (es : List Event) : Prop := ∀ e∈es,e.allowed

/-- A string written to an array of `size` bytes from the index `i` on. -/
def bytesFrom (size : Nat) : (i : Nat) → List UInt8 → List Event
  | _,[] => []
  | i,c::cs => .byte size i c::bytesFrom size (i+1) cs

/-- What writes to an array leave in it. -/
def replay (buf : List UInt8) : List Event → List UInt8
  | [] => buf
  | .byte _ i c::es => replay (buf.set i c) es
  | .next::es | .entry _ _::es => replay buf es

variable {δ φ : Type} [Double δ φ]

namespace Run

def jsonNextToken (p : Parser δ) : Run (Parser δ) := .emit [.next] (Json.jsonNextToken p)

def skipComma (p : Parser δ) : Run (Parser δ) :=
  if p.current=.comma then jsonNextToken p else pure p

mutual

def jsonSkipValue : (fuel : Nat) → Parser δ → Run (Parser δ)
  | 0,_ => .fail .fuel
  | fuel+1,p =>
    match p.current with
    | .lbrace => jsonNextToken p >>= skipMembers fuel
    | .lbracket => jsonNextToken p >>= skipElements fuel
    | .string | .number | .true | .false | .null => jsonNextToken p
    | _ => .fail .invalid

def skipMembers : (fuel : Nat) → Parser δ → Run (Parser δ)
  | 0,_ => .fail .fuel
  | fuel+1,p =>
    if p.current=.rbrace then jsonNextToken p
    else if p.current=.eof then pure p
    else if p.current≠.string then .fail .invalid
    else do
      let colon ← jsonNextToken p
      if colon.current≠.colon then .fail .invalid
      else do
        let q ← jsonNextToken colon
        let q ← jsonSkipValue fuel q
        let q ← skipComma q
        skipMembers fuel q

def skipElements : (fuel : Nat) → Parser δ → Run (Parser δ)
  | 0,_ => .fail .fuel
  | fuel+1,p =>
    if p.current=.rbracket then jsonNextToken p
    else if p.current=.eof then pure p
    else do
      let q ← jsonSkipValue fuel p
      let q ← skipComma q
      skipElements fuel q

end

/-- strncpy(buf, p->string_buf, copy_len) and the NUL behind it. -/
def copyStores (size : Nat) (s : List UInt8) : List Event :=
  let copyLen := if s.length < size-1 then s.length else size-1
  bytesFrom size 0 ((strncpy s copyLen).getD []++[0])

def jsonParseString (size : Nat) (h : 0 < size) (p : Parser δ) :
    Run (CField size × Parser δ) :=
  if p.current=.string then do
    let v ← .emit (copyStores size p.stringBuf.bytes) (copyString size h p.stringBuf.bytes)
    let q ← jsonNextToken p
    pure (v,q)
  else .fail .invalid

def jsonParseNumber (p : Parser δ) : Run (δ × Parser δ) :=
  if p.current=.number then do
    let q ← jsonNextToken p
    pure (p.numberValue,q)
  else .fail .invalid

def jsonParseInt (p : Parser δ) : Run (Int32 × Parser δ) :=
  if p.current=.number then do
    let q ← jsonNextToken p
    pure (Double.toInt p.numberValue,q)
  else .fail .invalid

def jsonParseBool (p : Parser δ) : Run (Bool × Parser δ) :=
  if p.current=.true then do
    let q ← jsonNextToken p
    pure (true,q)
  else if p.current=.false then do
    let q ← jsonNextToken p
    pure (false,q)
  else .fail .invalid

theorem skipComma_result (p : Parser δ) : (skipComma p).result=.ok (Json.skipComma p) := by
  rw [skipComma,Json.skipComma]
  split_ifs <;> rfl

theorem skip_results (fuel : Nat) :
    (∀ p : Parser δ,(jsonSkipValue fuel p).result=Json.jsonSkipValue fuel p) ∧
    (∀ p : Parser δ,(skipMembers fuel p).result=Json.skipMembers fuel p) ∧
    (∀ p : Parser δ,(skipElements fuel p).result=Json.skipElements fuel p) := by
  induction fuel with
  | zero => exact ⟨fun _ => rfl,fun _ => rfl,fun _ => rfl⟩
  | succ fuel ih =>
    obtain ⟨ihv,ihm,ihe⟩ := ih
    refine ⟨fun p => ?_,fun p => ?_,fun p => ?_⟩
    · rw [jsonSkipValue,Json.jsonSkipValue]
      cases p.current with
      | lbrace => exact (Traced.result_bind _ _).trans (ihm _)
      | lbracket => exact (Traced.result_bind _ _).trans (ihe _)
      | _ => rfl
    · rw [skipMembers,Json.skipMembers]
      split_ifs with hb he hs
      · rfl
      · rfl
      · rfl
      · rw [Traced.result_bind]
        change (if (Json.jsonNextToken p).current≠.colon then _ else _ : Run (Parser δ)).result=_
        by_cases hc : (Json.jsonNextToken p).current≠.colon
        · simp only [if_pos hc]
          rfl
        · simp only [if_neg hc]
          rw [Traced.result_bind]
          change (jsonSkipValue fuel _ >>= _).result=_
          rw [Traced.result_bind,ihv]
          cases Json.jsonSkipValue fuel (Json.jsonNextToken (Json.jsonNextToken p)) with
          | error e => rfl
          | ok q =>
            change (skipComma q >>= _).result=_
            rw [Traced.result_bind,skipComma_result]
            exact ihm _
    · rw [skipElements,Json.skipElements]
      split_ifs with hb he
      · rfl
      · rfl
      · rw [Traced.result_bind,ihv]
        cases Json.jsonSkipValue fuel p with
        | error e => rfl
        | ok q =>
          change (skipComma q >>= _).result=_
          rw [Traced.result_bind,skipComma_result]
          exact ihe _

theorem jsonParseString_result (size : Nat) (h : 0 < size) (p : Parser δ) :
    (jsonParseString size h p).result=Json.jsonParseString size h p := by
  rw [jsonParseString,Json.jsonParseString]
  split_ifs <;> rfl

theorem jsonParseNumber_result (p : Parser δ) :
    (jsonParseNumber p).result=Json.jsonParseNumber p := by
  rw [jsonParseNumber,Json.jsonParseNumber]
  split_ifs <;> rfl

theorem jsonParseInt_result (p : Parser δ) : (jsonParseInt p).result=Json.jsonParseInt p := by
  rw [jsonParseInt,Json.jsonParseInt]
  split_ifs <;> rfl

theorem jsonParseBool_result (p : Parser δ) : (jsonParseBool p).result=Json.jsonParseBool p := by
  rw [jsonParseBool,Json.jsonParseBool]
  split_ifs <;> rfl

end Run

end Cllm.Json
