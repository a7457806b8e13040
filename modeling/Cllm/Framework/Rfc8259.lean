import Mathlib.Data.List.Basic
import Mathlib.Tactic.Common

namespace Cllm.Rfc8259

abbrev Blank (c : UInt8) : Prop := c=32 ∨ c=9 ∨ c=10 ∨ c=13

abbrev Digit (c : UInt8) : Prop := 48≤c ∧ c≤57

abbrev HexDigit (c : UInt8) : Prop := Digit c ∨ (65≤c ∧ c≤70) ∨ (97≤c ∧ c≤102)

inductive Escape where
  | quote | backslash | slash | b | f | n | r | t
  deriving DecidableEq

/-- The letter that stands behind the backslash. -/
def Escape.letter : Escape → UInt8
  | .quote => 34
  | .backslash => 92
  | .slash => 47
  | .b => 98
  | .f => 102
  | .n => 110
  | .r => 114
  | .t => 116

/-- The byte that it stands for. -/
def Escape.byte : Escape → UInt8
  | .quote => 34
  | .backslash => 92
  | .slash => 47
  | .b => 8
  | .f => 12
  | .n => 10
  | .r => 13
  | .t => 9

/-- One element of a string; the bytes from 128 on belong to the UTF-8 of a text. -/
inductive StringChar where
  | plain (c : UInt8) (h : 32≤c ∧ c≠34 ∧ c≠92)
  | escape (e : Escape)
  | unicode (d : Fin 4 → {c : UInt8 // HexDigit c})

def StringChar.text : StringChar → List UInt8
  | .plain c _ => [c]
  | .escape e => [92,e.letter]
  | .unicode d => [92,117,d ⟨0,by decide⟩,d ⟨1,by decide⟩,d ⟨2,by decide⟩,d ⟨3,by decide⟩]

/-- The byte that an element stands for, unless it is a unicode escape. -/
def StringChar.decode : StringChar → Option UInt8
  | .plain c _ => some c
  | .escape e => some e.byte
  | .unicode _ => none

/-- A string between its quotes. -/
abbrev Literal := List StringChar

namespace Literal

/-- The literal that spells bytes as they are. -/
def plain (s : List UInt8) (h : ∀ c∈s,32≤c ∧ c≠34 ∧ c≠92) : Literal := s.pmap StringChar.plain h

def inner (l : Literal) : List UInt8 := l.flatMap StringChar.text

def text (l : Literal) : List UInt8 := 34::(l.inner++[34])

/-- The bytes of a string without unicode escapes. -/
def decode : Literal → Option (List UInt8)
  | [] => some []
  | c::l =>
    match c.decode,decode l with
    | some b,some bs => some (b::bs)
    | _,_ => none

@[simp] theorem inner_nil : inner []=[] := rfl

@[simp] theorem inner_cons (c : StringChar) (l : Literal) :
    inner (c::l)=c.text++inner l := rfl

theorem decode_plain : (s : List UInt8) → (h : ∀ c∈s,32≤c ∧ c≠34 ∧ c≠92) →
    decode (plain s h)=some s
  | [],_ => rfl
  | c::s,h => by
    have ih := decode_plain s fun d hd => h d (List.mem_cons_of_mem c hd)
    rw [plain] at ih ⊢
    rw [List.pmap_cons,decode,ih]
    rfl

end Literal

/-- One digit or more. -/
abbrev Digits := {ds : List UInt8 // ds≠[] ∧ ∀ d∈ds,Digit d}

structure Exponent where
  marker : UInt8
  isMarker : marker=101 ∨ marker=69
  sign : Option UInt8
  isSign : ∀ c∈sign,c=43 ∨ c=45
  digits : Digits

def Exponent.text (e : Exponent) : List UInt8 := e.marker::(e.sign.toList++e.digits.1)

structure Numeral where
  negative : Bool
  whole : Digits
  noLeadingZero : whole.1.head?=some 48 → whole.1=[48]
  fraction : Option Digits
  exponent : Option Exponent

namespace Numeral

def signText (n : Numeral) : List UInt8 := if n.negative then [45] else []

def fractionText (n : Numeral) : List UInt8 :=
  match n.fraction with
  | none => []
  | some ds => 46::ds.1

def exponentText (n : Numeral) : List UInt8 :=
  match n.exponent with
  | none => []
  | some e => e.text

def text (n : Numeral) : List UInt8 := n.signText++(n.whole.1++(n.fractionText++n.exponentText))

end Numeral

mutual

inductive Value where
  | null
  | bool (b : Bool)
  | number (n : Numeral)
  | string (l : Literal)
  | array (es : Elements)
  | object (ms : Members)

inductive Elements where
  | nil
  | cons (v : Value) (es : Elements)

inductive Members where
  | nil
  | cons (name : Literal) (v : Value) (ms : Members)

end

def Value.asBool : Value → Option Bool
  | .bool b => some b
  | _ => none

theorem Value.asBool_eq_some {v : Value} {b : Bool} : v.asBool=some b ↔ v=.bool b := by
  cases v <;> simp [asBool]

def Value.asNumber : Value → Option Numeral
  | .number n => some n
  | _ => none

theorem Value.asNumber_eq_some {v : Value} {n : Numeral} : v.asNumber=some n ↔ v=.number n := by
  cases v <;> simp [asNumber]

def Value.asString : Value → Option Literal
  | .string l => some l
  | _ => none

theorem Value.asString_eq_some {v : Value} {l : Literal} : v.asString=some l ↔ v=.string l := by
  cases v <;> simp [asString]

def Value.asObject : Value → Option Members
  | .object ms => some ms
  | _ => none

def Elements.toList : Elements → List Value
  | .nil => []
  | .cons v es => v::es.toList

def Elements.map (f : Value → Value) : Elements → Elements
  | .nil => .nil
  | .cons v es => .cons (f v) (es.map f)

@[simp] theorem Elements.toList_map (f : Value → Value) :
    (es : Elements) → (es.map f).toList=es.toList.map f
  | .nil => rfl
  | .cons v es => congrArg (f v::·) (toList_map f es)

def nullText : List UInt8 := [110,117,108,108]

def boolText : Bool → List UInt8
  | true => [116,114,117,101]
  | false => [102,97,108,115,101]

mutual

def Value.texts : Value → List (List UInt8)
  | .null => [nullText]
  | .bool b => [boolText b]
  | .number n => [n.text]
  | .string l => [l.text]
  | .array es => [91]::es.texts
  | .object ms => [123]::ms.texts

/-- The elements and the bracket that closes them. -/
def Elements.texts : Elements → List (List UInt8)
  | .nil => [[93]]
  | .cons v es => v.texts++es.more

/-- The same with a comma in front of each element. -/
def Elements.more : Elements → List (List UInt8)
  | .nil => [[93]]
  | .cons v es => [44]::(v.texts++es.more)

def Members.texts : Members → List (List UInt8)
  | .nil => [[125]]
  | .cons name v ms => name.text::[58]::(v.texts++ms.more)

def Members.more : Members → List (List UInt8)
  | .nil => [[125]]
  | .cons name v ms => [44]::name.text::[58]::(v.texts++ms.more)

end

/-- `s` is the texts in order, with blanks in front of each, and then `rest`. -/
def Spaced : List (List UInt8) → List UInt8 → List UInt8 → Prop
  | [],s,rest => s=rest
  | t::ts,s,rest => ∃ w s',(∀ c∈w,Blank c) ∧ s=w++(t++s') ∧ Spaced ts s' rest

theorem spaced_append {ts us : List (List UInt8)} {s rest : List UInt8} :
    Spaced (ts++us) s rest ↔ ∃ s',Spaced ts s s' ∧ Spaced us s' rest := by
  induction ts generalizing s with
  | nil => simp [Spaced]
  | cons t ts ih =>
    constructor
    · intro h
      obtain ⟨w,r,hw,hs,hr⟩ := h
      obtain ⟨s',ht,hu⟩ := ih.mp hr
      exact ⟨s',⟨w,r,hw,hs,ht⟩,hu⟩
    · intro h
      obtain ⟨s',⟨w,r,hw,hs,ht⟩,hu⟩ := h
      exact ⟨w,r,hw,hs,ih.mpr ⟨s',ht,hu⟩⟩

/-- The texts one behind the other, without a blank. -/
theorem spaced_flatten (ts : List (List UInt8)) (rest : List UInt8) :
    Spaced ts (ts.flatten++rest) rest := by
  induction ts with
  | nil => rfl
  | cons t ts ih =>
    refine ⟨[],ts.flatten++rest,fun c hc => (by cases hc),?_,ih⟩
    rw [List.flatten_cons,List.append_assoc]
    rfl

/-- `s` is a JSON text: `v`, with nothing but blanks around it. -/
def Spells (v : Value) (s : List UInt8) : Prop :=
  ∃ rest,Spaced v.texts s rest ∧ ∀ c∈rest,Blank c

/-- Every value has a text. -/
theorem spells_flatten (v : Value) : Spells v v.texts.flatten := by
  have h := spaced_flatten v.texts []
  rw [List.append_nil] at h
  exact ⟨[],h,fun c hc => (by cases hc)⟩

/-- Tokens with the blanks in front of each. -/
theorem spells_of_tokens {v : Value} {s : List UInt8} (ps : List (List UInt8 × List UInt8))
    (hblank : ∀ p∈ps,∀ c∈p.1,Blank c) (hv : v.texts=ps.map Prod.snd)
    (hs : s=ps.flatMap fun p => p.1++p.2) : Spells v s := by
  refine ⟨[],?_,fun c hc => (by cases hc)⟩
  rw [hv,hs]
  clear hv hs
  induction ps with
  | nil => rfl
  | cons p ps ih =>
    rw [List.forall_mem_cons] at hblank
    refine ⟨p.1,_,hblank.1,?_,ih hblank.2⟩
    rw [List.flatMap_cons,List.append_assoc]

/-- A JSON text is to be UTF-8. -/
def Utf8 (s : List UInt8) : Prop := (ByteArray.mk s.toArray).IsValidUTF8

/-- One object with nothing but blanks around it. -/
def WellFormedObject (s : List UInt8) : Prop := Utf8 s ∧ ∃ ms,Spells (.object ms) s

end Cllm.Rfc8259
