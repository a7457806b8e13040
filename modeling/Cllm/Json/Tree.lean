import Cllm.Json.Writer

namespace Cllm.Json

open Libc

/-- What json_write_key puts out as it stands without harm. -/
abbrev Key := {k : List UInt8 // ∀ c∈k,c≠0 ∧ c≠34 ∧ c≠92}

abbrev NulFree := {s : List UInt8 // 0∉s}

mutual

inductive Tree where
  | null
  | bool (b : Bool)
  | int (i : Int32)
  | string (s : NulFree)
  | array (ts : Trees)
  | object (fs : Fields)

inductive Trees where
  | nil
  | cons (t : Tree) (ts : Trees)

inductive Fields where
  | nil
  | cons (k : Key) (t : Tree) (fs : Fields)

end

def Trees.ints : List Int32 → Trees
  | [] => .nil
  | i::arr => .cons (.int i) (Trees.ints arr)

/-- A tree, or what stands inside its brackets from some place on. -/
inductive Piece where
  | value (t : Tree)
  | elements (ts : Trees)
  | members (fs : Fields)

variable {size : Nat}

/-- The calls that serialise a piece, in their natural order. A member is a key and a value, or
one of the json_write_kv functions, and an array of ints may be a json_write_int_array. -/
inductive Serialises : Call size → Piece → Prop
  | null : Serialises jsonWriteNull (.value .null)
  | bool (b : Bool) : Serialises (jsonWriteBool b) (.value (.bool b))
  | int (i : Int32) : Serialises (jsonWriteInt i) (.value (.int i))
  | string (s : NulFree) : Serialises (jsonWriteString s.1) (.value (.string s))
  | array {f ts} (h : Serialises f (.elements ts)) :
      Serialises (all [jsonWriteArrayStart,f,jsonWriteArrayEnd]) (.value (.array ts))
  | intArray (arr : List Int32) :
      Serialises (jsonWriteIntArray arr) (.value (.array (Trees.ints arr)))
  | object {f fs} (h : Serialises f (.members fs)) :
      Serialises (all [jsonWriteObjectStart,f,jsonWriteObjectEnd]) (.value (.object fs))
  | noElement : Serialises (all []) (.elements .nil)
  | element {f g t ts} (hf : Serialises f (.value t)) (hg : Serialises g (.elements ts)) :
      Serialises (all [f,g]) (.elements (.cons t ts))
  | noMember : Serialises (all []) (.members .nil)
  | member {f g t fs} (k : Key) (hf : Serialises f (.value t))
      (hg : Serialises g (.members fs)) :
      Serialises (all [jsonWriteKey k.1,f,g]) (.members (.cons k t fs))
  | kv {f g t fs} (k : Key) (hf : Serialises f (.value t)) (hg : Serialises g (.members fs)) :
      Serialises (all [attempt [jsonWriteKey k.1,f],g]) (.members (.cons k t fs))

mutual

/-- Every tree can be serialised. -/
theorem Tree.serialised : (t : Tree) → ∃ f : Call size,Serialises f (.value t)
  | .null => ⟨_,.null⟩
  | .bool b => ⟨_,.bool b⟩
  | .int i => ⟨_,.int i⟩
  | .string s => ⟨_,.string s⟩
  | .array ts => (Trees.serialised ts).elim fun _ h => ⟨_,.array h⟩
  | .object fs => (Fields.serialised fs).elim fun _ h => ⟨_,.object h⟩

theorem Trees.serialised : (ts : Trees) → ∃ f : Call size,Serialises f (.elements ts)
  | .nil => ⟨_,.noElement⟩
  | .cons t ts => by
    obtain ⟨f,hf⟩ := Tree.serialised t
    obtain ⟨g,hg⟩ := Trees.serialised ts
    exact ⟨_,.element hf hg⟩

theorem Fields.serialised : (fs : Fields) → ∃ f : Call size,Serialises f (.members fs)
  | .nil => ⟨_,.noMember⟩
  | .cons k t fs => by
    obtain ⟨f,hf⟩ := Tree.serialised t
    obtain ⟨g,hg⟩ := Fields.serialised fs
    exact ⟨_,.member k hf hg⟩

end

mutual

def Tree.text : Tree → List UInt8
  | .null => Rfc8259.nullText
  | .bool b => Rfc8259.boolText b
  | .int i => intText i
  | .string s => stringText s.1
  | .array ts => 91::(ts.text false++[93])
  | .object fs => 123::(fs.text false++[125])

/-- The elements, with a comma in front of the first one if that is due. -/
def Trees.text : Trees → Bool → List UInt8
  | .nil,_ => []
  | .cons t ts,b => comma b++(t.text++ts.text true)

def Fields.text : Fields → Bool → List UInt8
  | .nil,_ => []
  | .cons k t fs,b => comma b++34::(k.1++34::58::(t.text++fs.text true))

end

def Piece.text : Piece → Bool → List UInt8
  | .value t,b => comma b++t.text
  | .elements ts,b => ts.text b
  | .members fs,b => fs.text b

/-- needs_comma after the piece. -/
def Piece.due : Piece → Bool → Bool
  | .elements .nil,b => b
  | .members .nil,b => b
  | _,_ => true

theorem Key.cut_eq (k : Key) : cut k.1=k.1 := by
  apply cut_of_not_mem
  intro h
  exact (k.2 0 h).1 rfl

theorem appends_ints (arr : List Int32) {w : Writer size} {b : Bool} (hw : w.needsComma=b) :
    Appends (attempt (arr.map jsonWriteInt++[jsonWriteArrayEnd])) w
      ((Trees.ints arr).text b++[93]) true := by
  induction arr generalizing w b with
  | nil =>
    exact (appends_end (s := cstr "]") (c := 93) (by decide) w).attempt
      fun w₁ hw₁ => hw₁ ▸ appends_attempt_nil w₁
  | cons i arr ih =>
    have hall := (writes_int i w).attempt fun w₁ hw₁ => ih hw₁
    apply hall.of_eq
    simp [Trees.ints,Trees.text,Tree.text,hw]

theorem Piece.due_true (p : Piece) : p.due true=true := by
  cases p with
  | value t => rfl
  | elements ts => cases ts <;> rfl
  | members fs => cases fs <;> rfl

/-- What comes behind a value. -/
theorem appends_behind {g : Call size} {p : Piece} {w : Writer size} (hw : w.needsComma=true)
    (hg : ∀ {w : Writer size} {b : Bool},w.needsComma=b → Appends g w (p.text b) (p.due b)) :
    Appends (all [g]) w (p.text true++[]) true := by
  apply (hg hw).all
  intro w₁ hw₁
  rw [p.due_true] at hw₁
  exact hw₁ ▸ appends_all_nil w₁

/-- Every way to serialise a piece puts out its text. -/
theorem Serialises.appends {f : Call size} {p : Piece} (h : Serialises f p) {w : Writer size}
    {b : Bool} (hw : w.needsComma=b) : Appends f w (p.text b) (p.due b) := by
  induction h generalizing w b with
  | null => exact hw ▸ writes_null w
  | bool v => exact hw ▸ writes_bool v w
  | int i => exact hw ▸ writes_int i w
  | string s => exact hw ▸ writes_string s.2 w
  | @array f ts h ih =>
    have hstart := appends_start (by decide : (cut (cstr "[")).take 1=[91]) w
    have hend := fun w : Writer size => appends_end (by decide : (cut (cstr "]")).take 1=[93]) w
    have hall := hstart.all fun w₁ hw₁ => (ih hw₁).all fun w₂ _ => (hend w₂).all
      fun w₃ hw₃ => hw₃ ▸ appends_all_nil w₃
    apply hall.of_eq
    simp [Piece.text,Tree.text,hw]
  | intArray arr =>
    have hstart := appends_start (by decide : (cut (cstr "[")).take 1=[91]) w
    have hall := hstart.attempt fun w₁ hw₁ => appends_ints arr hw₁
    apply hall.of_eq
    simp [Piece.text,Tree.text,hw]
  | @object f fs h ih =>
    have hstart := appends_start (by decide : (cut (cstr "\x7b")).take 1=[123]) w
    have hend := fun w : Writer size => appends_end (by decide : (cut (cstr "\x7d")).take 1=[125]) w
    have hall := hstart.all fun w₁ hw₁ => (ih hw₁).all fun w₂ _ => (hend w₂).all
      fun w₃ hw₃ => hw₃ ▸ appends_all_nil w₃
    apply hall.of_eq
    simp [Piece.text,Tree.text,hw]
  | noElement => exact hw ▸ appends_all_nil w
  | @element f g t ts hf hg ihf ihg =>
    have hall := (ihf hw).all fun w₁ hw₁ => appends_behind hw₁ ihg
    apply hall.of_eq
    simp [Piece.text,Trees.text]
  | noMember => exact hw ▸ appends_all_nil w
  | @member f g t fs k hf hg ihf ihg =>
    have hall := (appends_key k.1 w).all fun w₁ hw₁ => (ihf hw₁).all
      fun w₂ hw₂ => appends_behind hw₂ ihg
    apply hall.of_eq
    simp [Piece.text,Fields.text,k.cut_eq,comma,hw]
  | @kv f g t fs k hf hg ihf ihg =>
    have hkv := (appends_key k.1 w).attempt fun w₁ hw₁ => (ihf hw₁).attempt
      fun w₂ hw₂ => hw₂ ▸ appends_attempt_nil w₂
    have hall := hkv.all fun w₁ hw₁ => appends_behind hw₁ ihg
    apply hall.of_eq
    simp [Piece.text,Fields.text,k.cut_eq,comma,hw]

end Cllm.Json
