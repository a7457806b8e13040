import Cllm.Json.RoundTrip
import Cllm.Libc.Format

namespace Cllm.Json

open Libc Ieee754 Rfc8259

variable {size : Nat}

/-- A call and the value that it puts out, from every writer. -/
structure Item (size : Nat) where
  call : Call size
  value : Value
  writes : Writes call value.texts.flatten

/-- A call and the member that it puts out. -/
structure Member (size : Nat) where
  call : Call size
  name : Literal
  value : Value
  appends : ∀ w : Writer size,Appends call w
    (comma w.needsComma++(name.text++58::value.texts.flatten)) true

def Elements.of : List Value → Elements
  | [] => .nil
  | v::vs => .cons v (of vs)

@[simp] theorem toList_of (vs : List Value) : (Elements.of vs).toList=vs := by
  induction vs with
  | nil => rfl
  | cons v vs ih => rw [Elements.of,Elements.toList,ih]

def elementsText : Bool → List Value → List UInt8
  | _,[] => []
  | b,v::vs => comma b++(v.texts.flatten++elementsText true vs)

theorem comma_length (b : Bool) : (comma b).length ≤ 1 := by
  cases b <;> decide

/-- A comma and the text for each value. -/
theorem elementsText_length {vs : List Value} {k : Nat} (b : Bool)
    (h : ∀ v∈vs,v.texts.flatten.length ≤ k) :
    (elementsText b vs).length ≤ (k+1)*vs.length := by
  induction vs generalizing b with
  | nil => exact Nat.zero_le _
  | cons v vs ih =>
    rw [List.forall_mem_cons] at h
    have hrest := ih true h.2
    have hvalue := h.1
    have hcomma := comma_length b
    rw [elementsText,List.length_cons,Nat.mul_succ]
    simp only [List.length_append]
    omega

def Members.of : List (Literal × Value) → Members
  | [] => .nil
  | m::ms => .cons m.1 m.2 (of ms)

def memberText (m : Literal × Value) : List UInt8 := m.1.text++58::m.2.texts.flatten

def membersText : Bool → List (Literal × Value) → List UInt8
  | _,[] => []
  | b,m::ms => comma b++(memberText m++membersText true ms)

theorem elements_more_text (vs : List Value) :
    (Elements.of vs).more.flatten=elementsText true vs++[93] := by
  induction vs with
  | nil => rfl
  | cons v vs ih => simp [Elements.of,Elements.more,elementsText,ih,comma]

theorem array_text (vs : List Value) :
    (Value.array (Elements.of vs)).texts.flatten=91::(elementsText false vs++[93]) := by
  cases vs with
  | nil => rfl
  | cons v vs => simp [Value.texts,Elements.of,Elements.texts,elementsText,elements_more_text,comma]

theorem members_more_text (ms : List (Literal × Value)) :
    (Members.of ms).more.flatten=membersText true ms++[125] := by
  induction ms with
  | nil => rfl
  | cons m ms ih => simp [Members.of,Members.more,membersText,memberText,ih,comma]

theorem object_text (ms : List (Literal × Value)) :
    (Value.object (Members.of ms)).texts.flatten=123::(membersText false ms++[125]) := by
  cases ms with
  | nil => rfl
  | cons m ms =>
    simp [Value.texts,Members.of,Members.texts,membersText,memberText,members_more_text,comma]

def Item.null : Item size where
  call := jsonWriteNull
  value := .null
  writes := by simpa [Value.texts] using writes_null

theorem writes_intNumeral (i : Int32) :
    Writes (jsonWriteInt i : Call size) (Value.number (intNumeral i)).texts.flatten := by
  rw [Value.texts,List.flatten_singleton,intNumeral_text]
  exact writes_int i

def Item.int (i : Int32) : Item size := ⟨jsonWriteInt i,.number (intNumeral i),writes_intNumeral i⟩

/-- There is no branch for the letters behind the percent sign, and no argument is taken. -/
theorem formatLoop_lld (args : List VaArg) (k : Sink) :
    formatLoop (cstr "%lld") args k=appendStr k (cstr "%lld") := by
  have hformat : cstr "%lld"=37::108::(cstr "ld"++[]) := by decide
  have hother : (108 : UInt8)∉cstr "sdiuxXpz%" := by decide
  have htext : 37∉cstr "ld" := by decide
  rw [formatLoop_formatted,hformat,formatted_other _ hother,formatted_text htext]
  rfl

theorem writes_int64 (value : Int64) : Writes (jsonWriteInt64 value : Call size) (cstr "%lld") := by
  apply writes_scalar
  exact appends_formatted (formatLoop_lld _ _) (by decide) (by decide)

/-- The loop over the characters does not go beyond a NUL. -/
theorem writeChars_cut (s : List UInt8) :
    (writeChars s : Call size)=writeChars (cut s) := by
  induction s with
  | nil => rfl
  | cons c s ih =>
    funext w
    by_cases hc : c=0
    · have hcut : cut (c::s)=[] := by simp [cut,hc]
      rw [writeChars,if_pos hc,hcut]
      rfl
    · have hcut : cut (c::s)=c::cut s := by simp [cut,hc]
      rw [hcut,writeChars,writeChars,ih]

theorem writes_stringLiteral (s : List UInt8) : Writes (jsonWriteString s : Call size)
    (Value.string (stringLiteral (cut s))).texts.flatten := by
  have hcall : (jsonWriteString s : Call size)=jsonWriteString (cut s) := by
    rw [jsonWriteString,jsonWriteString,writeChars_cut]
  rw [hcall,Value.texts,List.flatten_singleton,Literal.text,stringLiteral_inner]
  exact writes_string (zero_not_mem_cut s)

def Item.string (s : List UInt8) : Item size :=
  ⟨jsonWriteString s,.string (stringLiteral (cut s)),writes_stringLiteral s⟩

theorem fraction_digits (k : Int32) : uintText k.toInt.natAbs 10 false≠[] ∧
    ∀ d∈uintText k.toInt.natAbs 10 false,Digit d := int_digits k

theorem zero_digits : ([48] : List UInt8)≠[] ∧ ∀ d∈([48] : List UInt8),Digit d := by
  decide +kernel

theorem zero_leading (_ : ([48] : List UInt8).head?=some 48) : ([48] : List UInt8)=[48] := rfl

/-- 0 and a fraction. -/
def fractionNumeral (k : Int32) : Numeral where
  negative := false
  whole := ⟨[48],zero_digits⟩
  noLeadingZero := zero_leading
  fraction := some ⟨uintText k.toInt.natAbs 10 false,fraction_digits k⟩
  exponent := none

theorem fractionNumeral_text {k : Int32} (hk : ¬k < 0) :
    (fractionNumeral k).text=48::46::intText k := by
  simp [fractionNumeral,Numeral.text,Numeral.signText,Numeral.fractionText,Numeral.exponentText,
    intText,hk]

/-- The value is in front of 1, and has a fraction that json_write_float can put out. -/
def Fractional (g : Format) (v : Binary32) : Prop :=
  castInt v=0 ∧ fractionPart g v 0≠0 ∧ ¬trimZeros 10 (fractionPart g v 0) < 0

instance (g : Format) (v : Binary32) : Decidable (Fractional g v) :=
  inferInstanceAs (Decidable (_ ∧ _))

/-- What stands for a number: both parts as integers, without the zeros at the end. -/
def floatText (g : Format) (v : Binary32) : List UInt8 :=
  intText (castInt v)++46::intText (trimZeros 10 (fractionPart g v (castInt v)))

theorem formatLoop_pair (i k : Int32) :
    formatLoop (cstr "%d.%d") [.word i.toUInt32,.word k.toUInt32] ⟨List.replicate 32 0,32,0⟩=
      appendStr ⟨List.replicate 32 0,32,0⟩ (intText i++46::intText k) := by
  have hformat : cstr "%d.%d"=cstr "%d"++(46::(cstr "%d"++[])) := by decide
  rw [hformat,formatLoop_d,formatLoop_ne (by decide),formatLoop_d,appendStr_append]
  rfl

theorem formatLoop_whole (i : Int32) :
    formatLoop (cstr "%d.0") [.word i.toUInt32] ⟨List.replicate 32 0,32,0⟩=
      appendStr ⟨List.replicate 32 0,32,0⟩ (intText i++46::intText 0) := by
  have hformat : cstr "%d.0"=cstr "%d"++[46,48] := by decide
  have hzero : intText 0=[48] := by decide
  rw [hformat,formatLoop_d,hzero,appendStr_append,formatLoop_ne (by decide),
    formatLoop_ne (by decide)]
  rfl

/-- Two numbers with a point between them are shorter than num[32]. -/
theorem pairText_fits (i k : Int32) :
    (intText i++46::intText k).length < 32 ∧ 0∉intText i++46::intText k := by
  have hi := intText_length i
  have hk := intText_length k
  constructor
  · rw [List.length_append,List.length_cons]
    omega
  · simp [zero_not_mem_intText]

theorem writes_float (g : Format) (v : Binary32) :
    Writes (jsonWriteFloat g v : Call size) (floatText g v) := by
  rw [jsonWriteFloat,floatText]
  generalize castInt v=i
  generalize fractionPart g v i=k
  apply writes_scalar
  by_cases hfrac : k=0
  · subst hfrac
    rw [if_pos rfl]
    exact appends_formatted (formatLoop_whole i) (pairText_fits i 0).1 (pairText_fits i 0).2
  · rw [if_neg hfrac]
    exact appends_formatted (formatLoop_pair i _) (pairText_fits i _).1 (pairText_fits i _).2

theorem writes_fraction {g : Format} {v : Binary32} (h : Fractional g v) :
    Writes (jsonWriteFloat g v : Call size)
      (Value.number (fractionNumeral (trimZeros 10 (fractionPart g v 0)))).texts.flatten := by
  obtain ⟨hint,-,hk⟩ := h
  have htext : Writes (jsonWriteFloat g v : Call size) (floatText g v) := writes_float g v
  have hzero : intText 0=[48] := by decide
  rw [floatText,hint,hzero] at htext
  rwa [Value.texts,List.flatten_singleton,fractionNumeral_text hk]

def Item.fraction (g : Format) (v : Binary32) (h : Fractional g v) : Item size :=
  ⟨jsonWriteFloat g v,.number (fractionNumeral (trimZeros 10 (fractionPart g v 0))),
    writes_fraction h⟩

theorem appends_elements {rest : List (Call size)} {t : List UInt8} {c : Bool}
    (hrest : ∀ w : Writer size,Appends (all rest) w t c) (items : List (Item size))
    {w : Writer size} {b : Bool} (hw : w.needsComma=b) :
    Appends (all (items.map Item.call++rest)) w (elementsText b (items.map Item.value)++t) c := by
  induction items generalizing w b with
  | nil => exact hrest w
  | cons item items ih =>
    have hall := (item.writes w).all fun w₁ hw₁ => ih hw₁
    apply hall.of_eq
    simp [elementsText,hw]

theorem appends_packed {rest : List (Call size)} {t : List UInt8} {c : Bool}
    (hrest : ∀ w : Writer size,Appends (attempt rest) w t c) (items : List (Item size))
    {w : Writer size} {b : Bool} (hw : w.needsComma=b) :
    Appends (attempt (items.map Item.call++rest)) w (elementsText b (items.map Item.value)++t)
      c := by
  induction items generalizing w b with
  | nil => exact hrest w
  | cons item items ih =>
    have hall := (item.writes w).attempt fun w₁ hw₁ => ih hw₁
    apply hall.of_eq
    simp [elementsText,hw]

theorem writes_array (items : List (Item size)) :
    Writes (all (jsonWriteArrayStart::(items.map Item.call++[jsonWriteArrayEnd])))
      (Value.array (Elements.of (items.map Item.value))).texts.flatten := by
  intro w
  have hstart := appends_start (by decide : (cut (cstr "[")).take 1=[91]) w
  have hend : ∀ w : Writer size,Appends (all [jsonWriteArrayEnd]) w ([93]++[]) true := fun w =>
    (appends_end (by decide : (cut (cstr "]")).take 1=[93]) w).all
      fun w₁ hw₁ => hw₁ ▸ appends_all_nil w₁
  have hall := hstart.all fun w₁ hw₁ => appends_elements hend items hw₁
  apply hall.of_eq
  simp [array_text]

/-- The array of json_write_int_array and json_write_float_array, which stop at an error. -/
theorem writes_packed (items : List (Item size)) :
    Writes (attempt (jsonWriteArrayStart::(items.map Item.call++[jsonWriteArrayEnd])))
      (Value.array (Elements.of (items.map Item.value))).texts.flatten := by
  intro w
  have hstart := appends_start (by decide : (cut (cstr "[")).take 1=[91]) w
  have hend : ∀ w : Writer size,Appends (attempt [jsonWriteArrayEnd]) w ([93]++[]) true := fun w =>
    (appends_end (by decide : (cut (cstr "]")).take 1=[93]) w).attempt
      fun w₁ hw₁ => hw₁ ▸ appends_attempt_nil w₁
  have hall := hstart.attempt fun w₁ hw₁ => appends_packed hend items hw₁
  apply hall.of_eq
  simp [array_text]

def Item.array (items : List (Item size)) : Item size := ⟨_,_,writes_array items⟩

def Item.packed (items : List (Item size)) : Item size := ⟨_,_,writes_packed items⟩

abbrev Name := {k : List UInt8 // ∀ c∈k,32≤c ∧ c≠34 ∧ c≠92}

def Name.literal (k : Name) : Literal := .plain k.1 k.2

theorem Name.literal_text (k : Name) : k.literal.text=34::(k.1++[34]) := by
  have hinner : ∀ (s : List UInt8) (h : ∀ c∈s,32≤c ∧ c≠34 ∧ c≠92),
      (Literal.plain s h).inner=s := by
    intro s h
    induction s with
    | nil => rfl
    | cons c s ih => exact congrArg (c::·) (ih fun d hd => h d (List.mem_cons_of_mem c hd))
  rw [Literal.text,Name.literal,hinner]

theorem Name.length_text (k : Name) : k.literal.text.length=k.1.length+2 := by
  rw [k.literal_text,List.length_cons,List.length_append,List.length_singleton]

theorem Name.cut_eq (k : Name) : cut k.1=k.1 := by
  apply cut_of_not_mem
  intro h
  exact absurd (k.2 0 h).1 (by decide)

theorem appends_name (k : Name) (w : Writer size) :
    Appends (jsonWriteKey k.1) w (comma w.needsComma++(k.literal.text++[58])) false := by
  apply (appends_key k.1 w).of_eq
  rw [k.cut_eq,k.literal_text]
  simp

/-- One of the json_write_kv functions. -/
theorem appends_kv (k : Name) (item : Item size) (w : Writer size) :
    Appends (attempt [jsonWriteKey k.1,item.call]) w
      (comma w.needsComma++(k.literal.text++58::item.value.texts.flatten)) true := by
  have hlate : ∀ w₁ : Writer size,w₁.needsComma=false →
      Appends (attempt [item.call]) w₁ item.value.texts.flatten true := by
    intro w₁ hw₁
    have hitem := (item.writes w₁).attempt fun w₂ hw₂ => hw₂ ▸ appends_attempt_nil w₂
    apply hitem.of_eq
    simp [hw₁,comma]
  apply ((appends_name k w).attempt hlate).of_eq
  simp

/-- A key and then a value. -/
theorem appends_pair (k : Name) (item : Item size) (w : Writer size) :
    Appends (all [jsonWriteKey k.1,item.call]) w
      (comma w.needsComma++(k.literal.text++58::item.value.texts.flatten)) true := by
  have hlate : ∀ w₁ : Writer size,w₁.needsComma=false →
      Appends (all [item.call]) w₁ item.value.texts.flatten true := by
    intro w₁ hw₁
    have hitem := (item.writes w₁).all fun w₂ hw₂ => hw₂ ▸ appends_all_nil w₂
    apply hitem.of_eq
    simp [hw₁,comma]
  apply ((appends_name k w).all hlate).of_eq
  simp

def Member.kv (k : Name) (item : Item size) : Member size :=
  ⟨attempt [jsonWriteKey k.1,item.call],k.literal,item.value,appends_kv k item⟩

def Member.pair (k : Name) (item : Item size) : Member size :=
  ⟨all [jsonWriteKey k.1,item.call],k.literal,item.value,appends_pair k item⟩

/-- The name and the value. -/
def Member.entry (m : Member size) : Literal × Value := (m.name,m.value)

theorem appends_members {rest : List (Call size)} {t : List UInt8} {c : Bool}
    (hrest : ∀ w : Writer size,Appends (all rest) w t c) (ms : List (Member size))
    {w : Writer size} {b : Bool} (hw : w.needsComma=b) :
    Appends (all (ms.map Member.call++rest)) w (membersText b (ms.map Member.entry)++t) c := by
  induction ms generalizing w b with
  | nil => exact hrest w
  | cons m ms ih =>
    have hall := (m.appends w).all fun w₁ hw₁ => ih hw₁
    apply hall.of_eq
    simp [membersText,memberText,Member.entry,hw]

theorem writes_object (ms : List (Member size)) :
    Writes (all (jsonWriteObjectStart::(ms.map Member.call++[jsonWriteObjectEnd])))
      (Value.object (Members.of (ms.map Member.entry))).texts.flatten := by
  intro w
  have hstart := appends_start (by decide : (cut (cstr "\x7b")).take 1=[123]) w
  have hend : ∀ w : Writer size,Appends (all [jsonWriteObjectEnd]) w ([125]++[]) true := fun w =>
    (appends_end (by decide : (cut (cstr "\x7d")).take 1=[125]) w).all
      fun w₁ hw₁ => hw₁ ▸ appends_all_nil w₁
  have hall := hstart.all fun w₁ hw₁ => appends_members hend ms hw₁
  apply hall.of_eq
  simp [object_text]

def Item.object (ms : List (Member size)) : Item size := ⟨_,_,writes_object ms⟩

end Cllm.Json
