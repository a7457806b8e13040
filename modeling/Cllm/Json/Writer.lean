import Cllm.Json.Number

namespace Cllm.Json

open Libc Ieee754

/-- json_writer_t; `buf` is the array of `size` bytes behind its pointer. -/
structure Writer (size : Nat) where
  buf : Buffer size
  offset : Nat
  needsComma : Bool
  depth : Int
  fits : offset ≤ size

/-- A json_write function with its arguments: the writer after it, and whether it returned 0. -/
abbrev Call (size : Nat) := Writer size → Writer size × Bool

variable {size : Nat}

/-- if (f(w) != 0) return -1, for each `f` in turn. -/
def attempt : List (Call size) → Call size
  | [],w => (w,true)
  | f::fs,w => if (f w).2 then attempt fs (f w).1 else ((f w).1,false)

/-- The calls of a caller that goes on whatever they return, and whether all of them returned 0. -/
def all : List (Call size) → Call size
  | [],w => (w,true)
  | f::fs,w => ((all fs (f w).1).1,(f w).2 && (all fs (f w).1).2)

theorem nul_room (h : 0 < size) : 0+[(0 : UInt8)].length ≤ size := h

/-- json_writer_init on an array with the bytes `buf`. -/
def jsonWriterInit (buf : Buffer size) : Writer size where
  buf := if h : 0 < size then buf.write 0 [0] (nul_room h) else buf
  offset := 0
  needsComma := false
  depth := 0
  fits := Nat.zero_le size

/-- strncpy(dst, str, n) for memory at `str` that ends, at the latest, in `n` bytes or a NUL. -/
def copied (str : List UInt8) (n : Nat) : Buffer n := .ofString n (cut str)

theorem copied_room {w : Writer size} {str : List UInt8} {len : Nat}
    (h : ¬size ≤ w.offset+len) : w.offset+(copied str len).bytes.length ≤ size := by
  rw [(copied str len).size]
  omega

theorem copied_nul_room {w : Writer size} {len : Nat} (h : ¬size ≤ w.offset+len) :
    w.offset+len+[(0 : UInt8)].length ≤ size := by
  rw [List.length_singleton]
  omega

theorem copied_fits {w : Writer size} {len : Nat} (h : ¬size ≤ w.offset+len) :
    w.offset+len ≤ size := Nat.le_of_not_le h

def writeRaw (str : List UInt8) (len : Nat) : Call size := fun w =>
  if h : size ≤ w.offset+len then (w,false)
  else
    let buf := w.buf.write w.offset (copied str len).bytes (copied_room h)
    ({w with buf := buf.write (w.offset+len) [0] (copied_nul_room h),
             offset := w.offset+len,
             fits := copied_fits h},true)

def maybeComma : Call size := fun w => if w.needsComma then writeRaw (cstr ",") 1 w else (w,true)

/-- w->needs_comma = b -/
def setComma (b : Bool) : Call size := fun w => ({w with needsComma := b},true)

def addDepth (d : Int) : Call size := fun w => ({w with depth := w.depth+d},true)

def jsonWriteObjectStart : Call size :=
  attempt [maybeComma,writeRaw (cstr "\x7b") 1,setComma false,addDepth 1]

def jsonWriteObjectEnd : Call size := attempt [writeRaw (cstr "\x7d") 1,setComma true,addDepth (-1)]

def jsonWriteArrayStart : Call size :=
  attempt [maybeComma,writeRaw (cstr "[") 1,setComma false,addDepth 1]

def jsonWriteArrayEnd : Call size := attempt [writeRaw (cstr "]") 1,setComma true,addDepth (-1)]

def jsonWriteKey (key : List UInt8) : Call size :=
  attempt [maybeComma,writeRaw (cstr "\"") 1,writeRaw key (cut key).length,
    writeRaw (cstr "\":") 2,setComma false]

/-- What stands for a character of a string; nothing for those that are skipped. -/
def escaped (c : UInt8) : Option (List UInt8) :=
  if c=34 then some [92,34]
  else if c=92 then some [92,92]
  else if c=8 then some [92,98]
  else if c=12 then some [92,102]
  else if c=10 then some [92,110]
  else if c=13 then some [92,114]
  else if c=9 then some [92,116]
  else if c < 32 then none
  else some [c]

/-- The loop over the characters up to the NUL. -/
def writeChars : List UInt8 → Call size
  | [] => attempt []
  | c::s =>
    if c=0 then attempt []
    else
      match escaped c with
      | none => writeChars s
      | some e => attempt [writeRaw e e.length,writeChars s]

def jsonWriteString (value : List UInt8) : Call size :=
  attempt [maybeComma,writeRaw (cstr "\"") 1,writeChars value,writeRaw (cstr "\"") 1,setComma true]

/-- snprintf into num[32], and what it put there behind the text. -/
def writeFormatted (format : List UInt8) (args : List VaArg) : Call size := fun w =>
  let num := snprintf (List.replicate 32 0) 32 format args
  if 32 ≤ num.2 then (w,false) else writeRaw num.1 num.2 w

def jsonWriteInt (value : Int32) : Call size :=
  attempt [maybeComma,writeFormatted (cstr "%d") [.word value.toUInt32],setComma true]

/-- On i386 a `long long` is two words on the stack. -/
def jsonWriteInt64 (value : Int64) : Call size :=
  attempt [maybeComma,writeFormatted (cstr "%lld")
    [.word value.toUInt64.toUInt32,.word (value.toUInt64 >>> 32).toUInt32],setComma true]

/-- while (n % 10 == 0 && n > 0) n /= 10; an `int` has ten digits at most. -/
def trimZeros : (turns : Nat) → Int32 → Int32
  | 0,n => n
  | turns+1,n => if n%10=0 ∧ n>0 then trimZeros turns (n/10) else n

/-- fracpart, with the expression evaluated in the format `g`. -/
def fractionPart (g : Format) (value : Binary32) (intpart : Int32) : Int32 :=
  let product := (value.convert g+ -Number.ofInt g intpart.toInt)*Number.ofInt g 1000000
  if castInt product < 0 then -castInt product else castInt product

/-- `g` is the format that the compiler evaluates `float` expressions in (FLT_EVAL_METHOD). -/
def jsonWriteFloat (g : Format) (value : Binary32) : Call size :=
  let intpart := castInt value
  let fracpart := fractionPart g value intpart
  attempt [maybeComma,
    if fracpart=0 then writeFormatted (cstr "%d.0") [.word intpart.toUInt32]
    else writeFormatted (cstr "%d.%d")
      [.word intpart.toUInt32,.word (trimZeros 10 fracpart).toUInt32],
    setComma true]

def jsonWriteBool (value : Bool) : Call size :=
  attempt [maybeComma,
    if value then writeRaw (cstr "true") 4 else writeRaw (cstr "false") 5,
    setComma true]

def jsonWriteNull : Call size := attempt [maybeComma,writeRaw (cstr "null") 4,setComma true]

def jsonWriteKvString (key value : List UInt8) : Call size :=
  attempt [jsonWriteKey key,jsonWriteString value]

def jsonWriteKvInt (key : List UInt8) (value : Int32) : Call size :=
  attempt [jsonWriteKey key,jsonWriteInt value]

def jsonWriteKvInt64 (key : List UInt8) (value : Int64) : Call size :=
  attempt [jsonWriteKey key,jsonWriteInt64 value]

def jsonWriteKvFloat (g : Format) (key : List UInt8) (value : Binary32) : Call size :=
  attempt [jsonWriteKey key,jsonWriteFloat g value]

def jsonWriteKvBool (key : List UInt8) (value : Bool) : Call size :=
  attempt [jsonWriteKey key,jsonWriteBool value]

def jsonWriteKvNull (key : List UInt8) : Call size := attempt [jsonWriteKey key,jsonWriteNull]

def jsonWriteIntArray (arr : List Int32) : Call size :=
  attempt (jsonWriteArrayStart::(arr.map jsonWriteInt++[jsonWriteArrayEnd]))

def jsonWriteFloatArray (g : Format) (arr : List Binary32) : Call size :=
  attempt (jsonWriteArrayStart::(arr.map (jsonWriteFloat g)++[jsonWriteArrayEnd]))

def jsonWriterLength (w : Writer size) : Nat := w.offset

/-- What has been written. -/
def Writer.text (w : Writer size) : List UInt8 := w.buf.bytes.take w.offset

theorem Writer.length_text (w : Writer size) : w.text.length=w.offset := by
  rw [Writer.text,List.length_take,w.buf.size,Nat.min_eq_left w.fits]

/-- From `w`, the call appends `t` if that fits, and leaves `b` in needs_comma. -/
structure Appends (f : Call size) (w : Writer size) (t : List UInt8) (b : Bool) : Prop where
  fits : w.offset+t.length < size → (f w).2=true
  text : (f w).2=true → (f w).1.text=w.text++t
  comma : (f w).2=true → (f w).1.needsComma=b

variable {f : Call size} {fs : List (Call size)} {w : Writer size} {t u : List UInt8} {b c : Bool}

theorem Appends.offset (h : Appends f w t b) (hf : (f w).2=true) :
    (f w).1.offset=w.offset+t.length := by
  rw [← Writer.length_text,h.text hf,List.length_append,Writer.length_text]

theorem Appends.congr {g : Call size} (h : Appends g w t b) (hw : f w=g w) :
    Appends f w t b where
  fits := by
    rw [hw]
    exact h.fits
  text := by
    rw [hw]
    exact h.text
  comma := by
    rw [hw]
    exact h.comma

theorem Appends.of_eq (h : Appends f w t b) (ht : t=u) : Appends f w u b := ht ▸ h

theorem appends_attempt_nil (w : Writer size) : Appends (attempt []) w [] w.needsComma where
  fits _ := rfl
  text _ := (List.append_nil _).symm
  comma _ := rfl

theorem appends_all_nil (w : Writer size) : Appends (all []) w [] w.needsComma where
  fits _ := rfl
  text _ := (List.append_nil _).symm
  comma _ := rfl

theorem Appends.attempt (hf : Appends f w t b)
    (hfs : ∀ w' : Writer size,w'.needsComma=b → Appends (attempt fs) w' u c) :
    Appends (attempt (f::fs)) w (t++u) c := by
  have hnext := hfs (f w).1
  have hstep : (f w).2=true → Json.attempt (f::fs) w=Json.attempt fs (f w).1 := by
    intro h
    rw [Json.attempt,if_pos h]
  have hstop : (Json.attempt (f::fs) w).2=true → (f w).2=true := by
    intro h
    by_contra hn
    rw [Json.attempt,if_neg hn] at h
    cases h
  refine ⟨?_,?_,?_⟩
  · intro h
    rw [List.length_append] at h
    have h1 := hf.fits (by omega)
    have ho := hf.offset h1
    rw [hstep h1]
    apply (hnext (hf.comma h1)).fits
    omega
  · intro h
    have h1 := hstop h
    rw [hstep h1] at h ⊢
    rw [(hnext (hf.comma h1)).text h,hf.text h1,List.append_assoc]
  · intro h
    have h1 := hstop h
    rw [hstep h1] at h ⊢
    exact (hnext (hf.comma h1)).comma h

theorem Appends.all (hf : Appends f w t b)
    (hfs : ∀ w' : Writer size,w'.needsComma=b → Appends (all fs) w' u c) :
    Appends (all (f::fs)) w (t++u) c := by
  have hnext := hfs (f w).1
  refine ⟨?_,?_,?_⟩
  · intro h
    rw [List.length_append] at h
    have h1 := hf.fits (by omega)
    have ho := hf.offset h1
    have h2 := (hnext (hf.comma h1)).fits (by omega)
    rw [Json.all,h1,h2]
    rfl
  · intro h
    rw [Json.all,Bool.and_eq_true] at h
    rw [Json.all,(hnext (hf.comma h.1)).text h.2,hf.text h.1,List.append_assoc]
  · intro h
    rw [Json.all,Bool.and_eq_true] at h
    exact (hnext (hf.comma h.1)).comma h.2

theorem appends_raw {str : List UInt8} {len : Nat} (ht : (cut str).take len=t)
    (hl : t.length=len) (w : Writer size) : Appends (writeRaw str len) w t w.needsComma := by
  have hlen : len ≤ (cut str).length := by
    rw [← ht,List.length_take] at hl
    omega
  have hcopy : (copied str len).bytes=t := by
    change (cut str).take len++List.replicate (len-(cut str).length) 0=t
    rw [Nat.sub_eq_zero_of_le hlen,List.replicate_zero,List.append_nil]
    exact ht
  by_cases h : size ≤ w.offset+len
  · have hfail : writeRaw str len w=(w,false) := by rw [writeRaw,dif_pos h]
    rw [← hl] at h
    refine ⟨?_,?_,?_⟩
    · intro hlt
      omega
    · intro hf
      rw [hfail] at hf
      cases hf
    · intro hf
      rw [hfail] at hf
      cases hf
  · refine ⟨?_,?_,?_⟩
    · intro _
      rw [writeRaw,dif_neg h]
    · intro _
      have htake := w.buf.take_write w.offset (copied str len).bytes (copied_room h)
      have hsize : w.offset+(copied str len).bytes.length=w.offset+len := by
        rw [(copied str len).size]
      rw [hsize] at htake
      rw [writeRaw,dif_neg h]
      change ((w.buf.write _ _ (copied_room h)).write (w.offset+len) [0]
        (copied_nul_room h)).bytes.take
        (w.offset+len)=w.text++t
      rw [Buffer.take_write_before _ _ _ le_rfl,htake,hcopy]
      rfl
    · intro _
      rw [writeRaw,dif_neg h]

/-- A string is put out as it stands. -/
theorem appends_string {s : List UInt8} (h : 0∉s) (w : Writer size) :
    Appends (writeRaw s s.length) w s w.needsComma := by
  apply appends_raw _ rfl
  rw [cut_of_not_mem h,List.take_length]

theorem appends_setComma (w : Writer size) (b : Bool) : Appends (setComma b) w [] b where
  fits _ := rfl
  text _ := (List.append_nil _).symm
  comma _ := rfl

theorem appends_addDepth (w : Writer size) (d : Int) :
    Appends (addDepth d) w [] w.needsComma where
  fits _ := rfl
  text _ := (List.append_nil _).symm
  comma _ := rfl

/-- The comma that is due. -/
def comma (b : Bool) : List UInt8 := if b then [44] else []

theorem appends_maybeComma (w : Writer size) :
    Appends maybeComma w (comma w.needsComma) w.needsComma := by
  cases hc : w.needsComma with
  | true =>
    have hraw := appends_raw (by decide : (cut (cstr ",")).take 1=[44]) rfl w
    have hw : maybeComma w=writeRaw (cstr ",") 1 w := by rw [maybeComma,if_pos hc]
    rw [hc] at hraw
    exact hraw.congr hw
  | false =>
    have hw : maybeComma w=(w,true) := by
      rw [maybeComma,if_neg]
      rw [hc]
      exact Bool.false_ne_true
    have hnil := appends_attempt_nil w
    rw [hc] at hnil
    exact hnil.congr hw

/-- From every writer, the call puts out the text of a value, behind the comma that is due. -/
def Writes (f : Call size) (t : List UInt8) : Prop :=
  ∀ w : Writer size,Appends f w (comma w.needsComma++t) true

theorem writes_scalar (h : ∀ w : Writer size,Appends f w t w.needsComma) :
    Writes (attempt [maybeComma,f,setComma true]) t := by
  intro w
  have hall := (appends_maybeComma w).attempt fun w₁ _ => (h w₁).attempt fun w₂ _ =>
    (appends_setComma w₂ true).attempt fun w₃ hw₃ => hw₃ ▸ appends_attempt_nil w₃
  apply hall.of_eq
  simp

theorem writes_null : Writes (jsonWriteNull : Call size) Rfc8259.nullText :=
  writes_scalar (appends_raw (by decide) rfl)

theorem writes_bool (v : Bool) : Writes (jsonWriteBool v : Call size) (Rfc8259.boolText v) := by
  cases v with
  | true => exact writes_scalar (appends_raw (by decide) rfl)
  | false => exact writes_scalar (appends_raw (by decide) rfl)

/-- A rendering without a NUL that is shorter than num[32]. -/
theorem appends_formatted {format s : List UInt8} {args : List VaArg}
    (hf : formatLoop format args ⟨List.replicate 32 0,32,0⟩=
      appendStr ⟨List.replicate 32 0,32,0⟩ s)
    (hs : s.length < 32) (h0 : 0∉s) (w : Writer size) :
    Appends (writeFormatted format args) w s w.needsComma := by
  obtain ⟨hlen,hnum⟩ := vsnprintf_fits hf hs (by simp) (by decide)
  have hcut : (cut (s++0::(List.replicate 32 0).drop (s.length+1))).take s.length=s := by
    rw [cut_terminated h0,List.take_length]
  have hw : writeFormatted format args w=
      writeRaw (s++0::(List.replicate 32 0).drop (s.length+1)) s.length w := by
    rw [writeFormatted]
    simp only [snprintf,hlen,hnum,if_neg (Nat.not_le_of_lt hs)]
  exact (appends_raw hcut rfl w).congr hw

theorem writes_int (i : Int32) : Writes (jsonWriteInt i : Call size) (intText i) := by
  apply writes_scalar
  have hlen := intText_length i
  have hfmt := formatLoop_d [] i [] ⟨List.replicate 32 0,32,0⟩
  rw [List.append_nil] at hfmt
  exact appends_formatted hfmt (by omega) (zero_not_mem_intText i)

/-- What json_write_string puts between the quotes. -/
def escapedText (s : List UInt8) : List UInt8 := s.flatMap fun c => (escaped c).getD []

theorem zero_not_mem_escaped {c : UInt8} (hc : c≠0) {e : List UInt8} (h : escaped c=some e) :
    0∉e := by
  unfold escaped at h
  split_ifs at h <;> (injection h with h; subst h; simp [hc.symm])

theorem appends_chars {s : List UInt8} (h : 0∉s) (w : Writer size) :
    Appends (writeChars s) w (escapedText s) w.needsComma := by
  induction s generalizing w with
  | nil => exact appends_attempt_nil w
  | cons c s ih =>
    rw [List.mem_cons,not_or] at h
    have hc : c≠0 := Ne.symm h.1
    cases he : escaped c with
    | none =>
      have hw : writeChars (c::s) w=writeChars s w := by
        rw [writeChars,if_neg hc,he]
      apply ((ih h.2 w).congr hw).of_eq
      simp [escapedText,he]
    | some e =>
      have hw : writeChars (c::s) w=attempt [writeRaw e e.length,writeChars s] w := by
        rw [writeChars,if_neg hc,he]
      have hraw := appends_string (zero_not_mem_escaped hc he) w
      have hall := hraw.attempt fun w₁ hw₁ => (ih h.2 w₁).attempt fun w₂ hw₂ =>
        hw₁ ▸ hw₂ ▸ appends_attempt_nil w₂
      apply (hall.congr hw).of_eq
      simp [escapedText,he]

/-- The text of a string. -/
def stringText (s : List UInt8) : List UInt8 := 34::(escapedText s++[34])

theorem writes_string {s : List UInt8} (h : 0∉s) :
    Writes (jsonWriteString s : Call size) (stringText s) := by
  intro w
  have hquote : ∀ w : Writer size,Appends (writeRaw (cstr "\"") 1) w [34] w.needsComma :=
    appends_raw (by decide) rfl
  have hall := (appends_maybeComma w).attempt fun w₁ _ => (hquote w₁).attempt fun w₂ _ =>
    (appends_chars h w₂).attempt fun w₃ _ => (hquote w₃).attempt fun w₄ _ =>
    (appends_setComma w₄ true).attempt fun w₅ hw₅ => hw₅ ▸ appends_attempt_nil w₅
  apply hall.of_eq
  simp [stringText]

/-- The opening of an object or an array. -/
theorem appends_start {s : List UInt8} {c : UInt8} (hc : (cut s).take 1=[c]) (w : Writer size) :
    Appends (attempt [maybeComma,writeRaw s 1,setComma false,addDepth 1]) w
      (comma w.needsComma++[c]) false := by
  have hall := (appends_maybeComma w).attempt fun w₁ _ =>
    (appends_raw hc rfl w₁).attempt fun w₂ _ => (appends_setComma w₂ false).attempt fun w₃ hw₃ =>
    (appends_addDepth w₃ 1).attempt fun w₄ hw₄ => hw₃ ▸ hw₄ ▸ appends_attempt_nil w₄
  apply hall.of_eq
  simp

/-- The end of an object or an array. -/
theorem appends_end {s : List UInt8} {c : UInt8} (hc : (cut s).take 1=[c]) (w : Writer size) :
    Appends (attempt [writeRaw s 1,setComma true,addDepth (-1)]) w [c] true := by
  have hall := (appends_raw hc rfl w).attempt fun w₁ _ =>
    (appends_setComma w₁ true).attempt fun w₂ hw₂ =>
    (appends_addDepth w₂ (-1)).attempt fun w₃ hw₃ => hw₂ ▸ hw₃ ▸ appends_attempt_nil w₃
  apply hall.of_eq
  simp

theorem appends_key (key : List UInt8) (w : Writer size) :
    Appends (jsonWriteKey key) w (comma w.needsComma++34::(cut key++[34,58])) false := by
  have hquote : ∀ w : Writer size,Appends (writeRaw (cstr "\"") 1) w [34] w.needsComma :=
    appends_raw (by decide) rfl
  have hcolon : ∀ w : Writer size,Appends (writeRaw (cstr "\":") 2) w [34,58] w.needsComma :=
    appends_raw (by decide) rfl
  have hkey : ∀ w : Writer size,
      Appends (writeRaw key (cut key).length) w (cut key) w.needsComma :=
    appends_raw List.take_length rfl
  have hall := (appends_maybeComma w).attempt fun w₁ _ => (hquote w₁).attempt fun w₂ _ =>
    (hkey w₂).attempt fun w₃ _ => (hcolon w₃).attempt fun w₄ _ =>
    (appends_setComma w₄ false).attempt fun w₅ hw₅ => hw₅ ▸ appends_attempt_nil w₅
  apply hall.of_eq
  simp

end Cllm.Json
