import Cllm.Json.Writer

namespace Cllm.Json

open Libc Ieee754

variable {size : Nat}

/-- A NUL stands behind what has been written. -/
def Writer.Ended (w : Writer size) : Prop := w.buf.bytes[w.offset]?=some 0

/-- `v` comes after `w`: what was written stays, and so does a NUL behind it. -/
structure Writer.Extends (w v : Writer size) : Prop where
  text : w.text <+: v.text
  ended : w.Ended → v.Ended

theorem Writer.Extends.refl (w : Writer size) : w.Extends w := ⟨List.prefix_rfl,id⟩

theorem Writer.Extends.trans {u v w : Writer size} (huv : u.Extends v) (hvw : v.Extends w) :
    u.Extends w where
  text := huv.text.trans hvw.text
  ended hu := hvw.ended (huv.ended hu)

/-- Whatever the call returns, the writer after it comes after the one before. -/
def Grows (f : Call size) : Prop := ∀ w : Writer size,w.Extends (f w).1

theorem grows_attempt {fs : List (Call size)} (h : ∀ f∈fs,Grows f) : Grows (attempt fs) := by
  intro w
  induction fs generalizing w with
  | nil => exact .refl w
  | cons f fs ih =>
    rw [List.forall_mem_cons] at h
    rw [attempt]
    split
    · exact (h.1 w).trans (ih h.2 (f w).1)
    · exact h.1 w

theorem grows_all {fs : List (Call size)} (h : ∀ f∈fs,Grows f) : Grows (all fs) := by
  intro w
  induction fs generalizing w with
  | nil => exact .refl w
  | cons f fs ih =>
    rw [List.forall_mem_cons] at h
    exact (h.1 w).trans (ih h.2 (f w).1)

theorem grows_raw (str : List UInt8) (len : Nat) : Grows (writeRaw str len : Call size) := by
  intro w
  by_cases h : size ≤ w.offset+len
  · have hfail : writeRaw str len w=(w,false) := by rw [writeRaw,dif_pos h]
    rw [hfail]
    exact .refl w
  · have hstep : (writeRaw str len w).1.buf=
        (w.buf.write w.offset (copied str len).bytes (copied_room h)).write (w.offset+len) [0]
          (copied_nul_room h) := by
      rw [writeRaw,dif_neg h]
    have hoffset : (writeRaw str len w).1.offset=w.offset+len := by rw [writeRaw,dif_neg h]
    constructor
    · have htake := Buffer.take_write w.buf w.offset (copied str len).bytes (copied_room h)
      have hsize : w.offset+(copied str len).bytes.length=w.offset+len := by
        rw [(copied str len).size]
      rw [hsize] at htake
      rw [Writer.text,Writer.text,hstep,hoffset,Buffer.take_write_before _ _ _ le_rfl,htake]
      exact List.prefix_append _ _
    · intro _
      rw [Writer.Ended,hstep,hoffset]
      exact Buffer.getElem_write _ _

theorem grows_setComma (b : Bool) : Grows (setComma b : Call size) :=
  fun _ => ⟨List.prefix_rfl,id⟩

theorem grows_addDepth (d : Int) : Grows (addDepth d : Call size) :=
  fun _ => ⟨List.prefix_rfl,id⟩

theorem grows_maybeComma : Grows (maybeComma : Call size) := by
  intro w
  rw [maybeComma]
  split
  · exact grows_raw _ _ w
  · exact .refl w

theorem grows_formatted (format : List UInt8) (args : List VaArg) :
    Grows (writeFormatted format args : Call size) := by
  intro w
  simp only [writeFormatted]
  split
  · exact .refl w
  · exact grows_raw _ _ w

theorem grows_chars (s : List UInt8) : Grows (writeChars s : Call size) := by
  induction s with
  | nil => exact grows_attempt (by simp)
  | cons c s ih =>
    rw [writeChars]
    split
    · exact grows_attempt (by simp)
    · split
      · exact ih
      · exact grows_attempt (by simp [grows_raw,ih])

theorem all_nil (w : Writer size) : (all [] w).1=w := rfl

theorem all_cons (f : Call size) (fs : List (Call size)) (w : Writer size) :
    (all (f::fs) w).1=(all fs (f w).1).1 := rfl

theorem all_append (fs gs : List (Call size)) (w : Writer size) :
    (all (fs++gs) w).1=(all gs (all fs w).1).1 := by
  induction fs generalizing w with
  | nil => rfl
  | cons f fs ih => exact ih (f w).1

@[simp] theorem grows_objectStart : Grows (jsonWriteObjectStart : Call size) :=
  grows_attempt (by simp [grows_maybeComma,grows_raw,grows_setComma,grows_addDepth])

@[simp] theorem grows_objectEnd : Grows (jsonWriteObjectEnd : Call size) :=
  grows_attempt (by simp [grows_raw,grows_setComma,grows_addDepth])

@[simp] theorem grows_arrayStart : Grows (jsonWriteArrayStart : Call size) :=
  grows_attempt (by simp [grows_maybeComma,grows_raw,grows_setComma,grows_addDepth])

@[simp] theorem grows_arrayEnd : Grows (jsonWriteArrayEnd : Call size) :=
  grows_attempt (by simp [grows_raw,grows_setComma,grows_addDepth])

@[simp] theorem grows_key (key : List UInt8) : Grows (jsonWriteKey key : Call size) :=
  grows_attempt (by simp [grows_maybeComma,grows_raw,grows_setComma])

theorem grows_string (value : List UInt8) : Grows (jsonWriteString value : Call size) :=
  grows_attempt (by simp [grows_maybeComma,grows_raw,grows_chars,grows_setComma])

theorem grows_int (value : Int32) : Grows (jsonWriteInt value : Call size) :=
  grows_attempt (by simp [grows_maybeComma,grows_formatted,grows_setComma])

theorem grows_float (g : Format) (value : Binary32) :
    Grows (jsonWriteFloat g value : Call size) := by
  have hvalue : Grows (if fractionPart g value (castInt value)=0
      then writeFormatted (cstr "%d.0") [.word (castInt value).toUInt32]
      else writeFormatted (cstr "%d.%d") [.word (castInt value).toUInt32,
        .word (trimZeros 10 (fractionPart g value (castInt value))).toUInt32] : Call size) := by
    split
    · exact grows_formatted _ _
    · exact grows_formatted _ _
  exact grows_attempt (by simp [grows_maybeComma,hvalue,grows_setComma])

theorem grows_null : Grows (jsonWriteNull : Call size) :=
  grows_attempt (by simp [grows_maybeComma,grows_raw,grows_setComma])

@[simp] theorem grows_intArray (arr : List Int32) : Grows (jsonWriteIntArray arr : Call size) := by
  apply grows_attempt
  simp only [List.forall_mem_cons,List.forall_mem_append,List.forall_mem_map]
  exact ⟨grows_arrayStart,fun i _ => grows_int i,by simp [grows_arrayEnd]⟩

@[simp] theorem grows_floatArray (g : Format) (arr : List Binary32) :
    Grows (jsonWriteFloatArray g arr : Call size) := by
  apply grows_attempt
  simp only [List.forall_mem_cons,List.forall_mem_append,List.forall_mem_map]
  exact ⟨grows_arrayStart,fun v _ => grows_float g v,by simp [grows_arrayEnd]⟩

theorem grows_kv (key : List UInt8) {f : Call size} (h : Grows f) :
    Grows (attempt [jsonWriteKey key,f]) := grows_attempt (by simp [h])

@[simp] theorem grows_kvString (key value : List UInt8) :
    Grows (jsonWriteKvString key value : Call size) := grows_kv key (grows_string value)

@[simp] theorem grows_kvInt (key : List UInt8) (value : Int32) :
    Grows (jsonWriteKvInt key value : Call size) := grows_kv key (grows_int value)

@[simp] theorem grows_kvNull (key : List UInt8) :
    Grows (jsonWriteKvNull key : Call size) := grows_kv key grows_null

theorem ended_init (h : 0 < size) (buf : Buffer size) : (jsonWriterInit buf).Ended := by
  unfold jsonWriterInit Writer.Ended
  simp only [dif_pos h]
  exact Buffer.getElem_write buf (nul_room h)

/-- The array of a writer: what has been written, a NUL and more. -/
theorem Writer.Ended.bytes {w : Writer size} (h : w.Ended) :
    w.buf.bytes=w.text++0::w.buf.bytes.drop (w.offset+1) := by
  obtain ⟨hlt,hget⟩ := List.getElem?_eq_some_iff.mp h
  conv_lhs => rw [← List.take_append_drop w.offset w.buf.bytes,List.drop_eq_getElem_cons hlt,hget]
  rfl

end Cllm.Json
