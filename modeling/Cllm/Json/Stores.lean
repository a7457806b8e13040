import Cllm.Framework.ByteMemory
import Cllm.Json.Growth
import Cllm.Json.Rendering

namespace Cllm.Json

open Libc Ieee754 ByteMemory

variable {size : Nat}

/-- The body of a json_write function: its write_raw calls and its changes of the writer, up to
the first write_raw that fails. -/
inductive Steps where
  | done
  | failed
  | raw (str : List UInt8) (len : Nat)
  | setComma (b : Bool)
  | addDepth (d : Int)
  | whenComma (p : Steps)
  | andThen (p q : Steps)

namespace Steps

/-- if (f != 0) return -1, for each in turn. -/
def seq : List Steps → Steps
  | [] => done
  | p::ps => andThen p (seq ps)

def call : Steps → Call size
  | done,w => (w,true)
  | failed,w => (w,false)
  | raw str len,w => writeRaw str len w
  | setComma b,w => Json.setComma b w
  | addDepth d,w => Json.addDepth d w
  | whenComma p,w => if w.needsComma then p.call w else (w,true)
  | andThen p q,w => if (p.call w).2 then q.call (p.call w).1 else ((p.call w).1,false)

/-- The bytes that are stored, by their place behind the start of the buffer. -/
def stores : Steps → Writer size → List (Nat × UInt8)
  | done,_ | failed,_ | setComma _,_ | addDepth _,_ => []
  | raw str len,w =>
    if size ≤ w.offset+len then []
    else byteStores w.offset (copied str len).bytes++[(w.offset+len,0)]
  | whenComma p,w => if w.needsComma then p.stores w else []
  | andThen p q,w =>
    if (p.call w).2 then p.stores w++q.stores (p.call w).1 else p.stores w

/-- No write_raw is asked for more bytes than its string has. -/
inductive Clean : Steps → Prop where
  | done : Clean done
  | failed : Clean failed
  | raw {str : List UInt8} {len : Nat} (h : len ≤ (cut str).length) : Clean (raw str len)
  | setComma (b : Bool) : Clean (setComma b)
  | addDepth (d : Int) : Clean (addDepth d)
  | whenComma {p : Steps} (h : Clean p) : Clean (whenComma p)
  | andThen {p q : Steps} (hp : Clean p) (hq : Clean q) : Clean (andThen p q)

theorem seq_call (ps : List Steps) :
    (seq ps).call=(attempt (ps.map call) : Call size) := by
  funext w
  induction ps generalizing w with
  | nil => rfl
  | cons p ps ih =>
    change (if (p.call w).2 then (seq ps).call (p.call w).1 else ((p.call w).1,false))=_
    rw [ih]
    rfl

theorem clean_seq {ps : List Steps} (h : ∀ p∈ps,p.Clean) : (seq ps).Clean := by
  induction ps with
  | nil => exact .done
  | cons p ps ih =>
    rw [List.forall_mem_cons] at h
    exact .andThen h.1 (ih h.2)

end Steps

/-- The memory at `buf` has the bytes of the array. -/
def Holds (m : Memory) (buf : Buffer size) : Prop := ∀ i < size,buf.bytes[i]?=some (m i)

/-- A NUL stands behind the text, and none in it. -/
structure Writer.Sound (w : Writer size) : Prop where
  nul : w.Ended
  text : 0∉w.text

theorem Writer.Sound.lt {w : Writer size} (h : w.Sound) : w.offset < size := by
  have hlt := (List.getElem?_eq_some_iff.mp h.nul).1
  rwa [w.buf.size] at hlt

/-- The step from `w` to `v`, which makes the stores `ks`. -/
structure Kept (w v : Writer size) (ks : List (Nat × UInt8)) : Prop where
  text : w.text <+: v.text
  sound : w.Sound → v.Sound
  bounds : ∀ k∈ks,k.1 < size
  holds : ∀ m,Holds m w.buf → Holds (storeBytes m ks) v.buf

theorem Kept.refl (w : Writer size) : Kept w w [] :=
  ⟨List.prefix_rfl,id,by simp,fun _ h => h⟩

theorem Kept.trans {u v w : Writer size} {ks ls : List (Nat × UInt8)} (huv : Kept u v ks)
    (hvw : Kept v w ls) : Kept u w (ks++ls) where
  text := huv.text.trans hvw.text
  sound h := hvw.sound (huv.sound h)
  bounds := by
    rw [List.forall_mem_append]
    exact ⟨huv.bounds,hvw.bounds⟩
  holds m h := by
    rw [storeBytes_append]
    exact hvw.holds _ (huv.holds m h)

theorem holds_write {m : Memory} {buf : Buffer size} (hm : Holds m buf) (off : Nat)
    (src : List UInt8) (h : off+src.length ≤ size) :
    Holds (storeBytes m (byteStores off src)) (buf.write off src h) := by
  intro i hi
  rw [Buffer.getElem?_write]
  by_cases hinside : off ≤ i ∧ i < off+src.length
  · have hstored := @storeBytes_byteStores m src off (i-off) (by omega)
    rw [Nat.add_sub_cancel' hinside.1] at hstored
    rw [if_pos hinside,hstored]
  · have hother : ∀ k∈byteStores off src,k.1≠i := by
      intro k hk
      have hbounds := byteStores_bounds k hk
      omega
    rw [if_neg hinside,storeBytes_of_ne hother]
    exact hm i hi

theorem kept_raw {str : List UInt8} {len : Nat} (hlen : len ≤ (cut str).length)
    (w : Writer size) : Kept w (writeRaw str len w).1 ((Steps.raw str len).stores w) := by
  have hgrows := grows_raw str len w
  rw [Steps.stores]
  by_cases h : size ≤ w.offset+len
  · have hfail : writeRaw str len w=(w,false) := by rw [writeRaw,dif_pos h]
    rw [hfail,if_pos h]
    exact .refl w
  · have hok : (writeRaw str len w).2=true := by rw [writeRaw,dif_neg h]
    have htext := (appends_raw rfl (List.length_take_of_le hlen) w).text hok
    have hbuf : (writeRaw str len w).1.buf=
        (w.buf.write w.offset (copied str len).bytes (copied_room h)).write (w.offset+len) [0]
          (copied_nul_room h) := by rw [writeRaw,dif_neg h]
    rw [if_neg h]
    refine ⟨hgrows.text,?_,?_,?_⟩
    · intro hw
      refine ⟨hgrows.ended hw.nul,?_⟩
      rw [htext,List.mem_append,not_or]
      exact ⟨hw.text,fun h0 => zero_not_mem_cut str (List.mem_of_mem_take h0)⟩
    · rw [List.forall_mem_append,List.forall_mem_singleton]
      refine ⟨?_,by omega⟩
      intro k hk
      have hbounds := byteStores_bounds k hk
      rw [(copied str len).size] at hbounds
      omega
    · intro m hm
      have hcopy := holds_write hm w.offset (copied str len).bytes (copied_room h)
      rw [hbuf,storeBytes_append]
      exact holds_write hcopy (w.offset+len) [0] (copied_nul_room h)

theorem Steps.Clean.kept {p : Steps} (hp : p.Clean) (w : Writer size) :
    Kept w (p.call w).1 (p.stores w) := by
  induction hp generalizing w with
  | done => exact .refl w
  | failed => exact .refl w
  | raw h => exact kept_raw h w
  | setComma b => exact ⟨List.prefix_rfl,fun h => ⟨h.nul,h.text⟩,by simp [stores],fun _ h => h⟩
  | addDepth d => exact ⟨List.prefix_rfl,fun h => ⟨h.nul,h.text⟩,by simp [stores],fun _ h => h⟩
  | whenComma h ih =>
    rw [call,stores]
    by_cases hc : w.needsComma=true
    · rw [if_pos hc,if_pos hc]
      exact ih w
    · rw [if_neg hc,if_neg hc]
      exact .refl w
  | @andThen p q hp hq ihp ihq =>
    rw [call,stores]
    by_cases hok : (p.call w).2=true
    · rw [if_pos hok,if_pos hok]
      exact (ihp w).trans (ihq _)
    · rw [if_neg hok,if_neg hok]
      exact ihp w

namespace Steps

def comma : Steps := whenComma (raw (cstr ",") 1)

/-- snprintf into num[32] and what it put there. -/
def printed (format : List UInt8) (args : List VaArg) : Steps :=
  let num := snprintf (List.replicate 32 0) 32 format args
  if 32 ≤ num.2 then failed else raw num.1 num.2

def chars : List UInt8 → Steps
  | [] => seq []
  | c::s =>
    if c=0 then seq []
    else
      match escaped c with
      | none => chars s
      | some e => seq [raw e e.length,chars s]

def key (k : List UInt8) : Steps :=
  seq [comma,raw (cstr "\"") 1,raw k (cut k).length,raw (cstr "\":") 2,setComma false]

def string (s : List UInt8) : Steps :=
  seq [comma,raw (cstr "\"") 1,chars s,raw (cstr "\"") 1,setComma true]

/-- A value of one piece. -/
def scalar (p : Steps) : Steps := seq [comma,p,setComma true]

def int (i : Int32) : Steps := scalar (printed (cstr "%d") [.word i.toUInt32])

def int64 (i : Int64) : Steps :=
  scalar (printed (cstr "%lld") [.word i.toUInt64.toUInt32,.word (i.toUInt64 >>> 32).toUInt32])

def float (g : Format) (v : Binary32) : Steps :=
  scalar (if fractionPart g v (castInt v)=0
    then printed (cstr "%d.0") [.word (castInt v).toUInt32]
    else printed (cstr "%d.%d") [.word (castInt v).toUInt32,
      .word (trimZeros 10 (fractionPart g v (castInt v))).toUInt32])

def bool (b : Bool) : Steps := scalar (if b then raw (cstr "true") 4 else raw (cstr "false") 5)

def null : Steps := scalar (raw (cstr "null") 4)

def objectStart : Steps := seq [comma,raw (cstr "\x7b") 1,setComma false,addDepth 1]

def objectEnd : Steps := seq [raw (cstr "\x7d") 1,setComma true,addDepth (-1)]

def arrayStart : Steps := seq [comma,raw (cstr "[") 1,setComma false,addDepth 1]

def arrayEnd : Steps := seq [raw (cstr "]") 1,setComma true,addDepth (-1)]

end Steps

/-- A call of a json_write function. -/
inductive WriterCall where
  | objectStart | objectEnd | arrayStart | arrayEnd | null
  | key (k : List UInt8)
  | string (s : List UInt8)
  | int (i : Int32)
  | int64 (i : Int64)
  | float (v : Binary32)
  | bool (b : Bool)
  | kvString (k s : List UInt8)
  | kvInt (k : List UInt8) (i : Int32)
  | kvInt64 (k : List UInt8) (i : Int64)
  | kvFloat (k : List UInt8) (v : Binary32)
  | kvBool (k : List UInt8) (b : Bool)
  | kvNull (k : List UInt8)
  | intArray (arr : List Int32)
  | floatArray (arr : List Binary32)

namespace WriterCall

/-- The function, with the format that `float` expressions are evaluated in. -/
def run (g : Format) : WriterCall → Call size
  | objectStart => jsonWriteObjectStart
  | objectEnd => jsonWriteObjectEnd
  | arrayStart => jsonWriteArrayStart
  | arrayEnd => jsonWriteArrayEnd
  | null => jsonWriteNull
  | key k => jsonWriteKey k
  | string s => jsonWriteString s
  | int i => jsonWriteInt i
  | int64 i => jsonWriteInt64 i
  | float v => jsonWriteFloat g v
  | bool b => jsonWriteBool b
  | kvString k s => jsonWriteKvString k s
  | kvInt k i => jsonWriteKvInt k i
  | kvInt64 k i => jsonWriteKvInt64 k i
  | kvFloat k v => jsonWriteKvFloat g k v
  | kvBool k b => jsonWriteKvBool k b
  | kvNull k => jsonWriteKvNull k
  | intArray arr => jsonWriteIntArray arr
  | floatArray arr => jsonWriteFloatArray g arr

def steps (g : Format) : WriterCall → Steps
  | objectStart => .objectStart
  | objectEnd => .objectEnd
  | arrayStart => .arrayStart
  | arrayEnd => .arrayEnd
  | null => .null
  | key k => .key k
  | string s => .string s
  | int i => .int i
  | int64 i => .int64 i
  | float v => .float g v
  | bool b => .bool b
  | kvString k s => .seq [.key k,.string s]
  | kvInt k i => .seq [.key k,.int i]
  | kvInt64 k i => .seq [.key k,.int64 i]
  | kvFloat k v => .seq [.key k,.float g v]
  | kvBool k b => .seq [.key k,.bool b]
  | kvNull k => .seq [.key k,.null]
  | intArray arr => .seq (.arrayStart::(arr.map .int++[.arrayEnd]))
  | floatArray arr => .seq (.arrayStart::(arr.map (.float g)++[.arrayEnd]))

end WriterCall

namespace Steps

theorem printed_call (format : List UInt8) (args : List VaArg) :
    (printed format args).call=(writeFormatted format args : Call size) := by
  funext w
  simp only [printed,writeFormatted]
  split
  · rfl
  · rfl

theorem chars_call (s : List UInt8) : (chars s).call=(writeChars s : Call size) := by
  induction s with
  | nil => exact seq_call []
  | cons c s ih =>
    rw [chars,writeChars]
    by_cases hc : c=0
    · rw [if_pos hc,if_pos hc]
      exact seq_call []
    · rw [if_neg hc,if_neg hc]
      cases escaped c with
      | none => exact ih
      | some e =>
        change (seq [raw e e.length,chars s]).call=_
        rw [seq_call,List.map_cons,List.map_cons,ih]
        rfl

theorem key_call (k : List UInt8) : (key k).call=(jsonWriteKey k : Call size) := seq_call _

theorem string_call (s : List UInt8) : (string s).call=(jsonWriteString s : Call size) := by
  rw [string,seq_call,List.map_cons,List.map_cons,List.map_cons,chars_call]
  rfl

/-- A scalar is written as `f` writes it. -/
theorem scalar_call {p : Steps} {f : Call size} (h : p.call=f) :
    (scalar p).call=attempt [maybeComma,f,Json.setComma true] := by
  rw [scalar,seq_call,List.map_cons,List.map_cons,h]
  rfl

theorem int_call (i : Int32) : (int i).call=(jsonWriteInt i : Call size) :=
  scalar_call (printed_call _ _)

theorem int64_call (i : Int64) : (int64 i).call=(jsonWriteInt64 i : Call size) :=
  scalar_call (printed_call _ _)

theorem float_call (g : Format) (v : Binary32) :
    (float g v).call=(jsonWriteFloat g v : Call size) := by
  apply scalar_call
  split
  · exact printed_call _ _
  · exact printed_call _ _

theorem bool_call (b : Bool) : (bool b).call=(jsonWriteBool b : Call size) := by
  apply scalar_call
  cases b
  · rfl
  · rfl

theorem null_call : null.call=(jsonWriteNull : Call size) := scalar_call rfl

theorem kv_call (k : List UInt8) {p : Steps} {f : Call size} (h : p.call=f) :
    (seq [key k,p]).call=attempt [jsonWriteKey k,f] := by
  rw [seq_call,List.map_cons,List.map_cons,key_call,h]
  rfl

/-- An array of values that `p` writes as `f`. -/
theorem array_call {α : Type} {p : α → Steps} {f : α → Call size} (h : ∀ a,(p a).call=f a)
    (arr : List α) : (seq (arrayStart::(arr.map p++[arrayEnd]))).call=
      attempt (jsonWriteArrayStart::(arr.map f++[jsonWriteArrayEnd])) := by
  have hstart : arrayStart.call=(jsonWriteArrayStart : Call size) := seq_call _
  have hend : arrayEnd.call=(jsonWriteArrayEnd : Call size) := seq_call _
  have hvalues : ((fun q : Steps => (q.call : Call size)) ∘ p)=f := funext h
  rw [seq_call,List.map_cons,List.map_append,List.map_map,hstart,List.map_singleton,hend]
  change attempt (_::(arr.map ((fun q : Steps => (q.call : Call size)) ∘ p)++_))=_
  rw [hvalues]

end Steps

theorem WriterCall.steps_call (g : Format) (c : WriterCall) :
    (c.steps g).call=(c.run g : Call size) := by
  cases c with
  | objectStart => exact Steps.seq_call _
  | objectEnd => exact Steps.seq_call _
  | arrayStart => exact Steps.seq_call _
  | arrayEnd => exact Steps.seq_call _
  | null => exact Steps.null_call
  | key k => exact Steps.key_call k
  | string s => exact Steps.string_call s
  | int i => exact Steps.int_call i
  | int64 i => exact Steps.int64_call i
  | float v => exact Steps.float_call g v
  | bool b => exact Steps.bool_call b
  | kvString k s => exact Steps.kv_call k (Steps.string_call s)
  | kvInt k i => exact Steps.kv_call k (Steps.int_call i)
  | kvInt64 k i => exact Steps.kv_call k (Steps.int64_call i)
  | kvFloat k v => exact Steps.kv_call k (Steps.float_call g v)
  | kvBool k b => exact Steps.kv_call k (Steps.bool_call b)
  | kvNull k => exact Steps.kv_call k Steps.null_call
  | intArray arr => exact Steps.array_call Steps.int_call arr
  | floatArray arr => exact Steps.array_call (Steps.float_call g) arr

namespace Steps

theorem clean_string_raw {e : List UInt8} (he : 0∉e) : (raw e e.length).Clean := by
  apply Clean.raw
  rw [cut_of_not_mem he]

theorem clean_printed {format t : List UInt8} {args : List VaArg}
    (hloop : formatLoop format args ⟨List.replicate 32 0,32,0⟩=
      appendStr ⟨List.replicate 32 0,32,0⟩ t) (ht : t.length < 32 ∧ 0∉t) :
    (printed format args).Clean := by
  obtain ⟨hlen,hnum⟩ := vsnprintf_fits hloop ht.1 (by simp) (by decide)
  simp only [printed,snprintf,hlen,hnum,if_neg (Nat.not_le_of_lt ht.1)]
  apply Clean.raw
  rw [cut_terminated ht.2]

theorem clean_comma : comma.Clean := .whenComma (.raw (by decide))

theorem clean_quote : (raw (cstr "\"") 1).Clean := .raw (by decide)

/-- What stands in front of a value and what comes after it. -/
theorem clean_scalar {p : Steps} (h : p.Clean) : (scalar p).Clean := by
  apply clean_seq
  simp only [List.forall_mem_cons]
  exact ⟨clean_comma,h,.setComma true,by simp⟩

theorem clean_chars (s : List UInt8) : (chars s).Clean := by
  induction s with
  | nil => exact .done
  | cons c s ih =>
    rw [chars]
    split
    · exact .done
    · next hc =>
      cases he : escaped c with
      | none => exact ih
      | some e => exact .andThen (clean_string_raw (zero_not_mem_escaped hc he)) (.andThen ih .done)

theorem clean_key (k : List UInt8) : (key k).Clean := by
  apply clean_seq
  simp only [List.forall_mem_cons]
  exact ⟨clean_comma,clean_quote,.raw le_rfl,.raw (by decide),.setComma false,by simp⟩

theorem clean_string (s : List UInt8) : (string s).Clean := by
  apply clean_seq
  simp only [List.forall_mem_cons]
  exact ⟨clean_comma,clean_quote,clean_chars s,clean_quote,.setComma true,by simp⟩

theorem clean_int (i : Int32) : (int i).Clean := by
  have hlen := intText_length i
  have hloop := formatLoop_d [] i [] ⟨List.replicate 32 0,32,0⟩
  rw [List.append_nil] at hloop
  exact clean_scalar (clean_printed hloop ⟨by omega,zero_not_mem_intText i⟩)

theorem clean_int64 (i : Int64) : (int64 i).Clean := by
  have hfits : (cstr "%lld").length < 32 ∧ 0∉cstr "%lld" := by decide
  exact clean_scalar (clean_printed (formatLoop_lld _ _) hfits)

theorem clean_float (g : Format) (v : Binary32) : (float g v).Clean := by
  apply clean_scalar
  split
  · exact clean_printed (formatLoop_whole _) (pairText_fits _ 0)
  · exact clean_printed (formatLoop_pair _ _) (pairText_fits _ _)

theorem clean_bool (b : Bool) : (bool b).Clean := by
  apply clean_scalar
  cases b
  · exact .raw (by decide)
  · exact .raw (by decide)

theorem clean_null : null.Clean := clean_scalar (.raw (by decide))

theorem clean_kv (k : List UInt8) {p : Steps} (h : p.Clean) : (seq [key k,p]).Clean :=
  .andThen (clean_key k) (.andThen h .done)

theorem clean_objectStart : objectStart.Clean :=
  .andThen clean_comma (.andThen (.raw (by decide))
    (.andThen (.setComma false) (.andThen (.addDepth 1) .done)))

theorem clean_arrayStart : arrayStart.Clean :=
  .andThen clean_comma (.andThen (.raw (by decide))
    (.andThen (.setComma false) (.andThen (.addDepth 1) .done)))

theorem clean_objectEnd : objectEnd.Clean :=
  .andThen (.raw (by decide)) (.andThen (.setComma true) (.andThen (.addDepth (-1)) .done))

theorem clean_arrayEnd : arrayEnd.Clean :=
  .andThen (.raw (by decide)) (.andThen (.setComma true) (.andThen (.addDepth (-1)) .done))

theorem clean_array {α : Type} {p : α → Steps} (h : ∀ a,(p a).Clean) (arr : List α) :
    (seq (arrayStart::(arr.map p++[arrayEnd]))).Clean := by
  apply clean_seq
  simp only [List.forall_mem_cons,List.forall_mem_append,List.forall_mem_map]
  exact ⟨clean_arrayStart,fun a _ => h a,clean_arrayEnd,by simp⟩

end Steps

theorem WriterCall.steps_clean (g : Format) (c : WriterCall) : (c.steps g).Clean := by
  cases c with
  | objectStart => exact Steps.clean_objectStart
  | objectEnd => exact Steps.clean_objectEnd
  | arrayStart => exact Steps.clean_arrayStart
  | arrayEnd => exact Steps.clean_arrayEnd
  | null => exact Steps.clean_null
  | key k => exact Steps.clean_key k
  | string s => exact Steps.clean_string s
  | int i => exact Steps.clean_int i
  | int64 i => exact Steps.clean_int64 i
  | float v => exact Steps.clean_float g v
  | bool b => exact Steps.clean_bool b
  | kvString k s => exact Steps.clean_kv k (Steps.clean_string s)
  | kvInt k i => exact Steps.clean_kv k (Steps.clean_int i)
  | kvInt64 k i => exact Steps.clean_kv k (Steps.clean_int64 i)
  | kvFloat k v => exact Steps.clean_kv k (Steps.clean_float g v)
  | kvBool k b => exact Steps.clean_kv k (Steps.clean_bool b)
  | kvNull k => exact Steps.clean_kv k Steps.clean_null
  | intArray arr => exact Steps.clean_array Steps.clean_int arr
  | floatArray arr => exact Steps.clean_array (Steps.clean_float g) arr

/-- The writer after json_writer_init and the calls, whatever they return. -/
def written (g : Format) (buf : Buffer size) (cs : List WriterCall) : Writer size :=
  (all (cs.map (WriterCall.run g)) (jsonWriterInit buf)).1

def storesFrom (g : Format) : Writer size → List WriterCall → List (Nat × UInt8)
  | _,[] => []
  | w,c::cs => (c.steps g).stores w++storesFrom g (c.run g w).1 cs

/-- All stores of json_writer_init and of the calls. -/
def writtenStores (g : Format) (buf : Buffer size) (cs : List WriterCall) : List (Nat × UInt8) :=
  (if 0 < size then [(0,0)] else [])++storesFrom g (jsonWriterInit buf) cs

theorem init_sound (hsize : 1 ≤ size) (buf : Buffer size) : (jsonWriterInit buf).Sound := by
  have hpos : 0 < size := hsize
  refine ⟨ended_init hpos buf,?_⟩
  change 0∉(jsonWriterInit buf).buf.bytes.take 0
  simp

theorem init_holds {m : Memory} {buf : Buffer size} (hm : Holds m buf) :
    Holds (storeBytes m (if 0 < size then [(0,0)] else [])) (jsonWriterInit buf).buf := by
  unfold jsonWriterInit
  by_cases hpos : 0 < size
  · simp only [dif_pos hpos,if_pos hpos]
    exact holds_write hm 0 [0] (nul_room hpos)
  · simp only [dif_neg hpos,if_neg hpos]
    exact hm

theorem kept_call (g : Format) (c : WriterCall) (w : Writer size) :
    Kept w (c.run g w).1 ((c.steps g).stores w) := by
  have hkept := (c.steps_clean g).kept w
  rwa [c.steps_call g] at hkept

theorem kept_calls (g : Format) (cs : List WriterCall) (w : Writer size) :
    Kept w (all (cs.map (WriterCall.run g)) w).1 (storesFrom g w cs) := by
  induction cs generalizing w with
  | nil => exact .refl w
  | cons c cs ih => exact (kept_call g c w).trans (ih _)

/-- After every number of calls the text ends at a NUL, the first of the buffer, every store was
inside it, and the next call keeps the text; the calls may fail. -/
theorem written_sound (g : Format) (hsize : 1 ≤ size) {m : Memory} {buf : Buffer size}
    (hm : Holds m buf) (cs : List WriterCall) :
    let w := written g buf cs
    let m' := storeBytes m (writtenStores g buf cs)
    w.offset < size ∧ m' w.offset=0 ∧ (∀ i < w.offset,m' i≠0) ∧
      (∀ k∈writtenStores g buf cs,k.1 < size) ∧ strlen w.buf.bytes=some (jsonWriterLength w) ∧
      ∀ c : WriterCall,w.text <+: (c.run g w).1.text ∧
        ∀ i < w.offset,storeBytes m' ((c.steps g).stores w) i=m' i := by
  intro w m'
  have hkept := kept_calls g cs (jsonWriterInit buf)
  have hsound : w.Sound := hkept.sound (init_sound hsize buf)
  have hholds : Holds m' w.buf := by
    change Holds (storeBytes m (_++_)) w.buf
    rw [storeBytes_append]
    exact hkept.holds _ (init_holds hm)
  refine ⟨hsound.lt,?_,?_,?_,?_,?_⟩
  · have hnul := hholds w.offset hsound.lt
    rw [hsound.nul] at hnul
    exact (Option.some.inj hnul).symm
  · intro i hi hzero
    have hget := hholds i (hi.trans hsound.lt)
    rw [hzero] at hget
    have htext : w.text[i]?=some 0 := by
      rw [Writer.text,List.getElem?_take_of_lt hi,hget]
    exact hsound.text (List.mem_of_getElem? htext)
  · change ∀ k∈(if 0 < size then [(0,0)] else [])++_,k.1 < size
    rw [List.forall_mem_append]
    refine ⟨?_,hkept.bounds⟩
    rw [if_pos (show 0 < size from hsize),List.forall_mem_singleton]
    exact hsize
  · rw [hsound.nul.bytes,strlen_append hsound.text,Writer.length_text]
    rfl
  · intro c
    have hnext := kept_call g c w
    refine ⟨hnext.text,?_⟩
    intro i hi
    obtain ⟨more,hmore⟩ := hnext.text
    have hlt := hi.trans hsound.lt
    have hbefore := hholds i hlt
    have hafter := hnext.holds m' hholds i hlt
    have hsame : (c.run g w).1.buf.bytes[i]?=w.buf.bytes[i]? := by
      have hle := hnext.text.length_le
      rw [Writer.length_text,Writer.length_text] at hle
      have hget := congrArg (fun t => t[i]?) hmore
      rw [List.getElem?_append_left (by rw [Writer.length_text]; exact hi),Writer.text,Writer.text,
        List.getElem?_take_of_lt hi,List.getElem?_take_of_lt (by omega)] at hget
      exact hget.symm
    rw [hsame,hbefore] at hafter
    exact (Option.some.inj hafter).symm

/-- The key does not fit, and the value after it does. -/
theorem written_sound_four :
    let cs : List WriterCall := [.objectStart,.kvString (cstr "ab") (cstr "c"),.int 7]
    let w : Writer 4 := written binary64 (.zero 4) cs
    let m' := storeBytes (fun _ => 0) (writtenStores binary64 (.zero 4) cs)
    w.offset < 4 ∧ m' w.offset=0 ∧ (∀ i < w.offset,m' i≠0) ∧
      (∀ k∈writtenStores binary64 (.zero 4) cs,k.1 < 4) ∧
      strlen w.buf.bytes=some (jsonWriterLength w) ∧
      ∀ c : WriterCall,w.text <+: (c.run binary64 w).1.text ∧
        ∀ i < w.offset,storeBytes m' ((c.steps binary64).stores w) i=m' i := by
  have hm : Holds (fun _ => 0) (Buffer.zero 4) := by
    intro i hi
    exact List.getElem?_replicate_of_lt hi
  exact written_sound binary64 (by decide) hm _

end Cllm.Json
