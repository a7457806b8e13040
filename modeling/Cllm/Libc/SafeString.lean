import Cllm.Libc.Printf

namespace Cllm.Libc

/-- A byte as a `char`, which has a sign. -/
def char (c : UInt8) : Int := c.toInt8.toInt

/-- strncmp of two strings, each with a NUL behind its last byte. -/
def strncmp : List UInt8 → List UInt8 → Nat → Int
  | _,_,0 => 0
  | s,t,n+1 =>
    if s.headD 0≠t.headD 0 then char (s.headD 0)-char (t.headD 0)
    else if s.headD 0=0 then 0
    else strncmp s.tail t.tail n

theorem char_sub_ne {c d : UInt8} (h : c≠d) : char c-char d≠0 := by
  intro hs
  apply h
  have hc : c.toInt8.toInt=d.toInt8.toInt := Int.sub_eq_zero.mp hs
  exact congrArg Int8.toUInt8 (Int8.toInt_inj.mp hc)

/-- With one byte more than the second string has, strncmp compares the strings. -/
theorem strncmp_whole {s t : List UInt8} (ht : 0∉t) :
    strncmp s t (t.length+1)=0 ↔ cut s=t := by
  induction t generalizing s with
  | nil =>
    rw [List.length_nil,strncmp]
    cases s with
    | nil => simp [cut]
    | cons c s =>
      by_cases hc : c=0
      · simp [cut,hc]
      · simp [cut,hc,char_sub_ne hc]
  | cons d t ih =>
    rw [List.mem_cons,not_or] at ht
    rw [List.length_cons,strncmp,List.headD_cons,List.tail_cons]
    cases s with
    | nil =>
      have hd : (0 : UInt8)≠d := ht.1
      simp [cut,hd,char_sub_ne hd]
    | cons c s =>
      rw [List.headD_cons,List.tail_cons]
      by_cases hc : c=d
      · subst hc
        have hcut : cut (c::s)=c::cut s := by simp [cut,Ne.symm ht.1]
        simp [Ne.symm ht.1,ih ht.2,hcut]
      · have hcut : cut (c::s)≠d::t := by
          intro h
          by_cases h0 : c=0
          · simp [cut,h0] at h
          · simp [cut,h0,hc] at h
        simp [hc,char_sub_ne hc,hcut]

variable {n : Nat}

/-- The string that safe_strcpy leaves in an array of `n` bytes. -/
def copiedText (n : Nat) (src : List UInt8) : List UInt8 := (cut src).take (n-1)

theorem copiedText_room (h : 0 < n) (src : List UInt8) :
    0+(copiedText n src++[0]).length ≤ n := by
  rw [copiedText,List.length_append,List.length_take,List.length_singleton]
  omega

/-- safe_strcpy into an array that has bytes. -/
def safeStrcpy (dst : Buffer n) (h : 0 < n) (src : List UInt8) : Buffer n :=
  dst.write 0 (copiedText n src++[0]) (copiedText_room h src)

theorem safeStrcat_fits (dst : CField n) (src : List UInt8) :
    (cut dst.bytes++(cut src).take (n-(cut dst.bytes).length-1)).length < n := by
  have hcut : (cut dst.bytes).length ≤ dst.bytes.length :=
    (List.takeWhile_prefix _).length_le
  have hfits := dst.fits
  rw [List.length_append,List.length_take]
  omega

def safeStrcat (dst : CField n) (src : List UInt8) : CField n :=
  ⟨cut dst.bytes++(cut src).take (n-(cut dst.bytes).length-1),safeStrcat_fits dst src⟩

theorem safeStrcpy_bytes (dst : Buffer n) (h : 0 < n) (src : List UInt8) :
    ∃ rest,(safeStrcpy dst h src).bytes=copiedText n src++0::rest := by
  refine ⟨dst.bytes.drop ((copiedText n src).length+1),?_⟩
  rw [safeStrcpy,Buffer.write]
  simp

@[simp] theorem length_appendChar (k : Sink) (c : UInt8) :
    (appendChar k c).dst.length=k.dst.length := by
  rw [appendChar]
  split
  · exact List.length_set
  · rfl

@[simp] theorem length_appendStr (k : Sink) (s : List UInt8) :
    (appendStr k s).dst.length=k.dst.length := by
  induction s generalizing k with
  | nil => rfl
  | cons c s ih => rw [appendStr_cons,ih,length_appendChar]

@[simp] theorem length_appendUint (k : Sink) (v base : Nat) (isUpper : Bool) :
    (appendUint k v base isUpper).dst.length=k.dst.length := length_appendStr k _

theorem length_formatLoop (format : List UInt8) (ap : List VaArg) (k : Sink) :
    (formatLoop format ap k).dst.length=k.dst.length := by
  fun_induction formatLoop format ap k <;> simp_all

theorem length_snprintf (str : List UInt8) (size : Nat) (format : List UInt8) (ap : List VaArg) :
    (snprintf str size format ap).1.length=str.length := by
  have hloop := length_formatLoop format ap ⟨str,size,0⟩
  rw [snprintf,vsnprintf]
  split
  · rw [List.length_set,hloop]
  · exact hloop

/-- snprintf(buffer, sizeof(buffer), ...): the array after it and the length. -/
def Buffer.snprintf (b : Buffer n) (format : List UInt8) (ap : List VaArg) : Buffer n × Nat :=
  (⟨(Libc.snprintf b.bytes n format ap).1,(length_snprintf b.bytes n format ap).trans b.size⟩,
    (Libc.snprintf b.bytes n format ap).2)

end Cllm.Libc
