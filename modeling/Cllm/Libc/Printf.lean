import Cllm.Libc.Memory

namespace Cllm.Libc

/-- What snprintf writes to: the array behind `str`, its size, and how far the rendering got, in a
32-bit size_t. -/
structure Sink where
  dst : List UInt8
  size : Nat
  off : Nat

def appendChar (k : Sink) (c : UInt8) : Sink :=
  {k with dst := if (k.off+1)%2^32<k.size then k.dst.set k.off c else k.dst,
          off := (k.off+1)%2^32}

def appendStr (k : Sink) (s : List UInt8) : Sink := s.foldl appendChar k

/-- The digits append_uint collects in buf, least significant first, at most `n` of them. -/
def uintDigits (digits : List UInt8) (base : Nat) : Nat → Nat → List UInt8
  | 0,_ => []
  | n+1,v => if v=0 then [] else digits.getD (v%base) 0::uintDigits digits base n (v/base)

/-- The numeral append_uint emits. -/
def uintText (v base : Nat) (isUpper : Bool) : List UInt8 :=
  let digits := if isUpper then cstr "0123456789ABCDEF" else cstr "0123456789abcdef"
  if v=0 then cstr "0" else (uintDigits digits base 32 v).reverse

def appendUint (k : Sink) (v base : Nat) (isUpper : Bool) : Sink :=
  appendStr k (uintText v base isUpper)

/-- A variadic argument on i386: one 32-bit word, or a pointer to a string, or a word with the
string that stands at this address. -/
inductive VaArg where
  | word (v : UInt32)
  | str (s : Option (List UInt8))
  | cell (v : UInt32) (s : List UInt8)

def vaWord : List VaArg → UInt32 × List VaArg
  | .word v::ap => (v,ap)
  | .cell v _::ap => (v,ap)
  | _::ap => (0,ap)
  | [] => (0,[])

def vaStr : List VaArg → List UInt8 × List VaArg
  | .str (some s)::ap => (s,ap)
  | .str none::ap => (cstr "(null)",ap)
  | .cell _ s::ap => (s,ap)
  | _::ap => ([],ap)
  | [] => ([],[])

/-- The format loop of vsnprintf. -/
def formatLoop : List UInt8 → List VaArg → Sink → Sink
  | [],_,k => k
  | c::f,ap,k =>
    if c≠37 then formatLoop f ap (appendChar k c)
    else
      match f with
      | [] => appendChar (appendChar k 37) 0
      | d::g =>
        if d=115 then formatLoop g (vaStr ap).2 (appendStr k (vaStr ap).1)
        else if d=100 ∨ d=105 then
          if 2^31≤(vaWord ap).1.toNat then
            formatLoop g (vaWord ap).2
              (appendUint (appendChar k 45) (-(vaWord ap).1).toNat 10 false)
          else formatLoop g (vaWord ap).2 (appendUint k (vaWord ap).1.toNat 10 false)
        else if d=117 then formatLoop g (vaWord ap).2 (appendUint k (vaWord ap).1.toNat 10 false)
        else if d=120 then formatLoop g (vaWord ap).2 (appendUint k (vaWord ap).1.toNat 16 false)
        else if d=88 then formatLoop g (vaWord ap).2 (appendUint k (vaWord ap).1.toNat 16 true)
        else if d=112 then
          formatLoop g (vaWord ap).2
            (appendUint (appendStr k (cstr "0x")) (vaWord ap).1.toNat 16 false)
        else
          match g with
          | [] =>
            if d=37 then appendChar k 37 else appendChar (appendChar k 37) d
          | u::h =>
            if d=122 ∧ u=117 then
              formatLoop h (vaWord ap).2 (appendUint k (vaWord ap).1.toNat 10 false)
            else if d=37 then formatLoop (u::h) ap (appendChar k 37)
            else formatLoop (u::h) ap (appendChar (appendChar k 37) d)

/-- The array after the call, and the length before its cast to `int`. -/
def vsnprintf (str : List UInt8) (size : Nat) (format : List UInt8) (ap : List VaArg) :
    List UInt8 × Nat :=
  let k := formatLoop format ap ⟨str,size,0⟩
  let term := if k.off<size then k.off else size-1
  (if 0<size then k.dst.set term 0 else k.dst,k.off)

def snprintf (str : List UInt8) (size : Nat) (format : List UInt8) (ap : List VaArg) :
    List UInt8 × Nat :=
  vsnprintf str size format ap

@[simp] theorem appendStr_nil (k : Sink) : appendStr k []=k := rfl

@[simp] theorem appendStr_cons (k : Sink) (c : UInt8) (s : List UInt8) :
    appendStr k (c::s)=appendStr (appendChar k c) s := rfl

theorem appendStr_append (k : Sink) (s t : List UInt8) :
    appendStr k (s++t)=appendStr (appendStr k s) t := List.foldl_append

/-- What fits is written where the rendering stood, and nothing else changes. -/
theorem appendStr_fits (k : Sink) (s : List UInt8) (h : k.off+s.length<k.size)
    (hd : k.size≤k.dst.length) (hs : k.size≤2^32) :
    appendStr k s=⟨k.dst.take k.off++s++k.dst.drop (k.off+s.length),k.size,k.off+s.length⟩ := by
  induction s generalizing k with
  | nil => simp
  | cons c s ih =>
    simp only [List.length_cons] at h
    have hoff : (k.off+1)%2^32=k.off+1 := Nat.mod_eq_of_lt (by omega)
    have hc : k.off+1<k.size := by omega
    have hlt : k.off<k.dst.length := by omega
    have hstep : appendChar k c=⟨k.dst.set k.off c,k.size,k.off+1⟩ := by
      rw [appendChar,hoff,if_pos hc]
    have hnext : k.off+1+s.length<k.size := by omega
    have hset' : k.size≤(k.dst.set k.off c).length := by rwa [List.length_set]
    rw [appendStr_cons,hstep,ih ⟨k.dst.set k.off c,k.size,k.off+1⟩ hnext hset' hs]
    have hset : k.dst.set k.off c=k.dst.take k.off++c::k.dst.drop (k.off+1) := by
      rw [List.set_eq_take_append_cons_drop,if_pos hlt]
    have htake : (k.dst.set k.off c).take (k.off+1)=k.dst.take k.off++[c] := by
      rw [hset,← List.singleton_append,← List.append_assoc]
      exact List.take_left' (by simp [hlt.le])
    have hdrop : (k.dst.set k.off c).drop (k.off+1+s.length)=k.dst.drop (k.off+1+s.length) :=
      List.drop_set_of_lt (by omega)
    have hlen : k.off+(c::s).length=k.off+1+s.length := by simp only [List.length_cons]; omega
    rw [hlen]
    simp only [htake,hdrop,List.append_assoc,List.cons_append,List.nil_append]

theorem formatLoop_ne {c : UInt8} (hc : c≠37) (f : List UInt8) (ap : List VaArg) (k : Sink) :
    formatLoop (c::f) ap k=formatLoop f ap (appendChar k c) := by
  rw [formatLoop.eq_def]
  simp [hc]

/-- A format without conversions is its own rendering. -/
theorem formatLoop_literal (f g : List UInt8) (hf : 37∉f) (ap : List VaArg) (k : Sink) :
    formatLoop (f++g) ap k=formatLoop g ap (appendStr k f) := by
  induction f generalizing k with
  | nil => rfl
  | cons c f ih =>
    simp only [List.mem_cons,not_or] at hf
    rw [List.cons_append,formatLoop_ne (Ne.symm hf.1),ih hf.2,appendStr_cons]

theorem formatLoop_zu (g : List UInt8) (v : UInt32) (ap : List VaArg) (k : Sink) :
    formatLoop (cstr "%zu"++g) (.word v::ap) k=
      formatLoop g ap (appendStr k (uintText v.toNat 10 false)) := by
  have h : cstr "%zu"=[37,122,117] := by decide
  rw [h]
  simp [formatLoop,appendUint,vaWord]

/-- A rendering shorter than the array is found in it, followed by a NUL. -/
theorem vsnprintf_fits {str f s : List UInt8} {size : Nat} {ap : List VaArg}
    (hloop : formatLoop f ap ⟨str,size,0⟩=appendStr ⟨str,size,0⟩ s)
    (hs : s.length<size) (hd : size ≤ str.length) (h32 : size ≤ 2^32) :
    (vsnprintf str size f ap).2=s.length ∧
    (vsnprintf str size f ap).1=s++0::str.drop (s.length+1) := by
  have hk := appendStr_fits ⟨str,size,0⟩ s (by simpa using hs) hd h32
  have hpos : 0<size := by omega
  simp only [List.take_zero,List.nil_append,Nat.zero_add] at hk
  refine ⟨by simp [vsnprintf,hloop,hk],?_⟩
  simp only [vsnprintf,hloop,hk,hs,if_true,hpos]
  rw [List.set_append_right _ _ le_rfl,Nat.sub_self]
  have hdrop : str.drop s.length=(str.drop s.length).head (by simp; omega)::
      str.drop (s.length+1) := by
    rw [← List.tail_drop]
    exact (List.cons_head_tail _).symm
  rw [hdrop,List.set_cons_zero]

end Cllm.Libc
