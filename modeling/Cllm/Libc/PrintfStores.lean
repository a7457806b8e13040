import Cllm.Framework.ByteMemory
import Cllm.Libc.Format

namespace Cllm.Libc

open ByteMemory

/-- A `char` array of `n` bytes, somewhere in an address space of 32 bits. -/
structure CharArray (n : Nat) where
  base : Nat
  base_pos : 0 < base
  size_pos : 0 < n
  fits : base+n ≤ 2^32

/-- The store of append_char, at an address and an offset of 32 bits. -/
def charStores (str size off : Nat) (c : UInt8) : List (Nat × UInt8) :=
  if (off+1)%2^32 < size then [((str+off)%2^32,c)] else []

/-- append_char for one character after the other. -/
def textStores (str size : Nat) : (off : Nat) → (text : List UInt8) → List (Nat × UInt8)
  | _,[] => []
  | off,c::text => charStores str size off c++textStores str size ((off+1)%2^32) text

/-- The stores of the call, and its offset at the end. -/
def vsnprintfStores (str size : Nat) (format : List UInt8) (ap : List VaArg) :
    List (Nat × UInt8) × Nat :=
  let text := (formatted format ap).1
  let off := text.length%2^32
  let term := if off < size then off else size-1
  (textStores str size 0 text++(if 0 < size then [((str+term)%2^32,0)] else []),off)

section Refinement

variable {m : Memory} {str : Nat} {dst : List UInt8}

/-- A store through an index, whether or not it is one of the array. -/
theorem at_set (hm : At m str dst) (hstr : str+dst.length ≤ 2^32) {i : Nat} (hi : i < 2^32)
    (c : UInt8) : At (Function.update m ((str+i)%2^32) c) str (dst.set i c) := by
  intro j hj
  rw [List.length_set] at hj
  by_cases hij : i=j
  · subst hij
    have hmod : (str+i)%2^32=str+i := Nat.mod_eq_of_lt (by omega)
    rw [List.getElem?_set_self hj,hmod,Function.update_self]
  · have hne : str+j≠(str+i)%2^32 := by omega
    rw [List.getElem?_set_ne hij,hm j hj,Function.update_of_ne hne]

theorem appendStr_stores (text : List UInt8) {k : Sink} (hk : k.off < 2^32)
    (hstr : str+k.dst.length ≤ 2^32) (hm : At m str k.dst) :
    At (storeBytes m (textStores str k.size k.off text)) str (appendStr k text).dst ∧
      (appendStr k text).off=(k.off+text.length)%2^32 := by
  induction text generalizing m k with
  | nil => exact ⟨hm,(Nat.mod_eq_of_lt hk).symm⟩
  | cons c text ih =>
    have hstep : At (storeBytes m (charStores str k.size k.off c)) str (appendChar k c).dst := by
      rw [charStores,appendChar]
      split_ifs
      · exact at_set hm hstr hk c
      · exact hm
    have hnext : (appendChar k c).off=(k.off+1)%2^32 := rfl
    have hlen : str+(appendChar k c).dst.length ≤ 2^32 := by rwa [length_appendChar]
    obtain ⟨hat,hoff⟩ := ih (hnext ▸ Nat.mod_lt _ (by decide)) hlen hstep
    rw [textStores,storeBytes_append,appendStr_cons]
    refine ⟨hat,?_⟩
    rw [hoff,hnext,List.length_cons]
    omega

/-- The stores leave in the array what vsnprintf says. -/
theorem vsnprintf_stores (format : List UInt8) (ap : List VaArg) {size : Nat}
    (hm : At m str dst) (hstr : str+dst.length ≤ 2^32) (hsize : size ≤ dst.length) :
    At (storeBytes m (vsnprintfStores str size format ap).1) str
        (vsnprintf dst size format ap).1 ∧
      (vsnprintfStores str size format ap).2=(vsnprintf dst size format ap).2 := by
  obtain ⟨hat,hoff⟩ :=
    @appendStr_stores m str (formatted format ap).1 ⟨dst,size,0⟩ (Nat.two_pow_pos 32) hstr hm
  have hlen : (appendStr ⟨dst,size,0⟩ (formatted format ap).1).dst.length=dst.length :=
    length_appendStr _ _
  rw [Nat.zero_add] at hoff
  simp only [vsnprintfStores,vsnprintf,formatLoop_formatted,storeBytes_append,hoff]
  refine ⟨?_,trivial⟩
  by_cases h0 : 0 < size
  · rw [if_pos h0,if_pos h0]
    apply at_set hat (by omega)
    split_ifs <;> omega
  · rw [if_neg h0,if_neg h0]
    exact hat

end Refinement

section Laps

variable {str size off : Nat} {text : List UInt8}

theorem textStores_append (s t : List UInt8) (hoff : off < 2^32) :
    textStores str size off (s++t)=
      textStores str size off s++textStores str size ((off+s.length)%2^32) t := by
  induction s generalizing off with
  | nil =>
    rw [List.length_nil,Nat.add_zero,Nat.mod_eq_of_lt hoff]
    rfl
  | cons c s ih =>
    have hmod : ((off+1)%2^32+s.length)%2^32=(off+(s.length+1))%2^32 := by omega
    rw [List.cons_append,textStores,ih (Nat.mod_lt _ (by decide)),textStores,List.append_assoc,
      hmod,List.length_cons]

/-- As long as the offset does not wrap, what fits goes where it belongs. -/
theorem textStores_short (hstr : str+size ≤ 2^32) (h : off+text.length < 2^32) :
    textStores str size off text=byteStores (str+off) (text.take (size-1-off)) := by
  induction text generalizing off with
  | nil =>
    rw [List.take_nil]
    rfl
  | cons c text ih =>
    rw [List.length_cons] at h
    have hmod : (off+1)%2^32=off+1 := Nat.mod_eq_of_lt (by omega)
    rw [textStores,charStores,hmod,ih (by omega)]
    by_cases hroom : off+1 < size
    · have haddress : (str+off)%2^32=str+off := Nat.mod_eq_of_lt (by omega)
      have hleft : size-1-off=size-1-(off+1)+1 := by omega
      rw [if_pos hroom,haddress,hleft,List.take_succ_cons]
      rfl
    · have hnone : size-1-off=0 := by omega
      have hnone' : size-1-(off+1)=0 := by omega
      rw [if_neg hroom,hnone,hnone']
      rfl

/-- A store goes into the array, or right in front of it when the offset wraps. -/
theorem textStores_bounds (hstr0 : 0 < str) (hstr : str+size ≤ 2^32) (hoff : off < 2^32) :
    ∀ k∈textStores str size off text,str ≤ k.1+1 ∧ k.1+1 < str+size := by
  induction text generalizing off with
  | nil => exact fun k hk => absurd hk List.not_mem_nil
  | cons c text ih =>
    rw [textStores,List.forall_mem_append]
    refine ⟨?_,ih (Nat.mod_lt _ (by decide))⟩
    rw [charStores]
    split_ifs with hroom
    · rw [List.forall_mem_singleton]
      omega
    · exact fun k hk => absurd hk List.not_mem_nil

/-- The part of a text behind the last multiple of 2^32. -/
def lastLap (text : List UInt8) : List UInt8 := text.drop (2^32*(text.length/2^32))

/-- The byte in front of it. -/
def lapEnd (text : List UInt8) : Option UInt8 :=
  if text.length < 2^32 then none else text[2^32*(text.length/2^32)-1]?

theorem lastLap_length (text : List UInt8) : (lastLap text).length=text.length%2^32 := by
  rw [lastLap,List.length_drop]
  omega

theorem lastLap_short (h : text.length < 2^32) : lastLap text=text := by
  rw [lastLap,Nat.div_eq_of_lt h,Nat.mul_zero,List.drop_zero]

/-- Of the laps before the last one, the byte in front of the array is what is left. -/
theorem textStores_laps (hsize : 0 < size) (hstr0 : 0 < str) (hstr : str+size ≤ 2^32)
    (text : List UInt8) :
    ∃ early,textStores str size 0 text=
        early++byteStores str ((lastLap text).take (size-1)) ∧
      (∀ k∈early,str ≤ k.1+1 ∧ k.1+1 < str+size) ∧
      (∀ m,storeBytes m early (str-1)=(lapEnd text).getD (m (str-1))) ∧
      (text.length < 2^32 → early=[]) := by
  have hzero : (0 : Nat) < 2^32 := Nat.two_pow_pos 32
  by_cases hshort : text.length < 2^32
  · refine ⟨[],?_,fun k hk => absurd hk List.not_mem_nil,fun m => ?_,fun _ => rfl⟩
    · rw [lastLap_short hshort]
      exact textStores_short hstr (by omega)
    · rw [lapEnd,if_pos hshort]
      rfl
  · have h : 2^32 ≤ text.length := Nat.le_of_not_lt hshort
    obtain ⟨n,hn⟩ : ∃ n,2^32*(text.length/2^32)=n+1 :=
      Nat.exists_eq_succ_of_ne_zero (by omega)
    have hlt : n < text.length := by omega
    have hlap : lastLap text=text.drop (n+1) := by rw [lastLap,hn]
    have hlaps : text=text.take n++text[n]::lastLap text := by
      rw [hlap,← List.drop_eq_getElem_cons hlt,List.take_append_drop]
    have hend : lapEnd text=some text[n] := by
      rw [lapEnd,if_neg (Nat.not_lt_of_le h),hn,Nat.add_sub_cancel]
      exact List.getElem?_eq_getElem hlt
    have hoff : (0+(text.take n).length)%2^32=2^32-1 := by
      rw [List.length_take_of_le hlt.le]
      omega
    have hwrap : (2^32-1+1)%2^32=0 := by decide
    have hchar : charStores str size (2^32-1) text[n]=[(str-1,text[n])] := by
      have haddress : (str+(2^32-1))%2^32=str-1 := by omega
      rw [charStores,hwrap,if_pos hsize,haddress]
    have hlast : textStores str size 0 (lastLap text)=
        byteStores str ((lastLap text).take (size-1)) := by
      have hlen := lastLap_length text
      exact textStores_short hstr (by omega)
    refine ⟨textStores str size 0 (text.take n)++[(str-1,text[n])],?_,?_,?_,
      fun hno => absurd hno hshort⟩
    · conv_lhs => rw [hlaps]
      rw [textStores_append _ _ hzero,hoff,textStores,hchar,hwrap,hlast,List.append_assoc]
    · rw [List.forall_mem_append,List.forall_mem_singleton]
      exact ⟨textStores_bounds hstr0 hstr hzero,by omega⟩
    · intro m
      rw [storeBytes_append,hend]
      exact Function.update_self ..

/-- The memory after the call has as much of the last lap as fits and a NUL, and in front of the
array the byte before that lap. -/
structure Printed (m m' : Memory) (str size : Nat) (text : List UInt8) : Prop where
  bytes : At m' str ((lastLap text).take (size-1)++[0])
  front : m' (str-1)=(lapEnd text).getD (m (str-1))

theorem vsnprintfStores_printed (m : Memory) (hsize : 0 < size) (hstr0 : 0 < str)
    (hstr : str+size ≤ 2^32) (format : List UInt8) (ap : List VaArg) :
    let text := (formatted format ap).1
    let r := vsnprintfStores str size format ap
    Printed m (storeBytes m r.1) str size text ∧ r.2=text.length%2^32 ∧
      (∀ k∈r.1,str ≤ k.1+1 ∧ k.1 < str+size) ∧
      (text.length < 2^32 → ∀ k∈r.1,str ≤ k.1) := by
  intro text r
  obtain ⟨early,hearly,hbounds,hfront,hnone⟩ := textStores_laps hsize hstr0 hstr text
  let kept := (lastLap text).take (size-1)
  have hlen : kept.length=min (size-1) (text.length%2^32) := by
    rw [List.length_take,lastLap_length]
  have hterm : (str+if text.length%2^32 < size then text.length%2^32 else size-1)%2^32=
      str+kept.length := by
    rw [hlen]
    split_ifs <;> omega
  have hstores : r.1=early++byteStores str (kept++[0]) := by
    change textStores str size 0 text++(if 0 < size then [((str+_)%2^32,0)] else [])=_
    rw [if_pos hsize,hterm,hearly,List.append_assoc,byteStores_append]
    rfl
  have hkept : ∀ k∈byteStores str (kept++[0]),str ≤ k.1 ∧ k.1 < str+size := by
    intro k hk
    have hk' := byteStores_bounds k hk
    rw [List.length_append,List.length_singleton] at hk'
    omega
  rw [hstores]
  refine ⟨⟨?_,?_⟩,rfl,?_,fun hshort => ?_⟩
  · rw [storeBytes_append]
    exact at_byteStores _ _ _
  · have hother : ∀ k∈byteStores str (kept++[0]),k.1≠str-1 := by
      intro k hk
      have hk' := hkept k hk
      omega
    rw [storeBytes_append,storeBytes_of_ne hother,hfront]
  · rw [List.forall_mem_append]
    refine ⟨fun k hk => ?_,fun k hk => ?_⟩
    · have hk' := hbounds k hk
      omega
    · have hk' := hkept k hk
      omega
  · rw [hnone hshort,List.nil_append]
    exact fun k hk => (hkept k hk).1

end Laps

end Cllm.Libc
