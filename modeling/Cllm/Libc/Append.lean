import Cllm.Libc.PrintfStores

namespace Cllm.Libc

open ByteMemory

/-- The stores of the call, what it leaves in `*offset`, and its value. The pointer to the offset
is not null. -/
def safeSnprintfAppend (dst dstSize offset : Nat) (format : List UInt8) (ap : List VaArg) :
    List (Nat × UInt8) × Nat × Int32 :=
  if dst=0 ∨ dstSize=0 ∨ dstSize ≤ offset then ([],offset,-1)
  else
    let written := vsnprintfStores ((dst+offset)%2^32) (dstSize-offset) format ap
    let n := returned written.2
    if n < 0 then (written.1,offset,n)
    else if dstSize-offset ≤ n.toUInt32.toNat then
      let offset := dstSize-1
      (written.1++[((dst+offset)%2^32,0)],offset,Int32.ofNat (dstSize-1-offset))
    else (written.1,(offset+n.toUInt32.toNat)%2^32,n)

/-- A call whose conversions vsnprintf has branches for. -/
abbrev Call := {ps : List Piece // ∀ p∈ps,p.Supported}

/-- Everything that the calls render. -/
def rendering (calls : List Call) : List UInt8 := calls.flatMap fun c => specifiedOf c.val

/-- Between two calls: the memory, the offset, and the sum of the values so far. -/
structure Appending where
  mem : Memory
  offset : Nat
  sum : Int

section Calls

variable {n : Nat} (dst : CharArray n)

def Appending.call (s : Appending) (c : Call) : Appending :=
  let r := safeSnprintfAppend dst.base n s.offset (formatOf c.val) (wordsOf c.val)
  ⟨storeBytes s.mem r.1,r.2.1,s.sum+r.2.2.toInt⟩

/-- The calls one after the other, from offset 0 on. -/
def appendCalls (m : Memory) (calls : List Call) : Appending :=
  calls.foldl (Appending.call dst) ⟨m,0,0⟩

/-- The buffer has the first bytes of `text`, as many as it holds in front of a NUL; the offset is
behind them, and the values add up to it. -/
structure Kept (text : List UInt8) (s : Appending) : Prop where
  bytes : At s.mem dst.base (text.take (n-1))
  offset : s.offset=min (n-1) text.length
  sum : s.sum=s.offset

structure Appended (text : List UInt8) (s : Appending) : Prop extends Kept dst text s where
  nul : s.mem (dst.base+s.offset)=0

/-- So it is after every call. -/
def AppendedThroughout (m : Memory) (calls : List Call) : Prop :=
  ∀ before c,before++[c] <+: calls →
    Appended dst (rendering (before++[c])) (appendCalls dst m (before++[c]))

/-- A text below 2 GiB, that fits behind the `total` bytes before it, or finds the buffer full. -/
def Fits (n total : Nat) (text : List UInt8) : Prop :=
  text.length < 2^31 ∧ (total+text.length ≤ n-1 ∨ n-1 ≤ total)

/-- No call is the one that fills the buffer up with the front of its rendering. -/
def FitsThroughout (n : Nat) (calls : List Call) : Prop :=
  ∀ before c,before++[c] <+: calls → Fits n (rendering before).length (specifiedOf c.val)

end Calls

section Step

variable {n : Nat} (dst : CharArray n) {offset : Nat} {format more : List UInt8} {ap : List VaArg}

/-- The three ways through a call that has room for a byte. -/
theorem safeSnprintfAppend_eq (hoff : offset < n) (hmore : (formatted format ap).1=more)
    (hlen : more.length < 2^32) :
    let stores := (vsnprintfStores (dst.base+offset) (n-offset) format ap).1
    safeSnprintfAppend dst.base n offset format ap=
      if 2^31 ≤ more.length then (stores,offset,returned more.length)
      else if n-offset ≤ more.length then (stores++[(dst.base+(n-1),0)],n-1,0)
      else (stores,offset+more.length,returned more.length) := by
  intro stores
  have hpos := dst.base_pos
  have hfits := dst.fits
  have hguard : ¬(dst.base=0 ∨ n=0 ∨ n ≤ offset) := by omega
  have haddress : (dst.base+offset)%2^32=dst.base+offset := Nat.mod_eq_of_lt (by omega)
  have hlast : (dst.base+(n-1))%2^32=dst.base+(n-1) := Nat.mod_eq_of_lt (by omega)
  have hwritten : (vsnprintfStores (dst.base+offset) (n-offset) format ap).2=more.length := by
    change (formatted format ap).1.length%2^32=_
    rw [hmore,Nat.mod_eq_of_lt hlen]
  have hword := returned_word hlen
  simp only [safeSnprintfAppend,if_neg hguard,haddress,hlast,hwritten,hword]
  by_cases hbig : 2^31 ≤ more.length
  · rw [if_pos (returned_negative hbig hlen),if_pos hbig]
  · rw [if_neg (returned_nonnegative (Nat.lt_of_not_le hbig)),if_neg hbig]
    by_cases hfull : n-offset ≤ more.length
    · rw [if_pos hfull,if_pos hfull,Nat.sub_self]
      rfl
    · have hnext : (offset+more.length)%2^32=offset+more.length := Nat.mod_eq_of_lt (by omega)
      rw [if_neg hfull,if_neg hfull,hnext]

variable {dst} {text : List UInt8} {s : Appending}

theorem Kept.offset_lt (h : Kept dst text s) : s.offset < n := by
  have hsize := dst.size_pos
  have hoffset := h.offset
  omega

/-- Whatever the value becomes, the bytes of the call land where they belong. -/
theorem Kept.stores (h : Kept dst text s) (hmore : (formatted format ap).1=more)
    (hlen : more.length < 2^32) :
    At (storeBytes s.mem (vsnprintfStores (dst.base+s.offset) (n-s.offset) format ap).1) dst.base
      ((text++more).take (n-1)++[0]) := by
  have hpos := dst.base_pos
  have hfits := dst.fits
  have hoff := h.offset_lt
  have hkept : (text.take (n-1)).length=s.offset := by rw [List.length_take,h.offset]
  have hleft : n-1-text.length=n-s.offset-1 := by
    have hoffset := h.offset
    omega
  have hsize : 0 < n-s.offset := by omega
  have hend : dst.base+s.offset+(n-s.offset) ≤ 2^32 := by omega
  obtain ⟨hprinted,-,-,hfront⟩ :=
    vsnprintfStores_printed s.mem hsize (by omega) hend format ap
  rw [hmore] at hprinted hfront
  have hbytes := hprinted.bytes
  rw [lastLap_short hlen] at hbytes
  rw [List.take_append,hleft,List.append_assoc,at_append,hkept]
  refine ⟨h.bytes.stores fun k hk => ?_,hbytes⟩
  rw [hkept]
  exact .inr (hfront hlen k hk)

variable {c : Call}

theorem Call.formatted (c : Call) :
    (Libc.formatted (formatOf c.val) (wordsOf c.val)).1=specifiedOf c.val := by
  have h := formatted_of_supported c.property []
  rw [List.append_nil] at h
  rw [h]

theorem Appending.call_eq (h : Kept dst text s) (hlen : (specifiedOf c.val).length < 2^32) :
    let more := specifiedOf c.val
    let mem := storeBytes s.mem
      (vsnprintfStores (dst.base+s.offset) (n-s.offset) (formatOf c.val) (wordsOf c.val)).1
    s.call dst c=
      if 2^31 ≤ more.length then ⟨mem,s.offset,s.sum+(returned more.length).toInt⟩
      else if n-s.offset ≤ more.length then
        ⟨storeBytes mem [(dst.base+(n-1),0)],n-1,s.sum⟩
      else ⟨mem,s.offset+more.length,s.sum+more.length⟩ := by
  intro more mem
  have hcall := safeSnprintfAppend_eq dst h.offset_lt c.formatted hlen
  simp only [Appending.call,hcall]
  split_ifs with hbig hfull
  · rfl
  · simp only [storeBytes_append,Int32.toInt_zero,add_zero,mem]
  · rw [returned_toInt (Nat.lt_of_not_le hbig)]

/-- A call that fits keeps the buffer, the offset and the sum together. -/
theorem Kept.call (h : Kept dst text s) (hfits : Fits n text.length (specifiedOf c.val)) :
    Appended dst (text++specifiedOf c.val) (s.call dst c) := by
  let more := specifiedOf c.val
  have hlen : more.length < 2^32 := hfits.1.trans (by decide)
  have hoffset := h.offset
  have hroom : text.length+more.length ≤ n-1 ∨ n-1 ≤ text.length := hfits.2
  have hat := h.stores c.formatted hlen
  rw [at_append,List.length_take,List.length_append] at hat
  obtain ⟨hbytes,hnul⟩ := hat
  have hnul := hnul 0 Nat.one_pos
  have hend := (Option.some.inj hnul).symm
  rw [Nat.add_zero] at hend
  rw [Appending.call_eq h hlen,if_neg (Nat.not_le_of_lt hfits.1)]
  by_cases hfull : n-s.offset ≤ more.length
  · -- Only a full buffer takes this branch, whose offset was there already.
    have hlast : n-1=min (n-1) (text.length+more.length) := by omega
    rw [if_pos hfull]
    refine ⟨⟨hbytes.stores ?_,?_,?_⟩,Function.update_self ..⟩
    · rw [List.forall_mem_singleton,List.length_take]
      omega
    · rwa [List.length_append]
    · change s.sum=((n-1 : Nat) : Int)
      rw [h.sum]
      omega
  · have hnext : s.offset+more.length=min (n-1) (text.length+more.length) := by omega
    rw [if_neg hfull]
    refine ⟨⟨hbytes,?_,?_⟩,?_⟩
    · rwa [List.length_append]
    · rw [h.sum,Nat.cast_add]
    · change storeBytes _ _ (dst.base+(s.offset+more.length))=0
      rw [hnext]
      exact hend

/-- And no other call does. -/
theorem Kept.fits (h : Kept dst text s) (hlen : (specifiedOf c.val).length < 2^32)
    (hafter : Kept dst (text++specifiedOf c.val) (s.call dst c)) :
    Fits n text.length (specifiedOf c.val) := by
  let more := specifiedOf c.val
  have hoffset := h.offset
  have hsum := hafter.sum
  rw [Appending.call_eq h hlen,h.sum] at hsum
  by_cases hbig : 2^31 ≤ more.length
  · have hvalue : (returned more.length).toInt < 0 :=
      Int32.lt_iff_toInt_lt.mp (returned_negative hbig hlen)
    rw [if_pos hbig] at hsum
    change (s.offset : Int)+(returned more.length).toInt=s.offset at hsum
    omega
  · rw [if_neg hbig] at hsum
    refine ⟨Nat.lt_of_not_le hbig,?_⟩
    by_cases hfull : n-s.offset ≤ more.length
    · rw [if_pos hfull] at hsum
      dsimp only at hsum
      omega
    · have hroom : more.length < n-s.offset := Nat.lt_of_not_le hfull
      change text.length+more.length ≤ n-1 ∨ _
      omega

end Step

section Run

variable {n : Nat} (dst : CharArray n) (m : Memory) {calls : List Call}

theorem appendCalls_concat (calls : List Call) (c : Call) :
    appendCalls dst m (calls++[c])=(appendCalls dst m calls).call dst c := List.foldl_concat ..

theorem rendering_concat (calls : List Call) (c : Call) :
    rendering (calls++[c])=rendering calls++specifiedOf c.val := by
  rw [rendering,List.flatMap_append,List.flatMap_singleton]
  rfl

theorem kept_nil : Kept dst [] ⟨m,0,0⟩ := by
  refine ⟨?_,(Nat.min_zero (n-1)).symm,rfl⟩
  rw [List.take_nil]
  exact at_nil m dst.base

/-- What every call leaves is what the next one starts from. -/
theorem AppendedThroughout.kept (h : AppendedThroughout dst m calls) {before : List Call}
    (hbefore : before <+: calls) :
    Kept dst (rendering before) (appendCalls dst m before) := by
  cases before using List.reverseRecOn with
  | nil => exact kept_nil dst m
  | append_singleton before c => exact (h before c hbefore).toKept

theorem FitsThroughout.kept (h : FitsThroughout n calls) {before : List Call}
    (hbefore : before <+: calls) :
    Kept dst (rendering before) (appendCalls dst m before) := by
  induction before using List.reverseRecOn with
  | nil => exact kept_nil dst m
  | append_singleton before c ih =>
    have hkept := ih ((List.prefix_append before [c]).trans hbefore)
    rw [rendering_concat,appendCalls_concat]
    exact (hkept.call (h before c hbefore)).toKept

/-- Buffer, offset and values agree with the text after every call, as long as no call is cut
short in the middle of its rendering; below 4 GiB a call only then keeps them so. -/
theorem appended_throughout (calls : List Call) :
    (FitsThroughout n calls → AppendedThroughout dst m calls) ∧
      ((∀ c∈calls,(specifiedOf c.val).length < 2^32) →
        AppendedThroughout dst m calls → FitsThroughout n calls) := by
  refine ⟨fun h before c hfirst => ?_,fun hlen h before c hfirst => ?_⟩
  · have hkept := FitsThroughout.kept dst m h ((List.prefix_append before [c]).trans hfirst)
    rw [rendering_concat,appendCalls_concat]
    exact hkept.call (h before c hfirst)
  · have hkept := AppendedThroughout.kept dst m h ((List.prefix_append before [c]).trans hfirst)
    have hafter := (h before c hfirst).toKept
    have hmem : c∈calls := hfirst.subset (List.mem_append_right before List.mem_cons_self)
    rw [rendering_concat,appendCalls_concat] at hafter
    exact hkept.fits (hlen c hmem) hafter

end Run

/-- Six bytes for a buffer of four: three of them are stored, and the value is 0. -/
theorem truncated_counted_zero :
    let dst : CharArray 4 := ⟨4096,by decide,by decide,by decide⟩
    let calls : List Call := [⟨[.text (cstr "abcdef") (by decide)],by simp [Piece.Supported]⟩]
    let s := appendCalls dst (fun _ => 0) calls
    s.offset=3 ∧ s.sum=0 ∧ ¬AppendedThroughout dst (fun _ => 0) calls := by
  intro dst calls s
  have hcall : s=_ := Appending.call_eq (kept_nil dst fun _ => 0) (c := ⟨_,_⟩) (by decide)
  have hoffset : s.offset=3 := by rw [hcall]; rfl
  have hsum : s.sum=0 := by rw [hcall]; rfl
  refine ⟨hoffset,hsum,fun h => ?_⟩
  have hkept := (h [] _ List.prefix_rfl).sum
  change s.sum=s.offset at hkept
  rw [hoffset,hsum] at hkept
  exact absurd hkept (by decide)

end Cllm.Libc
