import Cllm.Framework.ByteMemory
import Cllm.Libc.SafeString

namespace Cllm.Libc

open ByteMemory

/-- The loop of safe_strcpy, with room for `n` more bytes, and the NUL behind it. -/
def strcpyLoop : (dst n : Nat) → (src : List UInt8) → List (Nat × UInt8) × Nat
  | dst,0,_ => ([(dst,0)],0)
  | dst,_+1,[] => ([(dst,0)],0)
  | dst,n+1,c::src =>
    if c=0 then ([(dst,0)],0)
    else
      let copied := strcpyLoop (dst+1) n src
      ((dst,c)::copied.1,copied.2+1)

def strcpyStores (dst dstSize : Nat) (src : List UInt8) : List (Nat × UInt8) × Nat :=
  if dstSize=0 then ([],0) else strcpyLoop dst (dstSize-1) src

/-- The scan of safe_strcat for the NUL. -/
def strcatScan (m : Memory) : (dst dstSize : Nat) → Nat
  | _,0 => 0
  | dst,n+1 => if m dst=0 then 0 else strcatScan m (dst+1) n+1

def strcatStores (m : Memory) (dst dstSize : Nat) (src : List UInt8) :
    List (Nat × UInt8) × Nat :=
  if dstSize=0 then ([],0)
  else
    let dstLen := strcatScan m dst dstSize
    if dstLen≥dstSize then ([],0)
    else
      let copied := strcpyStores (dst+dstLen) (dstSize-dstLen) src
      (copied.1,dstLen+copied.2)

theorem strcpyLoop_eq (dst n : Nat) (src : List UInt8) :
    strcpyLoop dst n src=
      (byteStores dst ((cut src).take n++[0]),((cut src).take n).length) := by
  induction n generalizing dst src with
  | zero => simp [strcpyLoop,byteStores]
  | succ n ih =>
    cases src with
    | nil => simp [strcpyLoop,byteStores,cut]
    | cons c src =>
      rw [strcpyLoop]
      by_cases hc : c=0
      · simp [hc,cut,byteStores]
      · have hcut : cut (c::src)=c::cut src := by simp [cut,hc]
        rw [if_neg hc,ih,hcut]
        rfl

theorem strcatScan_eq {m : Memory} {dst n k : Nat} (hk : k < n)
    (htext : ∀ i < k,m (dst+i)≠0) (hnul : m (dst+k)=0) : strcatScan m dst n=k := by
  induction k generalizing dst n with
  | zero =>
    obtain ⟨n,rfl⟩ := Nat.exists_eq_succ_of_ne_zero (Nat.ne_of_gt hk)
    exact if_pos hnul
  | succ k ih =>
    obtain ⟨n,rfl⟩ := Nat.exists_eq_succ_of_ne_zero (Nat.ne_of_gt (Nat.zero_lt_of_lt hk))
    have hmove (i : Nat) : dst+1+i=dst+(i+1) := by omega
    have hfirst : m dst≠0 := htext 0 (Nat.succ_pos k)
    rw [strcatScan,if_neg hfirst,ih (Nat.lt_of_succ_lt_succ hk)]
    · intro i hi
      rw [hmove]
      exact htext (i+1) (by omega)
    · rw [hmove]
      exact hnul

variable {n : Nat}

/-- The string stands in the array at `dst`, with its NUL. -/
structure Stands (m : Memory) (dst : Nat) (f : CField n) : Prop where
  text : ∀ i < f.bytes.length,some (m (dst+i))=f.bytes[i]?
  nul : m (dst+f.bytes.length)=0
  clean : 0∉f.bytes

variable {m : Memory} {dst : Nat} {f : CField n}

theorem Stands.scan (h : Stands m dst f) : strcatScan m dst n=f.bytes.length := by
  apply strcatScan_eq f.fits
  · intro i hi hzero
    have htext := h.text i hi
    rw [hzero] at htext
    exact h.clean (List.mem_of_getElem? htext.symm)
  · exact h.nul

theorem zero_not_mem_safeStrcat (f : CField n) (src : List UInt8) : 0∉(safeStrcat f src).bytes := by
  change 0∉cut f.bytes++_
  rw [List.mem_append,not_or]
  exact ⟨zero_not_mem_cut _,fun h => zero_not_mem_cut src (List.mem_of_mem_take h)⟩

/-- The stores of safe_strcat stay in the array, and make of its string what safeStrcat does. -/
theorem Stands.strcat (h : Stands m dst f) (src : List UInt8) :
    let r := strcatStores m dst n src
    Stands (storeBytes m r.1) dst (safeStrcat f src) ∧
      (∀ k∈r.1,dst ≤ k.1 ∧ k.1 < dst+n) ∧ r.2=(safeStrcat f src).bytes.length := by
  have hfits := f.fits
  let more := (cut src).take (n-f.bytes.length-1)
  have hroom : f.bytes.length+more.length < n := by
    rw [List.length_take]
    omega
  have hstores : strcatStores m dst n src=
      (byteStores (dst+f.bytes.length) (more++[0]),f.bytes.length+more.length) := by
    have hsize : n≠0 := by omega
    have hleft : n-f.bytes.length≠0 := by omega
    simp only [strcatStores,if_neg hsize,h.scan,if_neg (Nat.not_le_of_lt hfits),strcpyStores,
      if_neg hleft,strcpyLoop_eq]
    rfl
  have hbytes : (safeStrcat f src).bytes=f.bytes++more := by
    change cut f.bytes++(cut src).take (n-(cut f.bytes).length-1)=_
    rw [cut_of_not_mem h.clean]
  have hlast : (more++[0]).length=more.length+1 := List.length_append
  have hbefore : At m dst f.bytes := fun i hi => (h.text i hi).symm
  have hafter : At (storeBytes m (byteStores (dst+f.bytes.length) (more++[0]))) dst
      (f.bytes++(more++[0])) :=
    at_append.mpr ⟨hbefore.stores fun k hk => .inr (byteStores_bounds k hk).1,
      at_byteStores _ _ _⟩
  rw [← List.append_assoc,at_append] at hafter
  obtain ⟨htext,hnul⟩ := hafter
  intro r
  change r=_ at hstores
  rw [hstores]
  refine ⟨⟨?_,?_,zero_not_mem_safeStrcat f src⟩,?_,?_⟩
  · intro i hi
    rw [hbytes] at hi ⊢
    exact (htext i hi).symm
  · have hend := hnul 0 Nat.one_pos
    rw [hbytes]
    exact (Option.some.inj hend).symm
  · intro k hk
    have hbounds := byteStores_bounds k hk
    omega
  · rw [hbytes,List.length_append]

end Cllm.Libc
