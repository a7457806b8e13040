import Mathlib.Algebra.Group.Nat.Defs
import Mathlib.Data.UInt

namespace Cllm.ByteMemory

/-- A flat memory of bytes. -/
abbrev Memory := Nat → UInt8

/-- The little-endian 32-bit word at an address. -/
def loadWord (m : Memory) (a : Nat) : Nat :=
  (m a).toNat+(m (a+1)).toNat*2^8+(m (a+2)).toNat*2^16+(m (a+3)).toNat*2^24

/-- The memory with a word of it replaced, modulo 2^32. -/
def storeWord (m : Memory) (a v : Nat) : Memory := fun x =>
  if a ≤ x ∧ x<a+4 then UInt8.ofNat (v/256^(x-a)) else m x

/-- A byte-by-byte copy, upwards. -/
def copyBytes (m : Memory) (dst src : Nat) : Nat → Memory
  | 0 => m
  | n+1 =>
    let m := copyBytes m dst src n
    Function.update m (dst+n) (m (src+n))

section Frame

variable {m m' : Memory} {a b v x dst src n : Nat}

/-- The two memories have the same bytes from `a` up to `b`. -/
def Agree (m m' : Memory) (a b : Nat) : Prop := ∀ x,a ≤ x → x<b → m' x=m x

theorem loadWord_lt (m : Memory) (a : Nat) : loadWord m a<2^32 := by
  have h0 := (m a).toNat_lt
  have h1 := (m (a+1)).toNat_lt
  have h2 := (m (a+2)).toNat_lt
  have h3 := (m (a+3)).toNat_lt
  rw [loadWord]
  omega

theorem Agree.loadWord (h : Agree m m' a (a+4)) : loadWord m' a=loadWord m a := by
  rw [ByteMemory.loadWord,ByteMemory.loadWord,h a le_rfl (by omega),
    h (a+1) (by omega) (by omega),h (a+2) (by omega) (by omega),h (a+3) (by omega) (by omega)]

theorem storeWord_of_ne (h : x<a ∨ a+4≤x) : storeWord m a v x=m x := by
  rw [storeWord,if_neg (by omega)]

/-- A store changes nothing outside its word. -/
theorem agree_storeWord (h : b≤a ∨ a+4≤x) : Agree m (storeWord m a v) x b := by
  intro y hy hb
  exact storeWord_of_ne (by omega)

theorem loadWord_storeWord (h : v<2^32) : loadWord (storeWord m a v) a=v := by
  have byte (k : Nat) (hk : k<4) :
      (storeWord m a v (a+k)).toNat=v/256^k%2^8 := by
    rw [storeWord,if_pos (by omega),Nat.add_sub_cancel_left,UInt8.toNat_ofNat']
  have h0 := byte 0 (by omega)
  rw [Nat.add_zero] at h0
  rw [loadWord,h0,byte 1 (by omega),byte 2 (by omega),byte 3 (by omega)]
  omega

theorem loadWord_storeWord_ne (h : b+4≤a ∨ a+4≤b) :
    loadWord (storeWord m a v) b=loadWord m b :=
  Agree.loadWord (agree_storeWord (by omega))

theorem copyBytes_of_ne (h : x<dst ∨ dst+n≤x) : copyBytes m dst src n x=m x := by
  induction n with
  | zero => rfl
  | succ n ih =>
    rw [copyBytes,Function.update_of_ne (by omega)]
    exact ih (by omega)

/-- Between ranges that do not overlap a copy copies. -/
theorem copyBytes_of_apart (h : dst+n ≤ src ∨ src+n≤dst) {i : Nat} (hi : i<n) :
    copyBytes m dst src n (dst+i)=m (src+i) := by
  induction n with
  | zero => omega
  | succ n ih =>
    rw [copyBytes]
    by_cases he : i=n
    · subst he
      rw [Function.update_self]
      exact copyBytes_of_ne (by omega)
    · rw [Function.update_of_ne (by omega)]
      exact ih (by omega) (by omega)

end Frame

/-- The stores of `bs`, one byte after the other from `a` on. -/
def byteStores : (a : Nat) → (bs : List UInt8) → List (Nat × UInt8)
  | _,[] => []
  | a,b::bs => (a,b)::byteStores (a+1) bs

def storeBytes (m : Memory) (ks : List (Nat × UInt8)) : Memory :=
  ks.foldl (fun m k => Function.update m k.1 k.2) m

section Stores

variable {m : Memory} {ks : List (Nat × UInt8)} {bs : List UInt8} {a x : Nat}

theorem storeBytes_append (m : Memory) (ks ls : List (Nat × UInt8)) :
    storeBytes m (ks++ls)=storeBytes (storeBytes m ks) ls := List.foldl_append

theorem storeBytes_of_ne (h : ∀ k∈ks,k.1≠x) : storeBytes m ks x=m x := by
  induction ks generalizing m with
  | nil => rfl
  | cons k ks ih =>
    rw [List.forall_mem_cons] at h
    change storeBytes (Function.update m k.1 k.2) ks x=m x
    rw [ih h.2,Function.update_of_ne h.1.symm]

theorem byteStores_bounds : ∀ k∈byteStores a bs,a ≤ k.1 ∧ k.1 < a+bs.length := by
  induction bs generalizing a with
  | nil => simp [byteStores]
  | cons b bs ih =>
    rw [byteStores,List.forall_mem_cons,List.length_cons]
    refine ⟨by omega,?_⟩
    intro k hk
    have hbounds := ih k hk
    omega

theorem storeBytes_byteStores {i : Nat} (hi : i < bs.length) :
    some (storeBytes m (byteStores a bs) (a+i))=bs[i]? := by
  induction bs generalizing a i m with
  | nil => cases hi
  | cons b bs ih =>
    change some (storeBytes (Function.update m a b) (byteStores (a+1) bs) (a+i))=_
    cases i with
    | zero =>
      have hbehind : ∀ k∈byteStores (a+1) bs,k.1≠a+0 := by
        intro k hk
        have hbounds := byteStores_bounds k hk
        omega
      rw [storeBytes_of_ne hbehind]
      exact congrArg some (Function.update_self ..)
    | succ i =>
      have hnext : a+(i+1)=a+1+i := by omega
      rw [hnext,ih (Nat.lt_of_succ_lt_succ hi),List.getElem?_cons_succ]

theorem byteStores_append (a : Nat) (bs cs : List UInt8) :
    byteStores a (bs++cs)=byteStores a bs++byteStores (a+bs.length) cs := by
  induction bs generalizing a with
  | nil => rfl
  | cons b bs ih =>
    rw [List.cons_append,byteStores,ih,List.length_cons,byteStores,List.cons_append,
      Nat.add_assoc,Nat.add_comm 1]

end Stores

def storeWords : Memory → (a : Nat) → (vs : List Nat) → Memory
  | m,_,[] => m
  | m,a,v::vs => storeWords (storeWord m a v) (a+4) vs

section Words

variable {m : Memory} {vs : List Nat} {a x i : Nat}

theorem storeWords_of_ne (h : x<a ∨ a+4*vs.length≤x) : storeWords m a vs x=m x := by
  induction vs generalizing m a with
  | nil => rfl
  | cons v vs ih =>
    rw [List.length_cons] at h
    rw [storeWords,ih (by omega)]
    exact storeWord_of_ne (by omega)

theorem loadWord_storeWords (hi : i<vs.length) (hv : vs[i]<2^32) :
    loadWord (storeWords m a vs) (a+4*i)=vs[i] := by
  induction vs generalizing m a i with
  | nil => exact absurd hi (Nat.not_lt_zero i)
  | cons v vs ih =>
    rw [storeWords]
    cases i with
    | zero =>
      have hagree : Agree (storeWord m a v) (storeWords (storeWord m a v) (a+4) vs) a (a+4) :=
        fun x _ hx => storeWords_of_ne (.inl hx)
      show loadWord _ a=v
      rw [hagree.loadWord]
      exact loadWord_storeWord hv
    | succ i =>
      have hnext : a+4*(i+1)=a+4+4*i := by omega
      rw [hnext]
      exact ih (by simpa using hi) hv

end Words

/-- The bytes `bs` stand at `a`. -/
def At (m : Memory) (a : Nat) (bs : List UInt8) : Prop := ∀ i < bs.length,bs[i]?=some (m (a+i))

section At

variable {m : Memory} {ks : List (Nat × UInt8)} {bs cs : List UInt8} {a : Nat}

theorem at_nil (m : Memory) (a : Nat) : At m a [] := fun i hi => absurd hi (Nat.not_lt_zero i)

theorem at_append : At m a (bs++cs) ↔ At m a bs ∧ At m (a+bs.length) cs := by
  constructor
  · intro h
    refine ⟨fun i hi => ?_,fun i hi => ?_⟩
    · rw [← h i (by rw [List.length_append]; omega),List.getElem?_append_left hi]
    · have hi' := h (bs.length+i) (by rw [List.length_append]; omega)
      rw [List.getElem?_append_right (by omega),Nat.add_sub_cancel_left] at hi'
      rw [hi',Nat.add_assoc]
  · intro h i hi
    by_cases hlt : i < bs.length
    · rw [List.getElem?_append_left hlt]
      exact h.1 i hlt
    · rw [List.length_append] at hi
      have hback : a+bs.length+(i-bs.length)=a+i := by omega
      rw [List.getElem?_append_right (by omega),h.2 (i-bs.length) (by omega),hback]

theorem At.stores (h : At m a bs) (hk : ∀ k∈ks,k.1 < a ∨ a+bs.length ≤ k.1) :
    At (storeBytes m ks) a bs := by
  intro i hi
  have hother : ∀ k∈ks,k.1≠a+i := by
    intro k hmem
    have hout := hk k hmem
    omega
  rw [h i hi,storeBytes_of_ne hother]

theorem at_byteStores (m : Memory) (a : Nat) (bs : List UInt8) :
    At (storeBytes m (byteStores a bs)) a bs := fun _ hi => (storeBytes_byteStores hi).symm

/-- Bytes within a range are replaced by as many. -/
theorem At.replace {xs old new ys : List UInt8} (h : At m a (xs++old++ys))
    (hlen : new.length=old.length) :
    At (storeBytes m (byteStores (a+xs.length) new)) a (xs++new++ys) := by
  rw [at_append,at_append] at h ⊢
  have hlen' : (xs++new).length=(xs++old).length := by
    rw [List.length_append,List.length_append,hlen]
  refine ⟨⟨h.1.1.stores fun k hk => ?_,at_byteStores _ _ _⟩,?_⟩
  · have hbounds := byteStores_bounds k hk
    omega
  · rw [hlen']
    refine h.2.stores fun k hk => ?_
    have hbounds := byteStores_bounds k hk
    rw [List.length_append]
    omega

theorem At.agree {m' : Memory} (h : At m a bs) (hm : Agree m m' a (a+bs.length)) :
    At m' a bs := by
  intro i hi
  rw [h i hi,hm (a+i) (by omega) (by omega)]

theorem At.take (h : At m a bs) (n : Nat) : At m a (bs.take n) := by
  rw [← List.take_append_drop n bs] at h
  exact (at_append.mp h).1

end At

/-- The `n` bytes at an address. -/
def bytesAt (m : Memory) (a n : Nat) : List UInt8 := (List.range n).map fun i => m (a+i)

@[simp] theorem bytesAt_length (m : Memory) (a n : Nat) : (bytesAt m a n).length=n := by
  simp [bytesAt]

theorem at_bytesAt (m : Memory) (a n : Nat) : At m a (bytesAt m a n) := by
  intro i hi
  rw [bytesAt_length] at hi
  simp [bytesAt,hi]

theorem At.bytesAt {m : Memory} {bs : List UInt8} {a : Nat} (h : At m a bs) :
    bytesAt m a bs.length=bs := by
  apply List.ext_getElem?
  intro i
  by_cases hi : i < bs.length
  · rw [h i hi]
    simp [ByteMemory.bytesAt,hi]
  · rw [List.getElem?_eq_none (by simpa using hi),List.getElem?_eq_none (by simpa using hi)]

/-- Records, each in its own slot of the same size. -/
def storeRecords (m : Memory) (base size : Nat) (f : Nat → List UInt8) (n : Nat) : Memory :=
  (List.range n).foldl (fun m i => storeBytes m (byteStores (base+size*i) (f i))) m

section Records

variable {m : Memory} {base size n x i : Nat} {f : Nat → List UInt8}

theorem storeRecords_succ (m : Memory) (base size : Nat) (f : Nat → List UInt8) (n : Nat) :
    storeRecords m base size f (n+1)=
      storeBytes (storeRecords m base size f n) (byteStores (base+size*n) (f n)) := by
  rw [storeRecords,List.range_succ,List.foldl_append]
  rfl

theorem storeRecords_of_ne (hf : ∀ i,(f i).length ≤ size) (h : x < base ∨ base+size*n ≤ x) :
    storeRecords m base size f n x=m x := by
  induction n with
  | zero => rfl
  | succ n ih =>
    have hsucc := Nat.mul_add_one size n
    have hlen := hf n
    rw [storeRecords_succ,storeBytes_of_ne fun k hk => ?_]
    · exact ih (by omega)
    · have hbounds := byteStores_bounds k hk
      omega

theorem at_storeRecords (hf : ∀ i,(f i).length ≤ size) (hi : i < n) :
    At (storeRecords m base size f n) (base+size*i) (f i) := by
  induction n with
  | zero => exact absurd hi (Nat.not_lt_zero i)
  | succ n ih =>
    rw [storeRecords_succ]
    by_cases hlast : i=n
    · subst hlast
      exact at_byteStores _ _ _
    · have hbelow : i < n := by omega
      have hslot : size*(i+1) ≤ size*n := Nat.mul_le_mul_left size hbelow
      have hsucc := Nat.mul_add_one size i
      have hlen := hf i
      refine (ih hbelow).stores fun k hk => ?_
      have hbounds := byteStores_bounds k hk
      omega

end Records

/-- The string at an address: the bytes before the first NUL, `n` of them at most. -/
def stringAt (m : Memory) : (a n : Nat) → List UInt8
  | _,0 => []
  | a,n+1 => if m a=0 then [] else m a::stringAt m (a+1) n

theorem At.string {m : Memory} {bs : List UInt8} {a n : Nat} (h : At m a (bs++[0])) (h0 : 0∉bs)
    (hn : bs.length < n) : stringAt m a n=bs := by
  induction bs generalizing a n with
  | nil =>
    obtain ⟨n,rfl⟩ := Nat.exists_eq_succ_of_ne_zero (Nat.ne_of_gt hn)
    have hnul : (0 : UInt8)=m a := Option.some.inj (h 0 Nat.one_pos)
    exact if_pos hnul.symm
  | cons b bs ih =>
    obtain ⟨n,rfl⟩ := Nat.exists_eq_succ_of_ne_zero (Nat.ne_of_gt (Nat.zero_lt_of_lt hn))
    rw [List.mem_cons,not_or] at h0
    have hall : At m a ([b]++(bs++[0])) := h
    have hfirst := (at_append.mp hall).1
    have hrest : At m (a+1) (bs++[0]) := (at_append.mp hall).2
    have hb : b=m a := Option.some.inj (hfirst 0 Nat.one_pos)
    rw [stringAt,← hb,if_neg (Ne.symm h0.1),ih hrest h0.2 (Nat.lt_of_succ_lt_succ hn)]

end Cllm.ByteMemory
