import Mathlib.Tactic.IntervalCases
import Cllm.Framework.Refinement
import Cllm.Network.Pci

namespace Cllm.Network

open Machine

/-- What a write to PCI_CONFIG_DATA does once PCI_CONFIG_ADDRESS has this address, to registers
that keep what is written. -/
def ConfigSpace.put (space : ConfigSpace) (address value : UInt32) : ConfigSpace where
  dword l register :=
    if l=⟨(address>>>16).toUInt8,((address>>>11)&&&(31 : UInt32)).toUInt8,
        ((address>>>8)&&&(7 : UInt32)).toUInt8⟩ ∧ register=(address&&&(0xFC : UInt32)).toUInt8
    then value
    else space.dword l register

section Write

variable (space : ConfigSpace) (bus slot func offset : UInt8)

def pciConfigWrite (value : UInt32) : ConfigSpace :=
  space.put (((1 : UInt32)<<<31)|||(bus.toUInt32<<<16)|||(slot.toUInt32<<<11)|||
    (func.toUInt32<<<8)|||(offset&&&(0xFC : UInt8)).toUInt32) value

def pciWriteDword (value : UInt32) : ConfigSpace := pciConfigWrite space bus slot func offset value

def pciWriteWord (value : UInt16) : ConfigSpace :=
  let tmp := pciConfigRead space bus slot func offset
  let tmp := tmp&&&~~~((0xFFFF : UInt32)<<<((offset&&&(2 : UInt8))*8).toUInt32)
  let tmp := tmp|||(value.toUInt32<<<((offset&&&(2 : UInt8))*8).toUInt32)
  pciConfigWrite space bus slot func offset tmp

def pciWriteByte (value : UInt8) : ConfigSpace :=
  let tmp := pciConfigRead space bus slot func offset
  let tmp := tmp&&&~~~((0xFF : UInt32)<<<((offset&&&(3 : UInt8))*8).toUInt32)
  let tmp := tmp|||(value.toUInt32<<<((offset&&&(3 : UInt8))*8).toUInt32)
  pciConfigWrite space bus slot func offset tmp

end Write

/-- The calls of the driver into pci.c, at a place on the bus. -/
inductive ConfigAccess where
  | readDword (l : Location) (offset : UInt8)
  | readWord (l : Location) (offset : UInt8)
  | readByte (l : Location) (offset : UInt8)
  | writeDword (l : Location) (offset : UInt8) (value : UInt32)
  | writeWord (l : Location) (offset : UInt8) (value : UInt16)
  | writeByte (l : Location) (offset : UInt8) (value : UInt8)

/-- A call, with the bytes of what it returns. -/
def configStep (space : ConfigSpace) : ConfigAccess → ConfigSpace × List (List UInt8)
  | .readDword l offset => (space,[store32 (pciReadDword space l.bus l.slot l.func offset)])
  | .readWord l offset => (space,[store16 (pciReadWord space l.bus l.slot l.func offset)])
  | .readByte l offset => (space,[[pciReadByte space l.bus l.slot l.func offset]])
  | .writeDword l offset value => (pciWriteDword space l.bus l.slot l.func offset value,[])
  | .writeWord l offset value => (pciWriteWord space l.bus l.slot l.func offset value,[])
  | .writeByte l offset value => (pciWriteByte space l.bus l.slot l.func offset value,[])

/-- The bytes in front of each function. -/
abbrev ConfigBytes := Location → UInt8 → UInt8

def ConfigSpace.bytes (space : ConfigSpace) : ConfigBytes := fun l o =>
  (space.dword l (o&&&(0xFC : UInt8))>>>((o&&&(3 : UInt8))*8).toUInt32).toUInt8

/-- The addresses of the doubleword and of the word around an offset. -/
def dwordAt (offset : UInt8) : List UInt8 :=
  [offset&&&(0xFC : UInt8),(offset&&&(0xFC : UInt8))|||1,(offset&&&(0xFC : UInt8))|||2,
    (offset&&&(0xFC : UInt8))|||3]
def wordAt (offset : UInt8) : List UInt8 :=
  [offset&&&(0xFE : UInt8),(offset&&&(0xFE : UInt8))|||1]

def putBytes (m : ConfigBytes) (l : Location) (stores : List (UInt8 × UInt8)) : ConfigBytes :=
  fun k => if k=l then stores.foldl (fun f s => Function.update f s.1 s.2) (m l) else m k

/-- The calls on a space of bytes. -/
def bytesStep (m : ConfigBytes) : ConfigAccess → ConfigBytes × List (List UInt8)
  | .readDword l offset => (m,[(dwordAt offset).map (m l)])
  | .readWord l offset => (m,[(wordAt offset).map (m l)])
  | .readByte l offset => (m,[[m l offset]])
  | .writeDword l offset value => (putBytes m l ((dwordAt offset).zip (store32 value)),[])
  | .writeWord l offset value => (putBytes m l ((wordAt offset).zip (store16 value)),[])
  | .writeByte l offset value => (putBytes m l [(offset,value)],[])

def ConfigAccess.location : ConfigAccess → Location
  | .readDword l _ | .readWord l _ | .readByte l _ => l
  | .writeDword l _ _ | .writeWord l _ _ | .writeByte l _ _ => l

/-- The place is one of the bus. -/
def ConfigAccess.OnBus (a : ConfigAccess) : Prop := a.location.slot < 32 ∧ a.location.func < 8

section Doublewords

/-- A byte of a doubleword, counted from the low end. -/
def byteOf (d : UInt32) (k : UInt8) : UInt8 := (d>>>(k*8).toUInt32).toUInt8

abbrev indices : List UInt8 := [0,1,2,3]

theorem low_mem (o : UInt8) : o&&&(3 : UInt8)∈indices := by
  have hlow : (o&&&(3 : UInt8)).toNat=o.toNat%4 := by
    rw [UInt8.toNat_and]
    exact Nat.and_two_pow_sub_one_eq_mod o.toNat 2
  have hlt := Nat.mod_lt o.toNat (by decide : 4>0)
  simp only [List.mem_cons,List.not_mem_nil,or_false,← UInt8.toNat_inj,hlow]
  show _=0 ∨ _=1 ∨ _=2 ∨ _=3
  omega

theorem even_mem (o : UInt8) : o&&&(2 : UInt8)∈[(0 : UInt8),2] := by
  have heven : o&&&(2 : UInt8)=(o&&&(3 : UInt8))&&&(2 : UInt8) := by
    rw [UInt8.and_assoc]
    rfl
  rw [heven]
  have hcases : ∀ k∈indices,k&&&(2 : UInt8)∈[(0 : UInt8),2] := by
    simp only [List.forall_mem_cons,List.not_mem_nil,false_imp_iff,implies_true,and_true]
    decide
  exact hcases _ (low_mem o)

/-- What an offset is made of. -/
theorem offset_ext {o p : UInt8} (hhigh : o&&&(0xFC : UInt8)=p&&&(0xFC : UInt8))
    (hlow : o&&&(3 : UInt8)=p&&&(3 : UInt8)) : o=p := by
  have hparts (x : UInt8) : x=(x&&&(0xFC : UInt8))|||(x&&&(3 : UInt8)) := by
    apply UInt8.eq_of_toBitVec_eq
    ext i hi
    interval_cases i <;> simp
  rw [hparts o,hparts p,hhigh,hlow]

theorem byteOf_replace (d m v : UInt32) (k : UInt8) :
    byteOf (d&&&m|||v) k=byteOf d k&&&byteOf m k|||byteOf v k := by
  rw [byteOf,UInt32.shiftRight_or,UInt32.shiftRight_and,UInt32.toUInt8_or,UInt32.toUInt8_and]
  rfl

theorem byteOf_byteMask : ∀ j∈indices,∀ k∈indices,
    byteOf (~~~((0xFF : UInt32)<<<(j*8).toUInt32)) k=if k=j then 0 else 0xFF := by
  simp only [List.forall_mem_cons,List.not_mem_nil,false_imp_iff,implies_true,and_true]
  decide

theorem byteOf_wordMask : ∀ j∈[(0 : UInt8),2],∀ k∈indices,
    byteOf (~~~((0xFFFF : UInt32)<<<(j*8).toUInt32)) k=if k=j+1 ∨ k=j then 0 else 0xFF := by
  simp only [List.forall_mem_cons,List.not_mem_nil,false_imp_iff,implies_true,and_true]
  decide

theorem byteOf_byte (v : UInt8) : ∀ j∈indices,∀ k∈indices,
    byteOf (v.toUInt32<<<(j*8).toUInt32) k=if k=j then v else 0 := by
  simp only [List.forall_mem_cons,List.not_mem_nil,false_imp_iff,implies_true,and_true]
  refine ⟨⟨?_,?_,?_,?_⟩,⟨?_,?_,?_,?_⟩,⟨?_,?_,?_,?_⟩,⟨?_,?_,?_,?_⟩⟩
  all_goals
    apply UInt8.eq_of_toBitVec_eq
    ext i hi
    interval_cases i <;> simp [byteOf]

theorem byteOf_word (v : UInt16) : ∀ j∈[(0 : UInt8),2],∀ k∈indices,
    byteOf (v.toUInt32<<<(j*8).toUInt32) k=
      if k=j+1 then (v>>>8).toUInt8 else if k=j then v.toUInt8 else 0 := by
  simp only [List.forall_mem_cons,List.not_mem_nil,false_imp_iff,implies_true,and_true]
  refine ⟨⟨?_,?_,?_,?_⟩,⟨?_,?_,?_,?_⟩⟩
  all_goals
    apply UInt8.eq_of_toBitVec_eq
    ext i hi
    interval_cases i <;> simp [byteOf]

theorem bytes_byte (d : UInt32) (k : UInt8) :
    ((d>>>(k*8).toUInt32)&&&(0xFF : UInt32)).toUInt8=byteOf d k := by
  rw [UInt32.toUInt8_and]
  exact UInt8.and_neg_one

theorem bytes_word (d : UInt32) : ∀ j∈[(0 : UInt8),2],
    store16 ((d>>>(j*8).toUInt32)&&&(0xFFFF : UInt32)).toUInt16=
      [byteOf d j,byteOf d (j+1)] := by
  simp only [List.forall_mem_cons,List.not_mem_nil,false_imp_iff,implies_true,and_true]
  refine ⟨?_,?_⟩
  all_goals
    refine congrArg₂ (fun a b => [a,b]) ?_ ?_
    all_goals
      apply UInt8.eq_of_toBitVec_eq
      ext i hi
      interval_cases i <;> simp [byteOf]

theorem bytes_dword (d : UInt32) : store32 d=indices.map (byteOf d) := by
  simp [store32,byteOf]

end Doublewords

section Addresses

variable (o : UInt8)

theorem wordAt_high : ∀ a∈wordAt o,a&&&(0xFC : UInt8)=o&&&(0xFC : UInt8) := by
  simp only [wordAt,List.forall_mem_cons,List.not_mem_nil,false_imp_iff,implies_true,and_true]
  refine ⟨?_,?_⟩
  all_goals
    apply UInt8.eq_of_toBitVec_eq
    ext i hi
    interval_cases i <;> simp

theorem wordAt_low :
    (wordAt o).map (fun a => a&&&(3 : UInt8))=[o&&&(2 : UInt8),(o&&&(2 : UInt8))+1] := by
  have hsucc : ∀ j∈[(0 : UInt8),2],j+1=j|||1 := by
    simp only [List.forall_mem_cons,List.not_mem_nil,false_imp_iff,implies_true,and_true]
    decide
  rw [hsucc _ (even_mem o)]
  refine congrArg₂ (fun a b => [a,b]) ?_ ?_
  all_goals
    apply UInt8.eq_of_toBitVec_eq
    ext i hi
    interval_cases i <;> simp

theorem dwordAt_high : ∀ a∈dwordAt o,a&&&(0xFC : UInt8)=o&&&(0xFC : UInt8) := by
  simp only [dwordAt,List.forall_mem_cons,List.not_mem_nil,false_imp_iff,implies_true,and_true]
  refine ⟨?_,?_,?_,?_⟩
  all_goals
    apply UInt8.eq_of_toBitVec_eq
    ext i hi
    interval_cases i <;> simp

theorem dwordAt_low : (dwordAt o).map (fun a => a&&&(3 : UInt8))=indices := by
  have four {a b c d a' b' c' d' : UInt8} (ha : a=a') (hb : b=b') (hc : c=c') (hd : d=d') :
      [a,b,c,d]=[a',b',c',d'] := by rw [ha,hb,hc,hd]
  apply four
  all_goals
    apply UInt8.eq_of_toBitVec_eq
    ext i hi
    interval_cases i <;> simp

end Addresses

section Steps

variable (space : ConfigSpace) {l : Location} (offset : UInt8)

/-- The host bridge writes to the function and the register that were meant. -/
theorem pciConfigWrite_dword (hslot : l.slot < 32) (hfunc : l.func < 8) (value : UInt32)
    (k : Location) (register : UInt8) :
    (pciConfigWrite space l.bus l.slot l.func offset value).dword k register=
      if k=l ∧ register=offset&&&(0xFC : UInt8) then value else space.dword k register := by
  -- a space that is 1 where the address points to, and 0 elsewhere
  have hread (m : ConfigSpace) := @pciConfigRead_eq m l.bus l.slot l.func offset hslot hfunc
  simp only [pciConfigRead,ConfigSpace.answer] at hread
  rw [pciConfigWrite,ConfigSpace.put]
  generalize ((1 : UInt32)<<<31)|||(l.bus.toUInt32<<<16)|||(l.slot.toUInt32<<<11)|||
    (l.func.toUInt32<<<8)|||(offset&&&(0xFC : UInt8)).toUInt32=address at hread
  dsimp only
  generalize (⟨(address>>>16).toUInt8,((address>>>11)&&&(31 : UInt32)).toUInt8,
    ((address>>>8)&&&(7 : UInt32)).toUInt8⟩ : Location)=place at hread
  generalize (address&&&(0xFC : UInt32)).toUInt8=cell at hread
  have hmark := hread ⟨fun k register => if k=place ∧ register=cell then 1 else 0⟩
  simp only [and_self,if_true] at hmark
  by_cases hhere : l=place ∧ offset&&&(0xFC : UInt8)=cell
  · obtain ⟨rfl,rfl⟩ := hhere
    rfl
  · have hno : ¬((⟨l.bus,l.slot,l.func⟩ : Location)=place ∧ offset&&&(0xFC : UInt8)=cell) := hhere
    rw [if_neg hno] at hmark
    exact absurd hmark (by decide)

theorem offset_eq_iff {o a : UInt8} (hhigh : o&&&(0xFC : UInt8)=a&&&(0xFC : UInt8)) :
    o=a ↔ o&&&(3 : UInt8)=a&&&(3 : UInt8) :=
  ⟨fun h => by rw [h],offset_ext hhigh⟩

/-- A doubleword written is its bytes stored. -/
theorem bytes_write (hslot : l.slot < 32) (hfunc : l.func < 8) {value : UInt32}
    {stores : List (UInt8 × UInt8)}
    (h : ∀ o,stores.foldl (fun f s => Function.update f s.1 s.2) (space.bytes l) o=
      if o&&&(0xFC : UInt8)=offset&&&(0xFC : UInt8) then byteOf value (o&&&(3 : UInt8))
      else space.bytes l o) :
    (pciConfigWrite space l.bus l.slot l.func offset value).bytes=
      putBytes space.bytes l stores := by
  funext k o
  rw [ConfigSpace.bytes,pciConfigWrite_dword space offset hslot hfunc,putBytes]
  by_cases hk : k=l
  · subst hk
    rw [if_pos rfl,h]
    by_cases hhigh : o&&&(0xFC : UInt8)=offset&&&(0xFC : UInt8)
    · rw [if_pos ⟨rfl,hhigh⟩,if_pos hhigh]
      rfl
    · rw [if_neg fun hno => hhigh hno.2,if_neg hhigh]
      rfl
  · rw [if_neg fun hno => hk hno.1,if_neg hk]
    rfl

theorem bytes_writeByte (hslot : l.slot < 32) (hfunc : l.func < 8) (value : UInt8) :
    (pciWriteByte space l.bus l.slot l.func offset value).bytes=
      putBytes space.bytes l [(offset,value)] := by
  apply bytes_write space offset hslot hfunc
  intro o
  rw [pciConfigRead_eq space offset hslot hfunc]
  show Function.update _ _ _ o=_
  rw [Function.update_apply]
  by_cases hhigh : o&&&(0xFC : UInt8)=offset&&&(0xFC : UInt8)
  · rw [if_pos hhigh,byteOf_replace,byteOf_byteMask _ (low_mem offset) _ (low_mem o),
      byteOf_byte value _ (low_mem offset) _ (low_mem o),ConfigSpace.bytes,hhigh]
    simp only [offset_eq_iff hhigh]
    split_ifs
    · simp
    · rw [UInt8.or_zero]
      exact UInt8.and_neg_one.symm
  · rw [if_neg hhigh,if_neg fun hno => hhigh (by rw [hno])]

theorem bytes_writeWord (hslot : l.slot < 32) (hfunc : l.func < 8) (value : UInt16) :
    (pciWriteWord space l.bus l.slot l.func offset value).bytes=
      putBytes space.bytes l ((wordAt offset).zip (store16 value)) := by
  have hlow := wordAt_low offset
  have hhighs := wordAt_high offset
  apply bytes_write space offset hslot hfunc
  intro o
  rw [pciConfigRead_eq space offset hslot hfunc]
  rw [wordAt] at hlow hhighs ⊢
  generalize offset&&&(0xFE : UInt8)=a at hlow hhighs ⊢
  have ha := hhighs a (by simp)
  have hb := hhighs (a|||1) (by simp)
  obtain ⟨hlow0,hlow1⟩ : a&&&(3 : UInt8)=offset&&&(2 : UInt8) ∧
      (a|||1)&&&(3 : UInt8)=(offset&&&(2 : UInt8))+1 := by simpa using hlow
  show Function.update (Function.update _ a _) (a|||1) _ o=_
  rw [Function.update_apply,Function.update_apply]
  by_cases hhigh : o&&&(0xFC : UInt8)=offset&&&(0xFC : UInt8)
  · have h1 := offset_eq_iff (hhigh.trans hb.symm)
    have h0 := offset_eq_iff (hhigh.trans ha.symm)
    rw [hlow1] at h1
    rw [hlow0] at h0
    rw [if_pos hhigh,byteOf_replace,byteOf_wordMask _ (even_mem offset) _ (low_mem o),
      byteOf_word value _ (even_mem offset) _ (low_mem o),ConfigSpace.bytes,hhigh]
    simp only [h0,h1]
    by_cases hone : o&&&(3 : UInt8)=(offset&&&(2 : UInt8))+1
    · rw [if_pos hone,if_pos (.inl hone),if_pos hone,UInt8.and_zero,UInt8.zero_or]
    · rw [if_neg hone,if_neg hone]
      by_cases hzero : o&&&(3 : UInt8)=offset&&&(2 : UInt8)
      · rw [if_pos hzero,if_pos (.inr hzero),if_pos hzero,UInt8.and_zero,UInt8.zero_or]
      · rw [if_neg hzero,if_neg (not_or.mpr ⟨hone,hzero⟩),if_neg hzero,UInt8.or_zero]
        exact UInt8.and_neg_one.symm
  · have h1 : o≠a|||1 := fun hno => hhigh (by rw [hno,hb])
    have h0 : o≠a := fun hno => hhigh (by rw [hno,ha])
    rw [if_neg hhigh,if_neg h1,if_neg h0]

theorem bytes_writeDword (hslot : l.slot < 32) (hfunc : l.func < 8) (value : UInt32) :
    (pciWriteDword space l.bus l.slot l.func offset value).bytes=
      putBytes space.bytes l ((dwordAt offset).zip (store32 value)) := by
  have hlow := dwordAt_low offset
  have hhighs := dwordAt_high offset
  apply bytes_write space offset hslot hfunc
  intro o
  rw [bytes_dword]
  rw [dwordAt] at hlow hhighs ⊢
  generalize offset&&&(0xFC : UInt8)=a at hlow hhighs ⊢
  obtain ⟨hlow0,hlow1,hlow2,hlow3⟩ : a&&&(3 : UInt8)=0 ∧ (a|||1)&&&(3 : UInt8)=1 ∧
      (a|||2)&&&(3 : UInt8)=2 ∧ (a|||3)&&&(3 : UInt8)=3 := by simpa using hlow
  show Function.update (Function.update (Function.update (Function.update _ a _) (a|||1) _)
    (a|||2) _) (a|||3) _ o=_
  simp only [Function.update_apply]
  by_cases hhigh : o&&&(0xFC : UInt8)=a
  · have hcell (b : UInt8) (hb : b∈[a,a|||1,a|||2,a|||3]) :=
      offset_eq_iff (hhigh.trans (hhighs b hb).symm)
    have h0 := hcell a (by simp)
    have h1 := hcell (a|||1) (by simp)
    have h2 := hcell (a|||2) (by simp)
    have h3 := hcell (a|||3) (by simp)
    rw [hlow0] at h0
    rw [hlow1] at h1
    rw [hlow2] at h2
    rw [hlow3] at h3
    rw [if_pos hhigh]
    simp only [h0,h1,h2,h3]
    have hmem := low_mem o
    split_ifs with hthree htwo hone hzero
    · rw [hthree]
    · rw [htwo]
    · rw [hone]
    · rw [hzero]
    · simp [hthree,htwo,hone,hzero] at hmem
  · have hother (b : UInt8) (hb : b∈[a,a|||1,a|||2,a|||3]) : o≠b :=
      fun hno => hhigh (by rw [hno,hhighs b hb])
    rw [if_neg hhigh,if_neg (hother _ (by simp)),if_neg (hother _ (by simp)),
      if_neg (hother _ (by simp)),if_neg (hother _ (by simp))]

/-- The bytes of a doubleword, one by one. -/
theorem map_bytes {as : List UInt8} (h : ∀ a∈as,a&&&(0xFC : UInt8)=offset&&&(0xFC : UInt8)) :
    as.map (space.bytes l)=
      (as.map fun a => a&&&(3 : UInt8)).map
        (byteOf (space.dword l (offset&&&(0xFC : UInt8)))) := by
  rw [List.map_map]
  refine List.map_congr_left fun a ha => ?_
  rw [ConfigSpace.bytes,h a ha]
  rfl

end Steps

/-- One call. -/
theorem configStep_bytes (space : ConfigSpace) {a : ConfigAccess} (h : a.OnBus) :
    (configStep space a).2=(bytesStep space.bytes a).2 ∧
      (configStep space a).1.bytes=(bytesStep space.bytes a).1 := by
  cases a with
  | readDword l offset =>
    obtain ⟨hslot,hfunc⟩ : l.slot < 32 ∧ l.func < 8 := h
    refine ⟨?_,rfl⟩
    show [store32 (pciReadDword space l.bus l.slot l.func offset)]=[_]
    rw [pciReadDword,pciConfigRead_eq space offset hslot hfunc,
      map_bytes space offset (dwordAt_high offset),dwordAt_low,bytes_dword]
  | readWord l offset =>
    obtain ⟨hslot,hfunc⟩ : l.slot < 32 ∧ l.func < 8 := h
    refine ⟨?_,rfl⟩
    show [store16 (pciReadWord space l.bus l.slot l.func offset)]=[_]
    rw [pciReadWord,pciConfigRead_eq space offset hslot hfunc,
      map_bytes space offset (wordAt_high offset),wordAt_low,bytes_word _ _ (even_mem offset)]
    rfl
  | readByte l offset =>
    obtain ⟨hslot,hfunc⟩ : l.slot < 32 ∧ l.func < 8 := h
    refine ⟨?_,rfl⟩
    show [[pciReadByte space l.bus l.slot l.func offset]]=[[_]]
    rw [pciReadByte,pciConfigRead_eq space offset hslot hfunc,bytes_byte]
    rfl
  | writeDword l offset value => exact ⟨rfl,bytes_writeDword space offset h.1 h.2 value⟩
  | writeWord l offset value => exact ⟨rfl,bytes_writeWord space offset h.1 h.2 value⟩
  | writeByte l offset value => exact ⟨rfl,bytes_writeByte space offset h.1 h.2 value⟩

/-- Through the calls of pci.c the configuration space is a space of bytes: each call reads and
writes the bytes of its own unit, and no others, whatever has been written before. -/
theorem configRun_bytes (space : ConfigSpace) {as : List ConfigAccess} (h : ∀ a∈as,a.OnBus) :
    outputs configStep space as=outputs bytesStep space.bytes as ∧
      (runState configStep space as).bytes=runState bytesStep space.bytes as :=
  lockstep configStep bytesStep (fun s m => s.bytes=m) (P := fun _ a => a.OnBus)
    (fun s m a hs ha => by
      subst hs
      exact configStep_bytes s ha) rfl (along_of_mem configStep h space)

/-- The command register of a function is set, and its neighbour the status register is not
touched. -/
theorem configRun_bytes_command :
    let space : ConfigSpace := ⟨fun _ _ => 0x12345678⟩
    let accesses : List ConfigAccess :=
      [.writeWord ⟨0,3,0⟩ 4 0xABCD,.readWord ⟨0,3,0⟩ 6,.readDword ⟨0,3,0⟩ 4]
    outputs configStep space accesses=outputs bytesStep space.bytes accesses ∧
      (runState configStep space accesses).bytes=runState bytesStep space.bytes accesses :=
  configRun_bytes _ (by
    simp only [List.forall_mem_cons,List.not_mem_nil,false_imp_iff,implies_true,and_true]
    exact ⟨⟨by decide,by decide⟩,⟨by decide,by decide⟩,⟨by decide,by decide⟩⟩)

end Cllm.Network
