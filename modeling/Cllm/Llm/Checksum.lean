import Cllm.Framework.ShiftRegister
import Cllm.Libc.Memory

namespace Cllm.Llm

open Libc ShiftRegister

/-- The body of the loop over the bits. -/
def crcBit (crc : UInt32) : UInt32 :=
  if crc&&&1≠0 then (crc>>>1)^^^0xEDB88320 else crc>>>1

/-- The body of the loop over the bytes. -/
def crcByte (crc : UInt32) (b : UInt8) : UInt32 := crcBit^[8] (crc^^^b.toUInt32)

def crc32Calc {size : Nat} (data : Buffer size) : UInt32 :=
  data.bytes.foldl crcByte 0xFFFFFFFF^^^0xFFFFFFFF

/-- `none` is a null pointer. -/
def cCalculateModelChecksum {size : Nat} : Option (Buffer size) → UInt32
  | none => 0
  | some data => if size=0 then 0 else crc32Calc data

def crcPolynomial : BitVec 32 := 0xEDB88320

theorem crcPolynomial_top : crcPolynomial.getLsbD (32-1)=true := by decide

theorem and_one_ne_zero_iff (c : UInt32) : c&&&1≠0 ↔ c.toBitVec.getLsbD 0=true := by
  have hbits : (c&&&1).toBitVec=(BitVec.ofBool (c.toBitVec.getLsbD 0)).setWidth 32 := by
    rw [UInt32.toBitVec_and]
    exact BitVec.and_one_eq_setWidth_ofBool_getLsbD
  rw [Ne,← UInt32.toBitVec_inj,hbits]
  cases c.toBitVec.getLsbD 0
  · decide
  · decide

theorem crcBit_toBitVec (c : UInt32) : (crcBit c).toBitVec=step crcPolynomial c.toBitVec := by
  rw [crcBit,step]
  by_cases h : c&&&1≠0
  · rw [if_pos h,if_pos ((and_one_ne_zero_iff c).mp h)]
    rfl
  · rw [if_neg h,if_neg (fun hlow => h ((and_one_ne_zero_iff c).mpr hlow))]
    rfl

theorem crcByte_toBitVec (c : UInt32) (b : UInt8) :
    (crcByte c b).toBitVec=feed crcPolynomial c.toBitVec b.toBitVec := by
  have hbits (n : Nat) (x : UInt32) :
      (crcBit^[n] x).toBitVec=(step crcPolynomial)^[n] x.toBitVec :=
    Function.Semiconj.iterate_right (f := UInt32.toBitVec) crcBit_toBitVec n x
  rw [crcByte,feed,hbits,UInt32.toBitVec_xor,UInt8.toBitVec_toUInt32]

theorem crcBytes_toBitVec (bs : List UInt8) (c : UInt32) :
    (bs.foldl crcByte c).toBitVec=run crcPolynomial c.toBitVec (bs.map UInt8.toBitVec) := by
  induction bs generalizing c with
  | nil => rfl
  | cons b bs ih =>
    rw [List.foldl_cons,ih,crcByte_toBitVec]
    rfl

/-- A change of at most four bytes in a row, between what stays as it is. -/
theorem crcBytes_burst_ne {bs cs : List UInt8} (hlen : bs.length=cs.length)
    (hfour : bs.length ≤ 4) (hne : bs≠cs) (before after : List UInt8) (c : UInt32) :
    (before++bs++after).foldl crcByte c≠(before++cs++after).foldl crcByte c := by
  intro h
  have hbits := congrArg UInt32.toBitVec h
  simp only [crcBytes_toBitVec,List.map_append] at hbits
  refine run_burst_ne crcPolynomial_top c.toBitVec ?_ ?_ ?_ _ _ hbits
  · rw [List.length_map,List.length_map,hlen]
  · rw [List.length_map]
    omega
  · intro hmap
    exact hne ((List.map_injective_iff.mpr fun _ _ => UInt8.toBitVec_inj.mp) hmap)

/-- Images of one size that differ, but nowhere outside four bytes in a row, have different
checksums. -/
theorem checksum_detects_burst {size : Nat} (hsize : 1 ≤ size) {x y : Buffer size} (hne : x≠y)
    (i : Nat) (hburst : ∀ j,x.bytes[j]?≠y.bytes[j]? → i ≤ j ∧ j < i+4) :
    cCalculateModelChecksum (some x)≠cCalculateModelChecksum (some y) := by
  have hsame (j : Nat) (hj : ¬(i ≤ j ∧ j < i+4)) : x.bytes[j]?=y.bytes[j]? := by
    by_contra hdiff
    exact hj (hburst j hdiff)
  have hbefore : x.bytes.take i=y.bytes.take i := by
    apply List.ext_getElem?
    intro j
    rw [List.getElem?_take,List.getElem?_take]
    split_ifs with hj
    · exact hsame j (by omega)
    · rfl
  have hafter : x.bytes.drop (i+4)=y.bytes.drop (i+4) := by
    apply List.ext_getElem?
    intro j
    rw [List.getElem?_drop,List.getElem?_drop]
    exact hsame _ (by omega)
  have hsplit (b : Buffer size) :
      b.bytes=b.bytes.take i++(b.bytes.drop i).take 4++b.bytes.drop (i+4) := by
    rw [List.append_assoc,← List.drop_drop,List.take_append_drop,List.take_append_drop]
  have hmid : (x.bytes.drop i).take 4≠(y.bytes.drop i).take 4 := by
    intro hmid
    have hbytes : x.bytes=y.bytes := by rw [hsplit x,hsplit y,hbefore,hmid,hafter]
    obtain ⟨bs,hbs⟩ := x
    obtain ⟨cs,hcs⟩ := y
    cases hbytes
    exact hne rfl
  intro h
  have hpos : size≠0 := by omega
  simp only [cCalculateModelChecksum,if_neg hpos,crc32Calc,UInt32.xor_left_inj] at h
  rw [hsplit x,hsplit y,hbefore,hafter] at h
  refine crcBytes_burst_ne ?_ ?_ hmid _ _ _ h
  · rw [List.length_take,List.length_take,List.length_drop,List.length_drop,x.size,y.size]
  · rw [List.length_take]
    omega

theorem last_byte_detected :
    cCalculateModelChecksum (some (⟨[71,71,85,70,3],rfl⟩ : Buffer 5))≠
      cCalculateModelChecksum (some ⟨[71,71,85,70,2],rfl⟩) := by
  apply checksum_detects_burst (by decide) (by decide) 4
  intro j hj
  match j with
  | 0 | 1 | 2 | 3 => exact absurd rfl hj
  | 4 => decide
  | j+5 => exact absurd rfl hj

end Cllm.Llm
