import Mathlib.Data.List.GetD
import Mathlib.Tactic.IntervalCases
import Cllm.Libc.Memory

namespace Cllm.Network

open Libc

abbrev ethertypeIp : UInt16 := 0x0800
abbrev ethertypeArp : UInt16 := 0x0806
abbrev ethAddrLen : Nat := 6
abbrev ethHdrLen : Nat := 14

abbrev ipProtoTcp : UInt8 := 6
abbrev ipHdrLen : Nat := 20

abbrev tcpHdrLen : Nat := 20
abbrev tcpFlagFin : UInt8 := 0x01
abbrev tcpFlagSyn : UInt8 := 0x02
abbrev tcpFlagRst : UInt8 := 0x04
abbrev tcpFlagPsh : UInt8 := 0x08
abbrev tcpFlagAck : UInt8 := 0x10

/-- 10.0.2.15 -/
abbrev netIpAddr : UInt32 := 0x0A00020F
abbrev netMtu : Nat := 1500
abbrev netBufSize : Nat := 2048

abbrev Mac := Buffer ethAddrLen
abbrev Frame := List UInt8

def ourMac : Mac := ⟨[0x52,0x54,0x00,0x12,0x34,0x56],rfl⟩
def broadcastMac : Mac := ⟨[0xFF,0xFF,0xFF,0xFF,0xFF,0xFF],rfl⟩

def be16 (x : UInt16) : UInt16 := (x>>>8)|||(x<<<8)

def be32 (x : UInt32) : UInt32 :=
  ((x>>>24)&&&(0xFF : UInt32))|||(((x>>>16)&&&(0xFF : UInt32))<<<8)|||
    (((x>>>8)&&&(0xFF : UInt32))<<<16)|||((x&&&(0xFF : UInt32))<<<24)

/-- A field of a packed struct as the little-endian machine reads it. -/
def load8 (m : List UInt8) (i : Nat) : UInt8 := m.getD i 0

def load16 (m : List UInt8) (i : Nat) : UInt16 :=
  (load8 m i).toUInt16|||((load8 m (i+1)).toUInt16<<<8)

def load32 (m : List UInt8) (i : Nat) : UInt32 :=
  (load8 m i).toUInt32|||((load8 m (i+1)).toUInt32<<<8)|||
    ((load8 m (i+2)).toUInt32<<<16)|||((load8 m (i+3)).toUInt32<<<24)

def store16 (x : UInt16) : List UInt8 := [x.toUInt8,(x>>>8).toUInt8]

def store32 (x : UInt32) : List UInt8 :=
  [x.toUInt8,(x>>>8).toUInt8,(x>>>16).toUInt8,(x>>>24).toUInt8]

@[simp] theorem store16_length (x : UInt16) : (store16 x).length=2 := rfl
@[simp] theorem store32_length (x : UInt32) : (store32 x).length=4 := rfl

/-- What is put above a smaller number adds up. -/
theorem toNat_or_shiftLeft {a b k : UInt32} {n : Nat} (hk : k.toNat=n) (hn : n < 32)
    (ha : a.toNat < 2^n) (hb : b.toNat*2^n < 2^32) :
    (a|||(b<<<k)).toNat=a.toNat+b.toNat*2^n := by
  rw [UInt32.toNat_or,UInt32.toNat_shiftLeft,hk,Nat.mod_eq_of_lt hn,Nat.shiftLeft_eq,
    Nat.mod_eq_of_lt hb,Nat.or_comm,← Nat.shiftLeft_eq,← Nat.shiftLeft_add_eq_or_of_lt ha,
    Nat.shiftLeft_eq,Nat.add_comm]

/-- Four bytes make a word. -/
theorem toNat_bytes {a b c d : UInt32} (ha : a.toNat < 2^8) (hb : b.toNat < 2^8)
    (hc : c.toNat < 2^8) (hd : d.toNat < 2^8) :
    (a|||(b<<<8)|||(c<<<16)|||(d<<<24)).toNat=
      a.toNat+b.toNat*2^8+c.toNat*2^16+d.toNat*2^24 := by
  have hab : (a|||(b<<<8)).toNat=a.toNat+b.toNat*2^8 :=
    toNat_or_shiftLeft rfl (by decide) ha (by omega)
  have habc : (a|||(b<<<8)|||(c<<<16)).toNat=(a|||(b<<<8)).toNat+c.toNat*2^16 :=
    toNat_or_shiftLeft rfl (by decide) (by omega) (by omega)
  have habcd : (a|||(b<<<8)|||(c<<<16)|||(d<<<24)).toNat=
      (a|||(b<<<8)|||(c<<<16)).toNat+d.toNat*2^24 :=
    toNat_or_shiftLeft rfl (by decide) (by omega) (by omega)
  rw [habcd,habc,hab]

theorem toNat_low (x : UInt32) : (x&&&(0xFF : UInt32)).toNat=x.toNat%2^8 := by
  rw [UInt32.toNat_and]
  exact Nat.and_two_pow_sub_one_eq_mod x.toNat 8

theorem be32_toNat (x : UInt32) : (be32 x).toNat=
    x.toNat/2^24%2^8+x.toNat/2^16%2^8*2^8+x.toNat/2^8%2^8*2^16+x.toNat%2^8*2^24 := by
  have hlow (y : UInt32) : (y&&&(0xFF : UInt32)).toNat < 2^8 := by
    rw [toNat_low]
    exact Nat.mod_lt _ (by decide)
  rw [be32,toNat_bytes (hlow _) (hlow _) (hlow _) (hlow _)]
  simp only [toNat_low,UInt32.toNat_shiftRight,Nat.shiftRight_eq_div_pow]
  rfl

/-- The bytes of a number of four bytes. -/
theorem bytes_eq {a b c d : Nat} (ha : a < 2^8) (hb : b < 2^8) (hc : c < 2^8) (hd : d < 2^8) :
    let n := a+b*2^8+c*2^16+d*2^24
    n/2^24%2^8=d ∧ n/2^16%2^8=c ∧ n/2^8%2^8=b ∧ n%2^8=a := by
  intro n
  omega

/-- Swapping the bytes of a field twice gives the field back. -/
theorem be32_be32 (x : UInt32) : be32 (be32 x)=x := by
  have hbyte (n : Nat) : n%2^8 < 2^8 := Nat.mod_lt _ (by decide)
  have hx := x.toNat_lt
  have hsum : x.toNat%2^8+x.toNat/2^8%2^8*2^8+x.toNat/2^16%2^8*2^16+x.toNat/2^24%2^8*2^24=
      x.toNat := by omega
  obtain ⟨h3,h2,h1,h0⟩ := bytes_eq (hbyte (x.toNat/2^24)) (hbyte (x.toNat/2^16))
    (hbyte (x.toNat/2^8)) (hbyte x.toNat)
  apply UInt32.toNat_inj.mp
  rw [be32_toNat,be32_toNat,h3,h2,h1,h0]
  exact hsum

theorem be16_be16 (x : UInt16) : be16 (be16 x)=x := by
  apply UInt16.eq_of_toBitVec_eq
  ext i hi
  simp only [be16,UInt16.toBitVec_or,UInt16.toBitVec_shiftLeft,UInt16.toBitVec_shiftRight]
  interval_cases i <;> simp

theorem join16 (x : UInt16) : x.toUInt8.toUInt16|||((x>>>8).toUInt8.toUInt16<<<8)=x := by
  apply UInt16.eq_of_toBitVec_eq
  ext i hi
  simp only [UInt16.toBitVec_or,UInt16.toBitVec_shiftLeft,UInt16.toBitVec_shiftRight,
    UInt8.toBitVec_toUInt16,UInt16.toBitVec_toUInt8]
  interval_cases i <;> simp

theorem join32 (x : UInt32) :
    x.toUInt8.toUInt32|||((x>>>8).toUInt8.toUInt32<<<8)|||
      ((x>>>16).toUInt8.toUInt32<<<16)|||((x>>>24).toUInt8.toUInt32<<<24)=x := by
  have hbyte (y : UInt32) : y.toUInt8.toUInt32.toNat=y.toNat%2^8 := by
    rw [UInt8.toNat_toUInt32,UInt32.toNat_toUInt8]
  have hlow (y : UInt32) : y.toUInt8.toUInt32.toNat < 2^8 := by
    rw [hbyte]
    exact Nat.mod_lt _ (by decide)
  have hx := x.toNat_lt
  have h8 : (x>>>8).toNat=x.toNat/2^8 := by
    rw [UInt32.toNat_shiftRight,Nat.shiftRight_eq_div_pow]
    rfl
  have h16 : (x>>>16).toNat=x.toNat/2^16 := by
    rw [UInt32.toNat_shiftRight,Nat.shiftRight_eq_div_pow]
    rfl
  have h24 : (x>>>24).toNat=x.toNat/2^24 := by
    rw [UInt32.toNat_shiftRight,Nat.shiftRight_eq_div_pow]
    rfl
  apply UInt32.toNat_inj.mp
  rw [toNat_bytes (hlow _) (hlow _) (hlow _) (hlow _),hbyte,hbyte,hbyte,hbyte,h8,h16,h24]
  omega

theorem load8_append (pre : List UInt8) (b : UInt8) (post : List UInt8) :
    load8 (pre++b::post) pre.length=b := by
  simp [load8,List.getD]

/-- A field read where it was stored is the field. -/
theorem load32_store32 (pre : List UInt8) (x : UInt32) (post : List UInt8) {i : Nat}
    (hi : pre.length=i) : load32 (pre++(store32 x++post)) i=x := by
  subst hi
  have h (k : Nat) (hk : k<4) :
      load8 (pre++(store32 x++post)) (pre.length+k)=(store32 x).getD k 0 := by
    rw [load8,List.getD_append_right _ _ _ _ (by omega),Nat.add_sub_cancel_left,
      List.getD_append _ _ _ _ (by simpa using hk)]
  have h0 := h 0 (by omega)
  rw [Nat.add_zero] at h0
  rw [load32,h0,h 1 (by omega),h 2 (by omega),h 3 (by omega)]
  exact join32 x

end Cllm.Network
