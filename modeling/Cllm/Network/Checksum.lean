import Cllm.Framework.OnesComplement
import Cllm.Network.Ip

namespace Cllm.Network

open Libc OnesComplement

theorem littleWord_toNat (a b : UInt8) :
    (a.toUInt32|||(b.toUInt32<<<8)).toNat=a.toNat+256*b.toNat := by
  have ha := a.toNat_lt
  have hb := b.toNat_lt
  have hshift : (b.toUInt32<<<8).toNat=256*b.toNat := by
    simp [Nat.shiftLeft_eq]
    omega
  rw [UInt32.toNat_or,hshift,UInt8.toNat_toUInt32]
  have hor := Nat.two_pow_add_eq_or_of_lt (i := 8) ha b.toNat
  rw [Nat.or_comm,← hor]
  omega

/-- The loop adds up the words of the machine's byte order. -/
theorem wordSum_toNat (s : List UInt8) (sum : UInt32)
    (h : sum.toNat+(littleWords s).sum < 2^32) :
    (wordSum s sum).toNat=sum.toNat+(littleWords s).sum := by
  induction s using littleWords.induct generalizing sum with
  | case1 a b rest ih =>
    simp only [littleWords,List.sum_cons] at h ⊢
    have hadd : (sum+(a.toUInt32|||(b.toUInt32<<<8))).toNat=sum.toNat+(a.toNat+256*b.toNat) := by
      rw [UInt32.toNat_add,littleWord_toNat,Nat.mod_eq_of_lt (by omega)]
    rw [wordSum,ih _ (by omega),hadd]
    omega
  | case2 a =>
    simp only [littleWords,List.sum_singleton] at h ⊢
    rw [wordSum,UInt32.toNat_add,UInt8.toNat_toUInt32,Nat.mod_eq_of_lt (by omega)]
  | case3 => simp [wordSum,littleWords]

theorem foldCarry_spec (sum : UInt32) :
    (foldCarry sum).toNat<65536 ∧ (foldCarry sum).toNat%65535=sum.toNat%65535 := by
  induction sum using foldCarry.induct with
  | case1 sum h =>
    have hshift := highWord_toNat sum
    rw [h] at hshift
    have hz : (0 : UInt32).toNat=0 := rfl
    rw [foldCarry,if_pos h]
    omega
  | case2 sum h ih =>
    have hstep := foldCarry_step sum
    rw [foldCarry,if_neg h]
    omega

/-- A complemented sum fills the sum it belongs to up to a multiple of all ones. -/
theorem complement_fills (sum : UInt32) :
    (sum.toNat+(~~~(foldCarry sum).toUInt16).toNat)%65535=0 := by
  obtain ⟨hlt,hmod⟩ := foldCarry_spec sum
  have hc : (~~~(foldCarry sum).toUInt16).toNat=65535-(foldCarry sum).toNat := by
    rw [UInt16.toNat_not,UInt32.toNat_toUInt16,Nat.mod_eq_of_lt hlt]
    rfl
  rw [hc]
  omega

theorem ipChecksum_fills (data : List UInt8) (h : data.length ≤ netBufSize) :
    ((littleWords data).sum+(ipChecksum data).toNat)%65535=0 := by
  have hsum := littleWords_sum_le data
  have hsize := net_sizes
  have hword := wordSum_toNat data 0 (by simp; omega)
  have hfill := complement_fills (wordSum data 0)
  rw [hword] at hfill
  simpa [ipChecksum] using hfill

theorem pseudoHeader_length (srcIp dstIp : UInt32) (n : Nat) :
    (pseudoHeader srcIp dstIp n).length=12 := rfl

theorem tcpChecksum_fills (srcIp dstIp : UInt32) (seg : List UInt8) (h : seg.length ≤ netBufSize) :
    ((littleWords (pseudoHeader srcIp dstIp seg.length++seg)).sum+
      (tcpChecksum srcIp dstIp seg).toNat)%65535=0 := by
  let ph := pseudoHeader srcIp dstIp seg.length
  have hph : (littleWords ph).sum ≤ 65535*12 := littleWords_sum_le ph
  have hsum := littleWords_sum_le seg
  have hsize := net_sizes
  have hword := wordSum_toNat ph 0 (by simp; omega)
  have hz : (0 : UInt32).toNat=0 := rfl
  have hword' := wordSum_toNat seg (wordSum ph 0) (by omega)
  have hfill := complement_fills (wordSum seg (wordSum ph 0))
  rw [hword',hword,hz,Nat.zero_add] at hfill
  rw [littleWords_append (by rw [pseudoHeader_length]),List.sum_append]
  exact hfill

theorem littleWords_store16 (c : UInt16) : littleWords (store16 c)=[c.toNat] := by
  have h := littleWord_toNat c.toUInt8 (c>>>8).toUInt8
  have hj := congrArg UInt16.toNat (join16 c)
  have h8 : (c>>>8).toUInt8.toNat=c.toNat/256 := by
    have hlt := c.toNat_lt
    rw [UInt16.toNat_toUInt8,UInt16.toNat_shiftRight]
    simp [Nat.shiftRight_eq_div_pow]
    omega
  have h0 : c.toUInt8.toNat=c.toNat%256 := UInt16.toNat_toUInt8 c
  simp only [store16,littleWords,h8,h0,List.cons.injEq,and_true]
  omega

/-- A checksum in a header adds itself to the sum of the header without it. -/
theorem littleWords_checksum {pre : List UInt8} (h : pre.length%2=0) (c : UInt16)
    (post : List UInt8) :
    (littleWords (pre++(store16 c++post))).sum=
      (littleWords (pre++(store16 0++post))).sum+c.toNat := by
  have hs (c : UInt16) : (littleWords (pre++(store16 c++post))).sum=
      (littleWords pre).sum+(c.toNat+(littleWords post).sum) := by
    rw [littleWords_append h,littleWords_append (by rw [store16_length]),littleWords_store16]
    simp
  have hz : (0 : UInt16).toNat=0 := rfl
  rw [hs c,hs 0,hz]
  omega

theorem littleWords_sum_pos {pre : List UInt8} (h : pre.length%2=0) (a b : UInt8)
    (hb : a≠0 ∨ b≠0) (post : List UInt8) : (littleWords (pre++a::b::post)).sum≠0 := by
  rw [littleWords_append h,List.sum_append]
  have hw : a.toNat+256*b.toNat≠0 := by
    intro hz
    have ha : a=0 := UInt8.toNat_inj.mp (by simp; omega)
    have hb' : b=0 := UInt8.toNat_inj.mp (by simp; omega)
    simp [ha,hb'] at hb
  simp only [littleWords,List.sum_cons]
  omega

/-- The receiver's sum over an IP header that net_send_ip has written. -/
theorem ipHeader_sum (proto : UInt8) (dstIp : UInt32) (id : UInt16) (n : Nat) :
    onesSum (bigWords (ipHeader proto dstIp id n (ipChecksum (ipHeader proto dstIp id n 0))))=
      0xFFFF := by
  let pre := [0x45,0]++store16 (be16 (UInt16.ofNat (ipHdrLen+n)))++store16 (be16 id)++
    store16 0++[64,proto]
  let post := store32 (be32 netIpAddr)++store32 (be32 dstIp)
  have hsplit (c : UInt16) : ipHeader proto dstIp id n c=pre++(store16 c++post) := by
    simp [ipHeader,pre,post]
  have hpre : pre.length%2=0 := by simp [pre]
  have hsize : (ipHeader proto dstIp id n 0).length ≤ netBufSize := by
    rw [ipHeader_length]
    decide
  have hfill := ipChecksum_fills (ipHeader proto dstIp id n 0) hsize
  apply onesSum_bigWords
  · rw [hsplit,hsplit,littleWords_checksum hpre]
    rw [hsplit] at hfill
    exact hfill
  · have hnil : ([] : List UInt8).length%2=0 := rfl
    exact littleWords_sum_pos hnil 0x45 0 (.inl (by decide)) _

/-- The receiver's sum over the pseudo header and a segment that net_send_tcp has written. -/
theorem tcpWritten_sum (o : OutSegment) (hl : o.payload.length ≤ tcpPayloadMax) :
    onesSum (bigWords (pseudoHeader netIpAddr o.dstIp (tcpWritten o).length++tcpWritten o))=
      0xFFFF := by
  let ph := pseudoHeader netIpAddr o.dstIp (tcpWritten o).length
  let pre := store16 (be16 o.srcPort)++store16 (be16 o.dstPort)++store32 (be32 o.seq)++
    store32 (be32 o.ack)++[0x50,o.flags]++store16 (be16 4096)
  let post := store16 0++o.payload
  have hsplit (c : UInt16) : ph++(tcpHeader o c++o.payload)=(ph++pre)++(store16 c++post) := by
    simp [tcpHeader,pre,post]
  have hlen : (tcpHeader o 0++o.payload).length=(tcpWritten o).length := by simp
  have hsize := net_sizes
  have hfill := tcpChecksum_fills netIpAddr o.dstIp (tcpHeader o 0++o.payload) (by
    rw [hlen,tcpWritten_length]
    omega)
  rw [hlen] at hfill
  have hpre : (ph++pre).length%2=0 := by simp [ph,pre,pseudoHeader_length]
  apply onesSum_bigWords
  · change (littleWords (ph++tcpWritten o)).sum%65535=0
    rw [tcpWritten,hsplit,littleWords_checksum hpre,← hsplit]
    exact hfill
  · have haddr : (store32 (be32 netIpAddr)++store32 (be32 o.dstIp)).length%2=0 := by simp
    exact littleWords_sum_pos haddr 0 ipProtoTcp (.inr (by decide)) _

end Cllm.Network
