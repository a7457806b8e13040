import Cllm.Network.Dma

namespace Cllm.Network

open Libc Machine ByteMemory

/-- 32 descriptors of 16 bytes, each with the address of its own buffer of 2048. -/
structure RingShown (descs buffers : Nat) (m : Memory) (fields contents : Nat → List UInt8) :
    Prop where
  address : ∀ i < 32,At m (descs+16*i) (bufferAddr (buffers+2048*i))
  fields_at : ∀ i < 32,At m (descs+16*i+8) (fields i)
  contents_at : ∀ i < 32,At m (buffers+2048*i) (contents i)
  eight : ∀ i,(fields i).length=8
  full : ∀ i,(contents i).length=2048

/-- An address in the ring or in its buffers. -/
def InRing (descs buffers x : Nat) : Prop :=
  descs ≤ x ∧ x < descs+512 ∨ buffers ≤ x ∧ x < buffers+65536

/-- The registers of a ring: its descriptors, and its head and tail. -/
structure RingRegs (regs : UInt32 → UInt32) (lo hi len head tail : UInt32) (descs : Nat)
    (h t : Nat) : Prop where
  base : (regs lo).toNat+(regs hi).toNat*2^32=descs
  size : (regs len).toNat=512
  head : (regs head).toNat=h
  tail : (regs tail).toNat=t
  head_lt : h < 32
  tail_lt : t < 32

section Reads

variable {m : Memory} {a : Nat}

theorem byte_of_at {k : Nat} {bs : List UInt8} (h : At m a bs) (hk : k < bs.length) :
    m (a+k)=bs[k] := by
  have hbyte := h k hk
  rw [List.getElem?_eq_getElem hk] at hbyte
  exact (Option.some.inj hbyte).symm

theorem loadHalf_of_at {x : UInt16} (h : At m a (store16 x)) : loadHalf m a=x := by
  have h0 : m a=x.toUInt8 := byte_of_at (k := 0) h Nat.two_pos
  have h1 : m (a+1)=(x>>>8).toUInt8 := byte_of_at (k := 1) h Nat.one_lt_two
  rw [loadHalf,h0,h1]
  exact join16 x

theorem loadWord_of_at {x : UInt32} (h : At m a (store32 x)) : loadWord m a=x.toNat := by
  have byte (k : Nat) (hk : k < 4) : m (a+k)=(store32 x)[k] := byte_of_at h hk
  have h0 : m a=x.toUInt8 := byte 0 (by omega)
  have h1 : m (a+1)=(x>>>8).toUInt8 := byte 1 (by omega)
  have h2 : m (a+2)=(x>>>16).toUInt8 := byte 2 (by omega)
  have h3 : m (a+3)=(x>>>24).toUInt8 := byte 3 (by omega)
  have hx := x.toNat_lt
  rw [loadWord,h0,h1,h2,h3]
  simp only [UInt32.toNat_toUInt8,UInt32.toNat_shiftRight,Nat.shiftRight_eq_div_pow]
  show x.toNat%256+x.toNat/2^8%256*2^8+x.toNat/2^16%256*2^16+x.toNat/2^24%256*2^24=x.toNat
  omega

theorem loadAddress_of_at {b : Nat} (hb : b < 2^32) (h : At m a (bufferAddr b)) :
    loadAddress m a=b := by
  obtain ⟨hlow,hhigh⟩ := at_append.mp h
  rw [store32_length] at hhigh
  rw [loadAddress,loadWord_of_at hlow,loadWord_of_at hhigh,UInt32.toNat_ofNat',
    Nat.mod_eq_of_lt hb]
  rfl

end Reads

namespace RingShown

variable {descs buffers : Nat} {m m' : Memory} {fields contents : Nat → List UInt8}

/-- What happens elsewhere does not show. -/
theorem keep (h : RingShown descs buffers m fields contents)
    (hm : ∀ x,InRing descs buffers x → m' x=m x) :
    RingShown descs buffers m' fields contents := by
  have hfull := h.full
  have height := h.eight
  refine ⟨fun i hi => (h.address i hi).agree fun x hx hx' => hm x (.inl ?_),
    fun i hi => (h.fields_at i hi).agree fun x hx hx' => hm x (.inl ?_),
    fun i hi => (h.contents_at i hi).agree fun x hx hx' => hm x (.inr ?_),height,hfull⟩
  · have hlen : (bufferAddr (buffers+2048*i)).length=8 := rfl
    omega
  · rw [height i] at hx'
    omega
  · rw [hfull i] at hx'
    omega

section Stores

variable (h : RingShown descs buffers m fields contents)
  (hapart : descs+512 ≤ buffers ∨ buffers+65536 ≤ descs) {i : Nat} (hi : i < 32)
include h hapart hi

/-- A field of a descriptor is written. -/
theorem putFields {xs old new ys : List UInt8} (hold : fields i=xs++old++ys)
    (hlen : new.length=old.length) :
    RingShown descs buffers (storeBytes m (byteStores (descs+16*i+8+xs.length) new))
      (Function.update fields i (xs++new++ys)) contents := by
  have height := h.eight i
  rw [hold,List.length_append,List.length_append] at height
  refine ⟨fun j hj => (h.address j hj).stores fun k hk => ?_,fun j hj => ?_,
    fun j hj => (h.contents_at j hj).stores fun k hk => ?_,fun j => ?_,h.full⟩
  · have hbounds := byteStores_bounds k hk
    have hlen8 : (bufferAddr (buffers+2048*j)).length=8 := rfl
    omega
  · by_cases hji : j=i
    · subst hji
      rw [Function.update_self]
      have hfields := h.fields_at j hj
      rw [hold] at hfields
      exact hfields.replace hlen
    · rw [Function.update_of_ne hji]
      refine (h.fields_at j hj).stores fun k hk => ?_
      have hbounds := byteStores_bounds k hk
      have height' := h.eight j
      omega
  · have hbounds := byteStores_bounds k hk
    have hfull := h.full j
    omega
  · by_cases hji : j=i
    · subst hji
      rw [Function.update_self,List.length_append,List.length_append]
      omega
    · rw [Function.update_of_ne hji]
      exact h.eight j

/-- Bytes of a buffer are written. -/
theorem putContents {off : Nat} {bs : List UInt8} (hoff : off+bs.length ≤ 2048) :
    RingShown descs buffers (storeBytes m (byteStores (buffers+2048*i+off) bs)) fields
      (Function.update contents i
        ((contents i).take off++bs++(contents i).drop (off+bs.length))) := by
  have hfull := h.full i
  refine ⟨fun j hj => (h.address j hj).stores fun k hk => ?_,
    fun j hj => (h.fields_at j hj).stores fun k hk => ?_,fun j hj => ?_,h.eight,fun j => ?_⟩
  · have hbounds := byteStores_bounds k hk
    have hlen8 : (bufferAddr (buffers+2048*j)).length=8 := rfl
    omega
  · have hbounds := byteStores_bounds k hk
    have height := h.eight j
    omega
  · by_cases hji : j=i
    · subst hji
      rw [Function.update_self]
      have hcut : contents j=(contents j).take off++((contents j).drop off).take bs.length++
          (contents j).drop (off+bs.length) := by
        rw [List.append_assoc,← List.drop_drop,List.take_append_drop,List.take_append_drop]
      have hcontents := h.contents_at j hj
      rw [hcut] at hcontents
      have htake : ((contents j).take off).length=off := by
        rw [List.length_take]
        omega
      have hlen : bs.length=(((contents j).drop off).take bs.length).length := by
        rw [List.length_take,List.length_drop]
        omega
      have hreplace := hcontents.replace hlen
      rw [htake] at hreplace
      exact hreplace
    · rw [Function.update_of_ne hji]
      refine (h.contents_at j hj).stores fun k hk => ?_
      have hbounds := byteStores_bounds k hk
      have hfull' := h.full j
      omega
  · by_cases hji : j=i
    · subst hji
      rw [Function.update_self,List.length_append,List.length_append,List.length_take,
        List.length_drop]
      omega
    · rw [Function.update_of_ne hji]
      exact h.full j

end Stores

end RingShown

namespace RingRegs

variable {regs regs' : UInt32 → UInt32} {lo hi len head tail : UInt32} {descs h t : Nat}

theorem keep (hr : RingRegs regs lo hi len head tail descs h t)
    (hregs : ∀ reg∈[lo,hi,len,head,tail],regs' reg=regs reg) :
    RingRegs regs' lo hi len head tail descs h t := by
  simp only [List.forall_mem_cons,List.not_mem_nil,false_imp_iff,implies_true,and_true] at hregs
  obtain ⟨hlo,hhi,hlen,hhead,htail⟩ := hregs
  exact ⟨by rw [hlo,hhi,hr.base],by rw [hlen,hr.size],by rw [hhead,hr.head],
    by rw [htail,hr.tail],hr.head_lt,hr.tail_lt⟩

/-- The NIC moves the head. -/
theorem next (hr : RingRegs regs lo hi len head tail descs h t)
    (hnew : head∉[lo,hi,len,tail]) :
    RingRegs
      (Function.update regs head (UInt32.ofNat (((regs head).toNat+1)%((regs len).toNat/16))))
      lo hi len head tail descs ((h+1)%32) t := by
  simp only [List.mem_cons,List.not_mem_nil,or_false,not_or] at hnew
  obtain ⟨hlo,hhi,hlen,htail⟩ := hnew
  refine ⟨?_,?_,?_,?_,Nat.mod_lt _ (by decide),hr.tail_lt⟩
  · rw [Function.update_of_ne (Ne.symm hlo),Function.update_of_ne (Ne.symm hhi),hr.base]
  · rw [Function.update_of_ne (Ne.symm hlen),hr.size]
  · rw [Function.update_self,hr.head,hr.size,UInt32.toNat_ofNat']
    omega
  · rw [Function.update_of_ne (Ne.symm htail),hr.tail]

/-- The driver moves the tail. -/
theorem settle (hr : RingRegs regs lo hi len head tail descs h t)
    (hnew : tail∉[lo,hi,len,head]) {k : Nat} (hk : k < 32) :
    RingRegs (Function.update regs tail (UInt32.ofNat k)) lo hi len head tail descs h k := by
  simp only [List.mem_cons,List.not_mem_nil,or_false,not_or] at hnew
  obtain ⟨hlo,hhi,hlen,hhead⟩ := hnew
  refine ⟨?_,?_,?_,?_,hr.head_lt,hk⟩
  · rw [Function.update_of_ne (Ne.symm hlo),Function.update_of_ne (Ne.symm hhi),hr.base]
  · rw [Function.update_of_ne (Ne.symm hlen),hr.size]
  · rw [Function.update_of_ne (Ne.symm hhead),hr.head]
  · rw [Function.update_self,UInt32.toNat_ofNat']
    omega

theorem head_ne_tail (hr : RingRegs regs lo hi len head tail descs h t) :
    regs head≠regs tail ↔ h≠t := by
  rw [← hr.head,← hr.tail,Ne,Ne,UInt32.toNat_inj]

end RingRegs

abbrev rxRegisters : List UInt32 :=
  [e1000Rxdesclo,e1000Rxdeschi,e1000Rxdesclen,e1000Rxdeschead,e1000Rxdesctail]
abbrev txRegisters : List UInt32 :=
  [e1000Txdesclo,e1000Txdeschi,e1000Txdesclen,e1000Txdeschead,e1000Txdesctail]

/-- The machine shows the receive ring of the model, and the driver's part of it. -/
structure RxShows (P : Placement) (s : E1000) (r : Rx) : Prop where
  ring : RingShown P.rxDescRing P.rxBuffers s.mem (fun i => (r.ring i).fields)
    fun i => (r.buffers i).bytes
  regs : RingRegs s.regs e1000Rxdesclo e1000Rxdeschi e1000Rxdesclen e1000Rxdeschead
    e1000Rxdesctail P.rxDescRing r.rdh r.rdt
  rxHead : s.rxHead=r.rxHead
  rxHead_lt : r.rxHead < 32
  call : s.rxCall=r.call
  sized : ∀ length buffer,r.call=.copying length buffer → length ≤ 2048

structure TxShows (P : Placement) (s : E1000) (t : Tx) : Prop where
  ring : RingShown P.txDescRing P.txBuffers s.mem (fun i => (t.ring i).fields)
    fun i => (t.buffers i).bytes
  regs : RingRegs s.regs e1000Txdesclo e1000Txdeschi e1000Txdesclen e1000Txdeschead
    e1000Txdesctail P.txDescRing t.tdh t.tdt
  txTail : s.txTail=t.txTail
  txTail_lt : t.txTail < 32
  call : s.txCall=t.call
  sized : ∀ i,(t.ring i).length.toNat ≤ 2048

section Placed

variable (P : Placement)

/-- Where the arrays are, in inequalities. -/
theorem Placement.arrays_apart :
    (P.rxDescRing+512 ≤ P.rxBuffers ∨ P.rxBuffers+65536 ≤ P.rxDescRing) ∧
    (P.txDescRing+512 ≤ P.txBuffers ∨ P.txBuffers+65536 ≤ P.txDescRing) ∧
    ∀ x,InRing P.rxDescRing P.rxBuffers x → ¬InRing P.txDescRing P.txBuffers x := by
  have hapart := P.apart
  simp only [Arrays.all,List.pairwise_cons,List.forall_mem_cons,List.not_mem_nil,false_imp_iff,
    implies_true,and_true,List.Pairwise.nil] at hapart
  obtain ⟨⟨h12,h13,h14⟩,⟨h23,h24⟩,h34⟩ := hapart
  have hring : rxDescCount*descSize=512 := rfl
  have hbuffers : rxDescCount*rxBufferSize=65536 := rfl
  simp only [hring,hbuffers] at h12 h13 h14 h23 h24 h34
  refine ⟨by omega,by omega,fun x hrx htx => ?_⟩
  rw [InRing] at hrx htx
  omega

theorem Placement.arrays_fit :
    P.rxDescRing+512 ≤ 2^32 ∧ P.txDescRing+512 ≤ 2^32 ∧ P.rxBuffers+65536 ≤ 2^32 ∧
      P.txBuffers+65536 ≤ 2^32 := by
  have hfits := P.fits
  simp only [Arrays.all,List.forall_mem_cons,List.not_mem_nil,false_imp_iff,implies_true,
    and_true] at hfits
  exact hfits

theorem Placement.covers_iff (x : Nat) : P.Covers x ↔
    InRing P.rxDescRing P.rxBuffers x ∨ InRing P.txDescRing P.txBuffers x := by
  simp only [Arrays.Covers,Arrays.all,List.mem_cons,List.not_mem_nil,or_false,
    exists_eq_or_imp,exists_eq_left,InRing]
  constructor
  · rintro (h|h|h|h)
    · exact .inl (.inl h)
    · exact .inr (.inl h)
    · exact .inl (.inr h)
    · exact .inr (.inr h)
  · rintro ((h|h)|h|h)
    · exact .inl h
    · exact .inr (.inr (.inl h))
    · exact .inr (.inl h)
    · exact .inr (.inr (.inr h))

end Placed

section Keep

variable {P : Placement} {s s' : E1000} {r : Rx} {t : Tx}

theorem RxShows.keep (h : RxShows P s r)
    (hmem : ∀ x,InRing P.rxDescRing P.rxBuffers x → s'.mem x=s.mem x)
    (hregs : ∀ reg∈rxRegisters,s'.regs reg=s.regs reg)
    (hhead : s'.rxHead=s.rxHead) (hcall : s'.rxCall=s.rxCall) : RxShows P s' r :=
  ⟨h.ring.keep hmem,h.regs.keep hregs,hhead.trans h.rxHead,h.rxHead_lt,hcall.trans h.call,
    h.sized⟩

theorem TxShows.keep (h : TxShows P s t)
    (hmem : ∀ x,InRing P.txDescRing P.txBuffers x → s'.mem x=s.mem x)
    (hregs : ∀ reg∈txRegisters,s'.regs reg=s.regs reg)
    (htail : s'.txTail=s.txTail) (hcall : s'.txCall=s.txCall) : TxShows P s' t :=
  ⟨h.ring.keep hmem,h.regs.keep hregs,htail.trans h.txTail,h.txTail_lt,hcall.trans h.call,
    h.sized⟩

end Keep

end Cllm.Network
