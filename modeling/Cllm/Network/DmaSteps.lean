import Cllm.Network.DmaRings

namespace Cllm.Network

open Libc Machine ByteMemory

/-- What a step of the receive side leaves alone. -/
structure OnlyRx (P : Placement) (s s' : E1000) : Prop where
  mem : ∀ x,¬InRing P.rxDescRing P.rxBuffers x → s'.mem x=s.mem x
  regs : ∀ reg∉rxRegisters,s'.regs reg=s.regs reg
  txTail : s'.txTail=s.txTail
  txCall : s'.txCall=s.txCall
  pc : s'.pc=s.pc

structure OnlyTx (P : Placement) (s s' : E1000) : Prop where
  mem : ∀ x,¬InRing P.txDescRing P.txBuffers x → s'.mem x=s.mem x
  regs : ∀ reg∉txRegisters,s'.regs reg=s.regs reg
  rxHead : s'.rxHead=s.rxHead
  rxCall : s'.rxCall=s.rxCall
  pc : s'.pc=s.pc

/-- A step in memory that is a step of the model. -/
structure RxStep (P : Placement) (s : E1000) (c : E1000 × List RingEvent)
    (m : Rx × List RxEvent) : Prop where
  events : c.2=m.2.map .rx
  shows : RxShows P c.1 m.1
  only : OnlyRx P s c.1

structure TxStep (P : Placement) (s : E1000) (c : E1000 × List RingEvent)
    (m : Tx × List TxEvent) : Prop where
  events : c.2=m.2.map .tx
  shows : TxShows P c.1 m.1
  only : OnlyTx P s c.1

section Common

variable {P : Placement} {s : E1000}

theorem onlyRx_refl (P : Placement) (s : E1000) : OnlyRx P s s :=
  ⟨fun _ _ => rfl,fun _ _ => rfl,rfl,rfl,rfl⟩

theorem onlyTx_refl (P : Placement) (s : E1000) : OnlyTx P s s :=
  ⟨fun _ _ => rfl,fun _ _ => rfl,rfl,rfl,rfl⟩

/-- Stores within a range change nothing else. -/
theorem put_of_ne {a x : Nat} {bs : List UInt8} (h : x < a ∨ a+bs.length ≤ x) :
    (s.put a bs).mem x=s.mem x := by
  refine storeBytes_of_ne fun k hk => ?_
  have hbounds := byteStores_bounds k hk
  omega

theorem writeReg_of_settled (hs : ¬s.InReset) {reg value : UInt32} (hreg : reg≠e1000Ctrl) :
    s.writeReg reg value={s with regs := Function.update s.regs reg value} := by
  rw [E1000.writeReg,if_neg fun hno => hreg hno.1,if_neg hs]

theorem descAt_eq {lo hi len head tail : UInt32} {descs h t : Nat}
    (hr : RingRegs s.regs lo hi len head tail descs h t) :
    descAt s lo hi head=descs+16*h := by
  rw [descAt,hr.base,hr.head]

end Common

section Receive

variable {P : Placement} {s : E1000} {r : Rx}

theorem dmaReceive_step (h : RxShows P s r) (hon : s.Receiving) (frame : RxFrame)
    (report : RxDesc) : RxStep P s (dmaReceive s frame report) (nicReceive frame report r) := by
  obtain ⟨hapart,-,-⟩ := P.arrays_apart
  obtain ⟨-,-,hfit,-⟩ := P.arrays_fit
  have hlt := h.regs.head_lt
  have hsize : frame.1.length ≤ 2048 := frame.2
  by_cases hne : r.rdh=r.rdt
  · rw [dmaReceive,if_neg fun hno => h.regs.head_ne_tail.mp hno.2 hne,nicReceive,if_pos hne]
    exact ⟨rfl,h,onlyRx_refl P s⟩
  · have haddress : loadAddress s.mem (P.rxDescRing+16*r.rdh)=P.rxBuffers+2048*r.rdh :=
      loadAddress_of_at (by omega) (h.ring.address _ hlt)
    rw [dmaReceive,if_pos ⟨hon,h.regs.head_ne_tail.mpr hne⟩,nicReceive,if_neg hne]
    simp only [descAt_eq h.regs,haddress]
    generalize hd : ({report with
      length := UInt16.ofNat frame.1.length,status := report.status|||rxdStatDd} : RxDesc)=d
    refine ⟨rfl,⟨?_,?_,h.rxHead,h.rxHead_lt,h.call,h.sized⟩,⟨fun x hx => ?_,fun reg hreg => ?_,
      rfl,rfl,rfl⟩⟩
    · have hold : (r.ring r.rdh).fields=[]++(r.ring r.rdh).fields++[] := rfl
      have hring := (h.ring.putContents hapart hlt (by omega : 0+frame.1.length ≤ 2048)).putFields
        hapart hlt hold (rfl : d.fields.length=(r.ring r.rdh).fields.length)
      simp only [Function.apply_update fun _ => RxDesc.fields,
        Function.apply_update fun _ => Buffer.bytes]
      exact hring
    · exact h.regs.next (by decide)
    · rw [InRing] at hx
      have hlen : d.fields.length=8 := rfl
      show ((s.put _ _).put _ _).mem x=s.mem x
      rw [put_of_ne (by omega),put_of_ne (by omega)]
    · have hhead : reg≠e1000Rxdeschead := fun hno => hreg (by rw [hno]; decide)
      exact Function.update_of_ne hhead ..

/-- What the driver reads of a descriptor. -/
theorem RxShows.status (h : RxShows P s r) :
    s.mem (P.rxDesc s.rxHead+12)=(r.ring r.rxHead).status := by
  rw [h.rxHead]
  exact byte_of_at (k := 4) (h.ring.fields_at _ h.rxHead_lt) (by decide : 4 < 8)

theorem RxShows.length (h : RxShows P s r) :
    loadHalf s.mem (P.rxDesc s.rxHead+8)=(r.ring r.rxHead).length := by
  rw [h.rxHead]
  exact loadHalf_of_at (h.ring.fields_at _ h.rxHead_lt |>.take 2)

theorem RxShows.byte (h : RxShows P s r) {k : Nat} (hk : k < 2048) :
    s.mem (P.rxBuffer s.rxHead+k)=load8 (r.buffers r.rxHead).bytes k := by
  have hlen : k < (r.buffers r.rxHead).bytes.length := by
    rw [(r.buffers r.rxHead).size]
    exact hk
  rw [h.rxHead,load8,List.getD_eq_getElem _ _ hlen]
  exact byte_of_at (h.ring.contents_at _ h.rxHead_lt) hlen

/-- A step that moves the call on and touches nothing shared. -/
theorem RxShows.move (h : RxShows P s r) {c : RxCall}
    (hc : ∀ length buffer,c=.copying length buffer → length ≤ 2048) :
    RxStep P s ({s with rxCall := c},[]) ({r with call := c},[]) :=
  ⟨rfl,⟨h.ring,h.regs,h.rxHead,h.rxHead_lt,rfl,hc⟩,⟨fun _ _ => rfl,fun _ _ => rfl,rfl,rfl,rfl⟩⟩

/-- The status of the descriptor in hand is cleared. -/
theorem clearing_step (h : RxShows P s r) {frame : List UInt8} (hc : r.call=.clearing frame) :
    RxStep P s (receivePacket P.toArrays s) (e1000ReceivePacket r) := by
  obtain ⟨hapart,-,-⟩ := P.arrays_apart
  have hlt := h.rxHead_lt
  have hcall : s.rxCall=.clearing frame := by rw [h.call,hc]
  simp only [receivePacket,hcall,e1000ReceivePacket,hc]
  refine ⟨rfl,⟨?_,h.regs,h.rxHead,hlt,rfl,by simp⟩,⟨fun x hx => ?_,fun _ _ => rfl,rfl,rfl,rfl⟩⟩
  · -- the status is the fifth byte behind the address
    generalize hd : r.ring r.rxHead=d
    have hold : (r.ring r.rxHead).fields=(store16 d.length++store16 d.checksum)++[d.status]++
        ([d.errors]++store16 d.special) := by rw [hd]; rfl
    have hring := h.ring.putFields hapart hlt hold (rfl : [(0 : UInt8)].length=[d.status].length)
    simp only [Function.apply_update fun _ => RxDesc.fields]
    show RingShown _ _ (storeBytes s.mem (byteStores (P.rxDescRing+16*s.rxHead+12) [0])) _ _
    rw [h.rxHead]
    exact hring
  · rw [InRing] at hx
    have hsame : P.rxDesc s.rxHead=P.rxDescRing+16*r.rxHead := by rw [h.rxHead]; rfl
    refine put_of_ne ?_
    rw [hsame]
    show x < P.rxDescRing+16*r.rxHead+12 ∨ P.rxDescRing+16*r.rxHead+12+1 ≤ x
    omega

theorem receivePacket_step (h : RxShows P s r) (hs : ¬s.InReset) :
    RxStep P s (receivePacket P.toArrays s) (e1000ReceivePacket r) := by
  have hlt := h.rxHead_lt
  have hcall := h.call
  cases hc : r.call with
  | checking =>
    rw [hc] at hcall
    simp only [receivePacket,hcall,e1000ReceivePacket,hc,h.status,RxDesc.done,decide_eq_true_eq]
    split_ifs
    · exact h.move (by simp)
    · exact ⟨rfl,h,onlyRx_refl P s⟩
  | sizing =>
    rw [hc] at hcall
    simp only [receivePacket,hcall,e1000ReceivePacket,hc,h.length]
    apply h.move
    intro length buffer he
    obtain ⟨rfl,-⟩ := RxCall.copying.inj he
    have hsize := rx_sizes.2
    split_ifs <;> omega
  | copying length buffer =>
    rw [hc] at hcall
    have hsize := h.sized length buffer hc
    simp only [receivePacket,hcall,e1000ReceivePacket,hc]
    split_ifs with hmore
    · rw [h.byte (by omega)]
      apply h.move
      intro length' buffer' he
      obtain ⟨rfl,-⟩ := RxCall.copying.inj he
      exact hsize
    · exact h.move (by simp)
  | clearing frame => exact clearing_step h hc
  | advancing frame =>
    rw [hc] at hcall
    simp only [receivePacket,hcall,e1000ReceivePacket,hc]
    refine ⟨rfl,⟨h.ring,h.regs,?_,Nat.mod_lt _ (by decide),rfl,by simp⟩,
      ⟨fun _ _ => rfl,fun _ _ => rfl,rfl,rfl,rfl⟩⟩
    show (s.rxHead+1)%rxDescCount=(r.rxHead+1)%rxDescCount
    rw [h.rxHead]
  | returning frame =>
    rw [hc] at hcall
    simp only [receivePacket,hcall,e1000ReceivePacket,hc]
    rw [writeReg_of_settled hs (by decide),h.rxHead]
    refine ⟨rfl,⟨h.ring,h.regs.settle (by decide) (Nat.mod_lt _ (by decide)),rfl,hlt,rfl,
      by simp⟩,⟨fun _ _ => rfl,fun reg hreg => ?_,rfl,rfl,rfl⟩⟩
    have htail : reg≠e1000Rxdesctail := fun hno => hreg (by rw [hno]; decide)
    exact Function.update_of_ne htail ..

end Receive

section Transmit

variable {P : Placement} {s : E1000} {t : Tx}

/-- A descriptor is changed where it is no longer than a buffer. -/
theorem sized_update {ring : Nat → TxDesc} (h : ∀ i,(ring i).length.toNat ≤ 2048) (i : Nat)
    {d : TxDesc} (hd : d.length.toNat ≤ 2048) (j : Nat) :
    (Function.update ring i d j).length.toNat ≤ 2048 := by
  rw [Function.update_apply]
  split_ifs
  · exact hd
  · exact h j

/-- The frame that the NIC finds behind a descriptor. -/
theorem TxShows.frame (h : TxShows P s t) {i : Nat} (hi : i < 32) :
    bytesAt s.mem (loadAddress s.mem (P.txDescRing+16*i))
      (loadHalf s.mem (P.txDescRing+16*i+8)).toNat=t.frame i := by
  obtain ⟨-,-,-,hfit⟩ := P.arrays_fit
  have haddress : loadAddress s.mem (P.txDescRing+16*i)=P.txBuffers+2048*i :=
    loadAddress_of_at (by omega) (h.ring.address _ hi)
  have hlength : loadHalf s.mem (P.txDescRing+16*i+8)=(t.ring i).length :=
    loadHalf_of_at (h.ring.fields_at _ hi |>.take 2)
  have hlen : ((t.buffers i).bytes.take (t.ring i).length.toNat).length=
      (t.ring i).length.toNat := by
    have hsized : (t.ring i).length.toNat ≤ 2048 := h.sized i
    have hsize : (t.buffers i).bytes.length=2048 := (t.buffers i).size
    rw [List.length_take]
    omega
  have hbytes := ((h.ring.contents_at i hi).take (t.ring i).length.toNat).bytesAt
  rw [haddress,hlength]
  rw [hlen] at hbytes
  exact hbytes

theorem dmaTransmit_step (h : TxShows P s t) (hon : s.Transmitting) :
    TxStep P s (dmaTransmit s) (nicTransmit t) := by
  by_cases hne : t.tdh=t.tdt
  · rw [dmaTransmit,if_neg fun hno => h.regs.head_ne_tail.mp hno.2 hne,nicTransmit,if_pos hne]
    exact ⟨rfl,h,onlyTx_refl P s⟩
  · rw [dmaTransmit,if_pos ⟨hon,h.regs.head_ne_tail.mpr hne⟩,nicTransmit,if_neg hne]
    simp only [descAt_eq h.regs,h.frame h.regs.head_lt]
    refine ⟨rfl,⟨h.ring,h.regs.next (by decide),h.txTail,h.txTail_lt,h.call,h.sized⟩,
      ⟨fun _ _ => rfl,fun reg hreg => ?_,rfl,rfl,rfl⟩⟩
    have hhead : reg≠e1000Txdeschead := fun hno => hreg (by rw [hno]; decide)
    exact Function.update_of_ne hhead ..

/-- The status of a descriptor is replaced. -/
theorem TxShows.putStatus (h : TxShows P s t) {i : Nat} (hi : i < 32) (status : UInt8) :
    RingShown P.txDescRing P.txBuffers
      (storeBytes s.mem (byteStores (P.txDescRing+16*i+12) [status]))
      (fun j => (Function.update t.ring i {t.ring i with status := status} j).fields)
      fun j => (t.buffers j).bytes := by
  obtain ⟨-,hapart,-⟩ := P.arrays_apart
  have hold : (t.ring i).fields=(store16 (t.ring i).length++[(t.ring i).cso,(t.ring i).command])++
      [(t.ring i).status]++([(t.ring i).css]++store16 (t.ring i).special) := rfl
  simp only [Function.apply_update fun _ => TxDesc.fields]
  exact h.ring.putFields hapart hi hold (rfl : [status].length=[(t.ring i).status].length)

theorem dmaDone_step (h : TxShows P s t) (hon : s.Transmitting) {i : Nat} (hi : i < 32) :
    TxStep P s (dmaDone s i) (nicDone i t) := by
  have hlen : (s.regs e1000Txdesclen).toNat/descSize=32 := by
    rw [h.regs.size]
    rfl
  have hstatus : s.mem (P.txDescRing+16*i+12)=(t.ring i).status :=
    byte_of_at (k := 4) (h.ring.fields_at _ hi) (by decide : 4 < 8)
  rw [dmaDone,if_pos ⟨hon,by rw [hlen]; exact hi⟩,nicDone]
  simp only [h.regs.base,hstatus]
  refine ⟨rfl,⟨h.putStatus hi _,h.regs,h.txTail,h.txTail_lt,h.call,
    sized_update h.sized i (h.sized i)⟩,⟨fun x hx => ?_,fun _ _ => rfl,rfl,rfl,rfl⟩⟩
  rw [InRing] at hx
  refine put_of_ne ?_
  show x < P.txDescRing+16*i+12 ∨ P.txDescRing+16*i+12+1 ≤ x
  omega

/-- A step that moves the call on and touches nothing shared. -/
theorem TxShows.move (h : TxShows P s t) (c : TxCall) (es : List TxEvent) :
    TxStep P s ({s with txCall := c},es.map .tx) ({t with call := c},es) :=
  ⟨rfl,⟨h.ring,h.regs,h.txTail,h.txTail_lt,rfl,h.sized⟩,
    ⟨fun _ _ => rfl,fun _ _ => rfl,rfl,rfl,rfl⟩⟩

/-- Where a field is among the bytes of its descriptor. -/
theorem TxField.fields_set (frame : TxFrame) (d : TxDesc) (field : TxField) :
    ∃ xs old ys,d.fields=xs++old++ys ∧ (field.value frame).length=old.length ∧
      8+xs.length=field.offset ∧ (field.set frame d).fields=xs++field.value frame++ys := by
  cases field with
  | length => exact ⟨[],store16 d.length,[d.cso,d.command,d.status,d.css]++store16 d.special,
      rfl,rfl,rfl,rfl⟩
  | cso => exact ⟨store16 d.length,[d.cso],[d.command,d.status,d.css]++store16 d.special,
      rfl,rfl,rfl,rfl⟩
  | command => exact ⟨store16 d.length++[d.cso],[d.command],[d.status,d.css]++store16 d.special,
      rfl,rfl,rfl,rfl⟩
  | status => exact ⟨store16 d.length++[d.cso,d.command],[d.status],[d.css]++store16 d.special,
      rfl,rfl,rfl,rfl⟩
  | css => exact ⟨store16 d.length++[d.cso,d.command,d.status],[d.css],store16 d.special,
      rfl,rfl,rfl,rfl⟩
  | special => exact ⟨store16 d.length++[d.cso,d.command,d.status,d.css],store16 d.special,[],
      rfl,rfl,rfl,rfl⟩

theorem TxField.set_sized {frame : TxFrame} {d : TxDesc} (hd : d.length.toNat ≤ 2048)
    (field : TxField) : (field.set frame d).length.toNat ≤ 2048 := by
  have hframe : frame.1.length ≤ 2048 := frame.2
  cases field with
  | length =>
    show (UInt16.ofNat frame.1.length).toNat ≤ 2048
    rw [UInt16.toNat_ofNat']
    omega
  | cso | command | status | css | special => exact hd

/-- A byte of the frame goes into the buffer behind the tail. -/
theorem copying_step (h : TxShows P s t) {frame : TxFrame} {i : Nat}
    (hc : t.call=.copying frame i) :
    TxStep P s (sendPacket P.toArrays s) (e1000SendPacket t) := by
  obtain ⟨-,hapart,-⟩ := P.arrays_apart
  have hlt := h.txTail_lt
  have hcall : s.txCall=.copying frame i := by rw [h.call,hc]
  have hframe : frame.1.length ≤ 2048 := frame.2
  simp only [sendPacket,hcall,e1000SendPacket,hc]
  split_ifs with hmore
  · rw [h.txTail]
    refine ⟨rfl,⟨?_,h.regs,h.txTail,hlt,rfl,h.sized⟩,
      ⟨fun x hx => ?_,fun _ _ => rfl,rfl,rfl,rfl⟩⟩
    · simp only [Function.apply_update fun _ => Buffer.bytes]
      exact h.ring.putContents hapart hlt (by rw [List.length_singleton]; omega)
    · rw [InRing] at hx
      refine put_of_ne ?_
      show x < P.txBuffers+2048*t.txTail+i ∨ P.txBuffers+2048*t.txTail+i+1 ≤ x
      omega
  · exact h.move (.describing frame .length) []

/-- A field of the descriptor at the tail is written. -/
theorem describing_step (h : TxShows P s t) {frame : TxFrame} {field : TxField}
    (hc : t.call=.describing frame field) :
    TxStep P s (sendPacket P.toArrays s) (e1000SendPacket t) := by
  obtain ⟨-,hapart,-⟩ := P.arrays_apart
  have hlt := h.txTail_lt
  have hcall : s.txCall=.describing frame field := by rw [h.call,hc]
  simp only [sendPacket,hcall,e1000SendPacket,hc]
  obtain ⟨xs,old,ys,hold,hlen,hoffset,hset⟩ := TxField.fields_set frame (t.ring t.txTail) field
  have height := h.ring.eight t.txTail
  rw [hold,List.length_append,List.length_append] at height
  rw [h.txTail]
  refine ⟨rfl,⟨?_,h.regs,h.txTail,hlt,rfl,
    sized_update h.sized _ (TxField.set_sized (h.sized _) field)⟩,
    ⟨fun x hx => ?_,fun _ _ => rfl,rfl,rfl,rfl⟩⟩
  · have hring := h.ring.putFields hapart hlt hold hlen
    simp only [Function.apply_update fun _ => TxDesc.fields,hset]
    have hplace : P.txDesc t.txTail+field.offset=P.txDescRing+16*t.txTail+8+xs.length := by
      rw [← hoffset,← Nat.add_assoc]
      rfl
    show RingShown _ _ (storeBytes s.mem (byteStores (P.txDesc t.txTail+field.offset) _)) _ _
    rw [hplace]
    exact hring
  · rw [InRing] at hx
    refine put_of_ne ?_
    show x < P.txDescRing+16*t.txTail+field.offset ∨
      P.txDescRing+16*t.txTail+field.offset+(field.value frame).length ≤ x
    omega

/-- The driver reads the status that the NIC left in the last descriptor. -/
theorem polling_step (h : TxShows P s t) {left : Nat} (hc : t.call=.polling left) :
    TxStep P s (sendPacket P.toArrays s) (e1000SendPacket t) := by
  have hcall : s.txCall=.polling left := by rw [h.call,hc]
  have hlast : (t.txTail+txDescCount-1)%txDescCount < 32 := Nat.mod_lt _ (by decide)
  have hstatus : s.mem (P.txDesc ((s.txTail+txDescCount-1)%txDescCount)+12)=
      (t.ring ((t.txTail+txDescCount-1)%txDescCount)).status := by
    rw [h.txTail]
    exact byte_of_at (k := 4) (h.ring.fields_at _ hlast) (by decide : 4 < 8)
  simp only [sendPacket,hcall,e1000SendPacket,hc,hstatus,TxDesc.done,decide_eq_true_eq]
  split_ifs
  · exact h.move .idle [.returned true]
  · exact h.move .idle [.returned false]
  · exact h.move (.polling (left-1)) []

theorem sendPacket_step (h : TxShows P s t) (hs : ¬s.InReset) :
    TxStep P s (sendPacket P.toArrays s) (e1000SendPacket t) := by
  have hlt := h.txTail_lt
  have hcall := h.call
  cases hc : t.call with
  | idle =>
    rw [hc] at hcall
    simp only [sendPacket,hcall,e1000SendPacket,hc]
    exact ⟨rfl,h,onlyTx_refl P s⟩
  | reading frame =>
    rw [hc] at hcall
    have hhead : (s.regs e1000Txdeschead).toUInt16.toNat=t.tdh := by
      have hlt' := h.regs.head_lt
      rw [UInt32.toNat_toUInt16,h.regs.head]
      omega
    simp only [sendPacket,hcall,e1000SendPacket,hc,hhead]
    exact h.move (.checking frame t.tdh) []
  | checking frame txHead =>
    rw [hc] at hcall
    have hnext : (s.txTail+1)%txDescCount=(t.txTail+1)%txDescCount := by rw [h.txTail]
    simp only [sendPacket,hcall,e1000SendPacket,hc,hnext]
    split_ifs
    · exact h.move .idle [.returned false]
    · exact h.move (.copying frame 0) []
  | copying frame i => exact copying_step h hc
  | describing frame field => exact describing_step h hc
  | advancing frame =>
    rw [hc] at hcall
    simp only [sendPacket,hcall,e1000SendPacket,hc]
    refine ⟨rfl,⟨h.ring,h.regs,?_,Nat.mod_lt _ (by decide),rfl,h.sized⟩,
      ⟨fun _ _ => rfl,fun _ _ => rfl,rfl,rfl,rfl⟩⟩
    show (s.txTail+1)%txDescCount=(t.txTail+1)%txDescCount
    rw [h.txTail]
  | queueing frame =>
    rw [hc] at hcall
    simp only [sendPacket,hcall,e1000SendPacket,hc]
    rw [writeReg_of_settled hs (by decide),h.txTail]
    refine ⟨rfl,⟨h.ring,h.regs.settle (by decide) hlt,rfl,hlt,rfl,h.sized⟩,
      ⟨fun _ _ => rfl,fun reg hreg => ?_,rfl,rfl,rfl⟩⟩
    have htail : reg≠e1000Txdesctail := fun hno => hreg (by rw [hno]; decide)
    exact Function.update_of_ne htail ..
  | polling left => exact polling_step h hc

end Transmit

end Cllm.Network
