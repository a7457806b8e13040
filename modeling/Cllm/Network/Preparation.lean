import Cllm.Network.DmaSteps

namespace Cllm.Network

open Libc Machine ByteMemory

/-- The rings after e1000_init, with what is in the buffers. -/
def ringsAt (A : Arrays) (m : Memory) : Rx × Tx :=
  (rxInit fun i => ⟨bytesAt m (A.rxBuffer i) rxBufferSize,bytesAt_length _ _ _⟩,
    txInit fun i => ⟨bytesAt m (A.txBuffer i) txBufferSize,bytesAt_length _ _ _⟩)

/-- What some operations of e1000_init make of a NIC that has been reset. -/
def prepared (m : Memory) (ops : List SetupOp) : E1000 :=
  ops.foldl SetupOp.apply (powerOn m fun _ => 0)

/-- An operation that stores into a ring, or writes a register other than the control
registers. -/
def SetupOp.Quiet (P : Placement) : SetupOp → Prop
  | .store a bytes => ∀ x,a ≤ x → x < a+bytes.length → P.Covers x
  | .write reg _ => reg∉[e1000Ctrl,e1000Rctrl,e1000Tctrl]
  | .head => True

/-- The NIC is idle, and memory is as it was but for the arrays. -/
structure Idle (P : Placement) (m : Memory) (s : E1000) : Prop where
  regs : ∀ reg∈[e1000Ctrl,e1000Rctrl,e1000Tctrl],s.regs reg=0
  mem : ∀ x,¬P.Covers x → s.mem x=m x

section Prepare

variable {P : Placement} {m : Memory} {s : E1000}

theorem Idle.settled (h : Idle P m s) : ¬s.InReset := by
  rw [E1000.InReset,h.regs e1000Ctrl (by decide)]
  decide

theorem Idle.not_receiving (h : Idle P m s) : ¬s.Receiving := by
  rw [E1000.Receiving,h.regs e1000Rctrl (by decide)]
  decide

theorem Idle.not_transmitting (h : Idle P m s) : ¬s.Transmitting := by
  rw [E1000.Transmitting,h.regs e1000Tctrl (by decide)]
  decide

theorem Idle.apply (h : Idle P m s) {op : SetupOp} (hop : op.Quiet P) : Idle P m (op.apply s) := by
  cases op with
  | store a bytes =>
    refine ⟨h.regs,fun x hx => ?_⟩
    show (s.put a bytes).mem x=m x
    rw [put_of_ne,h.mem x hx]
    by_contra hno
    exact hx (hop x (by omega) (by omega))
  | write reg value =>
    have hctrl : reg≠e1000Ctrl := fun hno => hop (by rw [hno]; decide)
    rw [SetupOp.apply,writeReg_of_settled h.settled hctrl]
    refine ⟨fun r hr => ?_,h.mem⟩
    have hne : r≠reg := fun hno => hop (hno ▸ hr)
    show Function.update s.regs reg value r=0
    rw [Function.update_of_ne hne,h.regs r hr]
  | head => exact ⟨h.regs,h.mem⟩

theorem idle_prepared {ops : List SetupOp} (h : ∀ op∈ops,op.Quiet P) :
    Idle P m (prepared m ops) := by
  have hfold : ∀ s,Idle P m s → Idle P m (ops.foldl SetupOp.apply s) := by
    induction ops with
    | nil => exact fun s hs => hs
    | cons op ops ih =>
      rw [List.forall_mem_cons] at h
      exact fun s hs => ih h.2 _ (hs.apply h.1)
  exact hfold _ ⟨fun _ _ => rfl,fun _ _ => rfl⟩

/-- Stores laid out one behind the other. -/
def inRow (a : Nat) : List (List UInt8) → List SetupOp
  | [] => []
  | bytes::rest => .store a bytes::inRow (a+bytes.length) rest

/-- A loop that stores one record after the other, each part by part. -/
def rows (base : Nat) (parts : Nat → List (List UInt8)) (n : Nat) : List SetupOp :=
  (List.range n).flatMap fun i => inRow (base+descSize*i) (parts i)

theorem inRow_quiet {a : Nat} {parts : List (List UInt8)}
    (h : ∀ x,a ≤ x → x < a+parts.flatten.length → P.Covers x) :
    ∀ op∈inRow a parts,op.Quiet P := by
  induction parts generalizing a with
  | nil => exact fun op hop => absurd hop List.not_mem_nil
  | cons bytes rest ih =>
    rw [List.flatten_cons,List.length_append] at h
    refine List.forall_mem_cons.mpr ⟨fun x hx hx' => h x hx (by omega),ih fun x hx hx' => ?_⟩
    exact h x (by omega) (by omega)

theorem rows_quiet {base n : Nat} {parts : Nat → List (List UInt8)}
    (hsize : ∀ i,(parts i).flatten.length=descSize)
    (h : ∀ x,base ≤ x → x < base+descSize*n → P.Covers x) :
    ∀ op∈rows base parts n,op.Quiet P := by
  intro op hop
  rw [rows,List.mem_flatMap] at hop
  obtain ⟨i,hi,hop⟩ := hop
  have hlt : descSize*(i+1) ≤ descSize*n := Nat.mul_le_mul_left _ (List.mem_range.mp hi)
  rw [Nat.mul_add_one] at hlt
  refine inRow_quiet (fun x hx hx' => ?_) op hop
  rw [hsize] at hx'
  exact h x (by omega) (by omega)

/-- The parts in which the loops of e1000_init store a descriptor. -/
def rxParts (A : Arrays) (i : Nat) : List (List UInt8) :=
  [bufferAddr (A.rxBuffer i),store16 0,store16 0,[0],[0],store16 0]

def txParts (A : Arrays) (i : Nat) : List (List UInt8) :=
  [bufferAddr (A.txBuffer i),store16 0,[0],[0],[0],[0],store16 0]

theorem prepareOps_eq (A : Arrays) : prepareOps A=
    rows A.rxDescRing (rxParts A) rxDescCount++rows A.txDescRing (txParts A) txDescCount++
      ringSetup A := rfl

theorem prepareOps_quiet (P : Placement) : ∀ op∈prepareOps P.toArrays,op.Quiet P := by
  intro op hop
  rw [prepareOps_eq,List.mem_append,List.mem_append] at hop
  rcases hop with (hop|hop)|hop
  · exact rows_quiet (fun _ => rfl) (fun x hx hx' => (P.covers_iff x).mpr (.inl (.inl ⟨hx,hx'⟩)))
      op hop
  · exact rows_quiet (fun _ => rfl) (fun x hx hx' => (P.covers_iff x).mpr (.inr (.inl ⟨hx,hx'⟩)))
      op hop
  · have hall : ∀ op∈ringSetup P.toArrays,op.Quiet P := by
      simp only [ringSetup,List.forall_mem_cons,List.not_mem_nil,false_imp_iff,implies_true,
        and_true,SetupOp.Quiet]
      decide
    exact hall op hop

end Prepare

section Rings

variable (P : Placement) (m : Memory)

theorem inRow_apply (s : E1000) (a : Nat) (parts : List (List UInt8)) :
    (inRow a parts).foldl SetupOp.apply s=s.put a parts.flatten := by
  induction parts generalizing s a with
  | nil => rfl
  | cons bytes rest ih =>
    rw [inRow,List.foldl_cons,ih,List.flatten_cons]
    simp only [SetupOp.apply,E1000.put,byteStores_append,storeBytes_append]

theorem rows_apply (s : E1000) (base : Nat) (parts : Nat → List (List UInt8)) (n : Nat) :
    (rows base parts n).foldl SetupOp.apply s=
      {s with mem := storeRecords s.mem base descSize (fun i => (parts i).flatten) n} := by
  induction n with
  | zero => rfl
  | succ n ih =>
    rw [rows] at ih
    rw [rows,List.range_succ,List.flatMap_append,List.foldl_append,ih,List.flatMap_singleton,
      inRow_apply,storeRecords_succ]
    rfl

/-- A descriptor with its buffer, otherwise zero. -/
def blankDesc (buffer : Nat) : List UInt8 := bufferAddr buffer++List.replicate 8 0

theorem blankDesc_length (b : Nat) : (blankDesc b).length=16 := rfl

/-- Register writes, one after the other. -/
def writes (ws : List (UInt32 × UInt32)) (regs : UInt32 → UInt32) : UInt32 → UInt32 :=
  ws.foldl (fun regs w => Function.update regs w.1 w.2) regs

def rxWrites (A : Arrays) : List (UInt32 × UInt32) :=
  [(e1000Rxdesclo,UInt32.ofNat A.rxDescRing),(e1000Rxdeschi,0),
    (e1000Rxdesclen,UInt32.ofNat (rxDescCount*descSize)),(e1000Rxdeschead,0),
    (e1000Rxdesctail,UInt32.ofNat (rxDescCount-1))]

def txWrites (A : Arrays) : List (UInt32 × UInt32) :=
  [(e1000Txdesclo,UInt32.ofNat A.txDescRing),(e1000Txdeschi,0),
    (e1000Txdesclen,UInt32.ofNat (txDescCount*descSize)),(e1000Txdeschead,0),
    (e1000Txdesctail,0),(e1000Ral,load32 ourMac.bytes 0),
    (e1000Rah,(load16 ourMac.bytes 4).toUInt32|||e1000RahAv)]

theorem writes_apply {mem : Memory} {regs : UInt32 → UInt32} (hregs : regs e1000Ctrl=0)
    {ws : List (UInt32 × UInt32)} (hws : ∀ w∈ws,w.1≠e1000Ctrl) :
    (ws.map fun w => SetupOp.write w.1 w.2).foldl SetupOp.apply (powerOn mem regs)=
      powerOn mem (writes ws regs) ∧ writes ws regs e1000Ctrl=0 := by
  induction ws generalizing regs with
  | nil => exact ⟨rfl,hregs⟩
  | cons w ws ih =>
    rw [List.forall_mem_cons] at hws
    have hsettled : ¬(powerOn mem regs).InReset := by
      show ¬regs e1000Ctrl&&&e1000CtrlRst≠0
      rw [hregs]
      decide
    have hnext : Function.update regs w.1 w.2 e1000Ctrl=0 := by
      rw [Function.update_of_ne (Ne.symm hws.1),hregs]
    rw [List.map_cons,List.foldl_cons,SetupOp.apply,writeReg_of_settled hsettled hws.1]
    exact ih hnext hws.2

/-- The registers once all is set up. -/
def ringRegs (A : Arrays) : UInt32 → UInt32 := writes (txWrites A) (writes (rxWrites A) fun _ => 0)

theorem ringSetup_apply (A : Arrays) (mem : Memory) :
    (ringSetup A).foldl SetupOp.apply (powerOn mem fun _ => 0)=powerOn mem (ringRegs A) := by
  have hrx : ∀ w∈rxWrites A,w.1≠e1000Ctrl := by
    simp only [rxWrites,List.forall_mem_cons,List.not_mem_nil,false_imp_iff,implies_true,and_true]
    decide
  have htx : ∀ w∈txWrites A,w.1≠e1000Ctrl := by
    simp only [txWrites,List.forall_mem_cons,List.not_mem_nil,false_imp_iff,implies_true,and_true]
    decide
  obtain ⟨hfirst,hctrl⟩ := @writes_apply mem (fun _ => 0) rfl _ hrx
  have hsplit : ringSetup A=((rxWrites A).map fun w => SetupOp.write w.1 w.2)++SetupOp.head::
      ((txWrites A).map fun w => SetupOp.write w.1 w.2) := rfl
  rw [hsplit,List.foldl_append,hfirst,List.foldl_cons]
  exact (writes_apply hctrl htx).1

/-- A ring once its loop is through. -/
def rxRecords (A : Arrays) (m : Memory) : Memory :=
  storeRecords m A.rxDescRing descSize (fun i => blankDesc (A.rxBuffer i)) rxDescCount

def txRecords (A : Arrays) (m : Memory) : Memory :=
  storeRecords m A.txDescRing descSize (fun i => blankDesc (A.txBuffer i)) txDescCount

theorem prepared_all (A : Arrays) (m : Memory) :
    prepared m (prepareOps A)=powerOn (txRecords A (rxRecords A m)) (ringRegs A) := by
  rw [prepared,prepareOps_eq,List.foldl_append,List.foldl_append,rows_apply,rows_apply]
  exact ringSetup_apply A _

/-- A loop over descriptors sets up the ring. -/
theorem ringShown_records {descs buffers : Nat} {m m' : Memory}
    (hapart : descs+512 ≤ buffers ∨ buffers+65536 ≤ descs)
    (hm : ∀ x,buffers ≤ x → x < buffers+65536 → m' x=m x) :
    RingShown descs buffers
      (storeRecords m' descs 16 (fun i => blankDesc (buffers+2048*i)) 32)
      (fun _ => List.replicate 8 0) fun i => bytesAt m (buffers+2048*i) 2048 := by
  have hlen (i : Nat) : (blankDesc (buffers+2048*i)).length ≤ 16 :=
    (blankDesc_length _).le
  have hdesc (i : Nat) (hi : i < 32) := @at_storeRecords m' descs 16 32 i _ hlen hi
  refine ⟨fun i hi => ?_,fun i hi => ?_,fun i hi => ?_,fun _ => rfl,fun _ => bytesAt_length _ _ _⟩
  · exact (at_append.mp (hdesc i hi)).1
  · exact (at_append.mp (hdesc i hi)).2
  · refine (at_bytesAt m _ _).agree fun x hx hx' => ?_
    rw [bytesAt_length] at hx'
    rw [storeRecords_of_ne hlen (by omega),hm x (by omega) (by omega)]

theorem ringRegs_of {regs : UInt32 → UInt32} {lo hi len head tail : UInt32} {descs t : Nat}
    (hlo : regs lo=UInt32.ofNat descs) (hhi : regs hi=0) (hlen : regs len=512)
    (hhead : regs head=0) (htail : regs tail=UInt32.ofNat t) (hfit : descs < 2^32)
    (ht : t < 32) : RingRegs regs lo hi len head tail descs 0 t := by
  refine ⟨?_,?_,?_,?_,by decide,ht⟩
  · rw [hlo,hhi,UInt32.toNat_ofNat',UInt32.toNat_zero]
    omega
  · rw [hlen]
    decide
  · rw [hhead,UInt32.toNat_zero]
  · rw [htail,UInt32.toNat_ofNat']
    omega

theorem rxShows_prepared (P : Placement) (m : Memory) :
    RxShows P (prepared m (prepareOps P.toArrays)) (ringsAt P.toArrays m).1 := by
  obtain ⟨hapart,-,hboth⟩ := P.arrays_apart
  obtain ⟨hfit,-,-,-⟩ := P.arrays_fit
  have hlen (i : Nat) : (blankDesc (P.txBuffer i)).length ≤ 16 :=
    (blankDesc_length _).le
  have hring : RingShown P.rxDescRing P.rxBuffers (txRecords P.toArrays (rxRecords P.toArrays m))
      (fun _ => List.replicate 8 0) fun i => bytesAt m (P.rxBuffers+2048*i) 2048 := by
    refine (ringShown_records hapart fun x _ _ => rfl).keep fun x hx => ?_
    have hno := hboth x hx
    rw [InRing] at hno
    refine storeRecords_of_ne hlen ?_
    show x < P.txDescRing ∨ P.txDescRing+16*32 ≤ x
    omega
  have hsize : UInt32.ofNat (rxDescCount*descSize)=512 := by decide
  have hregs : RingRegs (ringRegs P.toArrays) e1000Rxdesclo e1000Rxdeschi e1000Rxdesclen
      e1000Rxdeschead e1000Rxdesctail P.rxDescRing 0 31 :=
    ringRegs_of rfl rfl hsize rfl rfl (by omega) (by decide)
  have hfields : (fun i => ((ringsAt P.toArrays m).1.ring i).fields)=
      fun _ => List.replicate 8 0 := by
    funext i
    have hz : (⟨0,0,0,0,0⟩ : RxDesc).fields=List.replicate 8 0 := by decide
    exact hz
  have hbytes : (fun i => ((ringsAt P.toArrays m).1.buffers i).bytes)=
      fun i => bytesAt m (P.rxBuffers+2048*i) 2048 := by
    simp only [ringsAt,rxInit]
    rfl
  rw [prepared_all]
  exact ⟨by rw [hfields,hbytes]; exact hring,hregs,rfl,(by decide : 0 < 32),rfl,
    by simp [ringsAt,rxInit]⟩

theorem txShows_prepared (P : Placement) (m : Memory) :
    TxShows P (prepared m (prepareOps P.toArrays)) (ringsAt P.toArrays m).2 := by
  obtain ⟨-,hapart,hboth⟩ := P.arrays_apart
  obtain ⟨-,hfit,-,-⟩ := P.arrays_fit
  have hlen (i : Nat) : (blankDesc (P.rxBuffer i)).length ≤ 16 :=
    (blankDesc_length _).le
  have hring : RingShown P.txDescRing P.txBuffers (txRecords P.toArrays (rxRecords P.toArrays m))
      (fun _ => List.replicate 8 0) fun i => bytesAt m (P.txBuffers+2048*i) 2048 := by
    refine ringShown_records hapart fun x hx hx' => ?_
    have hno : ¬InRing P.rxDescRing P.rxBuffers x := fun h => hboth x h (.inr ⟨hx,hx'⟩)
    rw [InRing] at hno
    refine storeRecords_of_ne hlen ?_
    show x < P.rxDescRing ∨ P.rxDescRing+16*32 ≤ x
    omega
  have hsize : UInt32.ofNat (txDescCount*descSize)=512 := by decide
  have hregs : RingRegs (ringRegs P.toArrays) e1000Txdesclo e1000Txdeschi e1000Txdesclen
      e1000Txdeschead e1000Txdesctail P.txDescRing 0 0 :=
    ringRegs_of rfl rfl hsize rfl rfl (by omega) (by decide)
  have hfields : (fun i => ((ringsAt P.toArrays m).2.ring i).fields)=
      fun _ => List.replicate 8 0 := by
    funext i
    have hz : (⟨0,0,0,0,0,0⟩ : TxDesc).fields=List.replicate 8 0 := by decide
    exact hz
  have hbytes : (fun i => ((ringsAt P.toArrays m).2.buffers i).bytes)=
      fun i => bytesAt m (P.txBuffers+2048*i) 2048 := by
    simp only [ringsAt,txInit]
    rfl
  rw [prepared_all]
  exact ⟨by rw [hfields,hbytes]; exact hring,hregs,rfl,(by decide : 0 < 32),rfl,
    fun _ => Nat.zero_le _⟩

end Rings

end Cllm.Network
