import Cllm.Framework.Refinement
import Cllm.Network.Preparation

namespace Cllm.Network

open Libc Machine ByteMemory

/-- The reset is over before e1000_init gives up waiting for it. -/
def ResetInTime (s : E1000) : BusAction → Prop
  | .cpu _ => s.pc=.waiting 1 → ¬s.InReset
  | _ => True

instance (s : E1000) : (a : BusAction) → Decidable (ResetInTime s a)
  | .cpu _ => inferInstanceAs (Decidable (s.pc=.waiting 1 → ¬s.InReset))
  | .nicReceive _ _ | .nicTransmit | .nicDone _ | .resetDone => .isTrue trivial

/-- Where e1000_init stands once the receiver is on. -/
def InitPc.Enabled : InitPc → Prop
  | .setup ops => ops=enableOps.tail ∨ ops=[]
  | .linkingUp ctrl => ctrl&&&e1000CtrlRst=0
  | .linking | .returned => True
  | .resetting | .waiting _ => False

/-- The receiver is on, and memory and registers show the rings. -/
structure Live (P : Placement) (m : Memory) (s : E1000) (r : Rx × Tx) : Prop where
  rx : RxShows P s r.1
  tx : TxShows P s r.2
  settled : ¬s.InReset
  enabled : s.pc.Enabled
  mem : ∀ x,¬P.Covers x → s.mem x=m x

/-- How far e1000_init has come, and the rings as they should show. -/
inductive Brought (P : Placement) (m : Memory) : E1000 → Rx × Tx → Prop
  | resetting (regs : UInt32 → UInt32) (hrx : regs e1000Rctrl&&&e1000RctlEn=0)
      (htx : regs e1000Tctrl&&&e1000TctlEn=0) :
      Brought P m (powerOn m regs) (ringsAt P.toArrays m)
  | waiting (left : Nat) (ctrl : UInt32) (hctrl : ctrl=e1000CtrlRst ∨ ctrl=0) (hleft : 1 ≤ left) :
      Brought P m
        {powerOn m (fun r => if r=e1000Ctrl then ctrl else 0) with pc := .waiting left}
        (ringsAt P.toArrays m)
  | preparing (done ops : List SetupOp) (h : prepareOps P.toArrays=done++ops) :
      Brought P m {prepared m done with pc := .setup (ops++enableOps)} (ringsAt P.toArrays m)
  | live {s : E1000} {r : Rx × Tx} (h : Live P m s r) : Brought P m s r

/-- What the NIC has to be enabled for. -/
def E1000.Enables (s : E1000) : BusAction → Prop
  | .nicReceive _ _ => s.Receiving
  | .nicTransmit | .nicDone _ => s.Transmitting
  | .resetDone | .cpu _ => True

/-- A step of the bus is what the rings make of it. -/
def StepShows (P : Placement) (R : E1000 → Rx × Tx → Prop) (s : E1000) (r : Rx × Tx)
    (a : BusAction) : Prop :=
  (busStep P.toArrays s a).2=outputs ringStep r (ringInputs s a) ∧
    R (busStep P.toArrays s a).1 (runState ringStep r (ringInputs s a))

section Steps

variable {P : Placement} {m : Memory} {s : E1000} {r : Rx × Tx} {R : E1000 → Rx × Tx → Prop}

/-- A step that is none of the rings'. -/
theorem stepShows_silent {s' : E1000} {a : BusAction} (hstep : busStep P.toArrays s a=(s',[]))
    (hinputs : ringInputs s a=[]) (h : R s' r) : StepShows P R s r a := by
  rw [StepShows,hstep,hinputs]
  exact ⟨rfl,h⟩

/-- A NIC that is not enabled does nothing. -/
theorem stepShows_off {a : BusAction} (hoff : ¬s.Enables a) (h : R s r) :
    StepShows P R s r a := by
  cases a with
  | nicReceive frame report =>
    exact stepShows_silent (if_neg fun hno => hoff hno.1) (if_neg hoff) h
  | nicTransmit => exact stepShows_silent (if_neg fun hno => hoff hno.1) (if_neg hoff) h
  | nicDone i =>
    exact stepShows_silent (if_neg fun hno => hoff hno.1) (if_neg fun hno => hoff hno.1) h
  | resetDone => exact absurd trivial hoff
  | cpu c => exact absurd trivial hoff

theorem stepShows_init (hpc : s.pc≠.returned) (c : DriverAction)
    (h : R (e1000Init P.toArrays s) r) : StepShows P R s r (.cpu c) := by
  have hstep : busStep P.toArrays s (.cpu c)=(e1000Init P.toArrays s,[]) := by
    rw [busStep]
    split
    · exact absurd ‹_› hpc
    · rfl
  have hinputs : ringInputs s (.cpu c)=[] := by
    rw [ringInputs]
    split
    · exact absurd ‹_› hpc
    · rfl
  exact stepShows_silent hstep hinputs h

theorem stepShows_resetDone (h : R (resetDone s) r) : StepShows P R s r .resetDone :=
  stepShows_silent rfl rfl h

theorem apply_pc (op : SetupOp) (s : E1000) (pc : InitPc) :
    op.apply {s with pc := pc}={op.apply s with pc := pc} := by
  cases op with
  | store a bytes => rfl
  | head => rfl
  | write reg value =>
    show E1000.writeReg {s with pc := pc} reg value={s.writeReg reg value with pc := pc}
    rw [E1000.writeReg,E1000.writeReg]
    by_cases hreset : reg=e1000Ctrl ∧ value&&&e1000CtrlRst≠0
    · rw [if_pos hreset,if_pos hreset]
    · rw [if_neg hreset,if_neg hreset]
      by_cases hin : s.InReset
      · have hin' : E1000.InReset {s with pc := pc} := hin
        rw [if_pos hin,if_pos hin']
      · have hin' : ¬E1000.InReset {s with pc := pc} := hin
        rw [if_neg hin,if_neg hin']

end Steps

/-- A register that is none of a ring is written. -/
theorem update_elsewhere (regs : UInt32 → UInt32) {reg : UInt32} (value : UInt32)
    (hreg : reg∉rxRegisters++txRegisters) :
    (∀ k∈rxRegisters,Function.update regs reg value k=regs k) ∧
      ∀ k∈txRegisters,Function.update regs reg value k=regs k := by
  have hkeep (k : UInt32) (hk : k∈rxRegisters++txRegisters) :
      Function.update regs reg value k=regs k :=
    Function.update_of_ne (ne_of_mem_of_not_mem hk hreg) _ _
  exact ⟨fun k hk => hkeep k (List.mem_append_left _ hk),
    fun k hk => hkeep k (List.mem_append_right _ hk)⟩

/-- The rings have no register in common. -/
theorem registers_apart : ∀ k∈rxRegisters,k∉txRegisters := by
  simp only [List.forall_mem_cons,List.not_mem_nil,false_imp_iff,implies_true,and_true]
  decide

namespace Live

variable {P : Placement} {m : Memory} {s : E1000} {r : Rx × Tx}

theorem afterRx (h : Live P m s r) {c : E1000 × List RingEvent} {d : Rx × List RxEvent}
    (hstep : RxStep P s c d) : Live P m c.1 (d.1,r.2) := by
  obtain ⟨-,-,hboth⟩ := P.arrays_apart
  have honly := hstep.only
  refine ⟨hstep.shows,h.tx.keep (fun x hx => honly.mem x fun hno => hboth x hno hx)
    (fun k hk => honly.regs k fun hno => registers_apart k hno hk) honly.txTail honly.txCall,?_,?_,
    fun x hx => ?_⟩
  · rw [E1000.InReset,honly.regs e1000Ctrl (by decide)]
    exact h.settled
  · rw [honly.pc]
    exact h.enabled
  · rw [honly.mem x fun hno => hx ((P.covers_iff x).mpr (.inl hno)),h.mem x hx]

theorem afterTx (h : Live P m s r) {c : E1000 × List RingEvent} {d : Tx × List TxEvent}
    (hstep : TxStep P s c d) : Live P m c.1 (r.1,d.1) := by
  obtain ⟨-,-,hboth⟩ := P.arrays_apart
  have honly := hstep.only
  refine ⟨h.rx.keep (fun x hx => honly.mem x (hboth x hx))
    (fun k hk => honly.regs k (registers_apart k hk)) honly.rxHead honly.rxCall,hstep.shows,?_,?_,
    fun x hx => ?_⟩
  · rw [E1000.InReset,honly.regs e1000Ctrl (by decide)]
    exact h.settled
  · rw [honly.pc]
    exact h.enabled
  · rw [honly.mem x fun hno => hx ((P.covers_iff x).mpr (.inr hno)),h.mem x hx]

theorem ctrl (h : Live P m s r) : s.regs e1000Ctrl&&&e1000CtrlRst=0 := by
  by_contra hno
  exact h.settled hno

/-- e1000_init moves on. -/
theorem move (h : Live P m s r) {pc : InitPc} (hpc : pc.Enabled) :
    Live P m {s with pc := pc} r :=
  ⟨h.rx.keep (fun _ _ => rfl) (fun _ _ => rfl) rfl rfl,
    h.tx.keep (fun _ _ => rfl) (fun _ _ => rfl) rfl rfl,h.settled,hpc,h.mem⟩

theorem write (h : Live P m s r) {reg value : UInt32} (hreg : reg∉rxRegisters++txRegisters)
    (hs : Function.update s.regs reg value e1000Ctrl&&&e1000CtrlRst=0) :
    Live P m {s with regs := Function.update s.regs reg value} r := by
  obtain ⟨hrx,htx⟩ := update_elsewhere s.regs value hreg
  exact ⟨h.rx.keep (fun _ _ => rfl) hrx rfl rfl,h.tx.keep (fun _ _ => rfl) htx rfl rfl,
    fun hno => hno hs,h.enabled,h.mem⟩

/-- A step of one ring. -/
theorem stepRx (h : Live P m s r) {a : BusAction} {b : RxAction}
    (hinputs : ringInputs s a=[.rx b])
    (hstep : RxStep P s (busStep P.toArrays s a) (rxStep r.1 b)) :
    StepShows P (Live P m) s r a := by
  rw [StepShows,hinputs,hstep.events,outputs_cons,outputs_nil,List.append_nil]
  exact ⟨rfl,h.afterRx hstep⟩

theorem stepTx (h : Live P m s r) {a : BusAction} {b : TxAction}
    (hinputs : ringInputs s a=[.tx b])
    (hstep : TxStep P s (busStep P.toArrays s a) (txStep r.2 b)) :
    StepShows P (Live P m) s r a := by
  rw [StepShows,hinputs,hstep.events,outputs_cons,outputs_nil,List.append_nil]
  exact ⟨rfl,h.afterTx hstep⟩

theorem call_step (h : Live P m s r) (frame : TxFrame) :
    TxStep P s (driverStep P.toArrays s (.call frame)) (txStep r.2 (.call frame)) := by
  have hcall := h.tx.call
  rw [driverStep,txStep]
  cases hc : r.2.call with
  | idle =>
    rw [hc] at hcall
    simp only [hcall]
    exact h.tx.move (.reading frame) []
  | _ =>
    rw [hc] at hcall
    simp only [hcall]
    exact ⟨rfl,h.tx,onlyTx_refl P s⟩

/-- Each access of the driver is one of the rings'. -/
theorem driver (h : Live P m s r) (c : DriverAction) :
    (driverStep P.toArrays s c).2=(ringStep r c.ring).2 ∧
      Live P m (driverStep P.toArrays s c).1 (ringStep r c.ring).1 := by
  cases c with
  | receive =>
    have hstep := receivePacket_step h.rx h.settled
    exact ⟨hstep.events,h.afterRx hstep⟩
  | call frame =>
    have hstep := h.call_step frame
    exact ⟨hstep.events,h.afterTx hstep⟩
  | send =>
    have hstep := sendPacket_step h.tx h.settled
    exact ⟨hstep.events,h.afterTx hstep⟩

theorem step_driver (h : Live P m s r) (hpc : s.pc=.returned) (c : DriverAction) :
    StepShows P (Live P m) s r (.cpu c) := by
  have hbus : busStep P.toArrays s (.cpu c)=driverStep P.toArrays s c := by
    rw [busStep,hpc]
  have hinputs : ringInputs s (.cpu c)=[c.ring] := by
    rw [ringInputs,hpc]
  obtain ⟨hout,hnext⟩ := h.driver c
  rw [StepShows,hbus,hinputs,outputs_cons,outputs_nil,List.append_nil]
  exact ⟨hout,hnext⟩

/-- The last accesses of e1000_init. -/
theorem init (h : Live P m s r) (hpc : s.pc≠.returned) : Live P m (e1000Init P.toArrays s) r := by
  have henabled := h.enabled
  cases hat : s.pc with
  | resetting =>
    rw [hat] at henabled
    exact False.elim henabled
  | waiting left =>
    rw [hat] at henabled
    exact False.elim henabled
  | returned => exact absurd hat hpc
  | setup ops =>
    rw [hat] at henabled
    rcases henabled with rfl|rfl
    · simp only [e1000Init,hat,enableOps,List.tail_cons,SetupOp.apply]
      rw [writeReg_of_settled h.settled (by decide)]
      have hctrl : e1000Ctrl≠e1000Tctrl := by decide
      refine (h.write (by decide) ?_).move (.inr rfl)
      rw [Function.update_of_ne hctrl]
      exact h.ctrl
    · simp only [e1000Init,hat]
      exact h.move trivial
  | linking =>
    simp only [e1000Init,hat]
    exact h.move h.ctrl
  | linkingUp ctrl =>
    rw [hat] at henabled
    have hslu : (ctrl|||e1000CtrlSlu)&&&e1000CtrlRst=0 := by
      have hbits : (ctrl|||e1000CtrlSlu)&&&e1000CtrlRst=
          ctrl&&&e1000CtrlRst|||e1000CtrlSlu&&&e1000CtrlRst :=
        UInt32.eq_of_toBitVec_eq BitVec.and_or_distrib_right
      have hslu : e1000CtrlSlu&&&e1000CtrlRst=0 := by decide
      rw [hbits,hslu,UInt32.or_zero]
      exact henabled
    simp only [e1000Init,hat]
    rw [E1000.writeReg,if_neg fun hno => hno.2 hslu,if_neg h.settled]
    refine (h.write (by decide) ?_).move trivial
    rw [Function.update_self]
    exact hslu

theorem step (h : Live P m s r) (a : BusAction) : StepShows P (Live P m) s r a := by
  by_cases hon : s.Enables a
  · cases a with
    | nicReceive frame report =>
      exact h.stepRx (if_pos hon) (dmaReceive_step h.rx hon frame report)
    | nicTransmit => exact h.stepTx (if_pos hon) (dmaTransmit_step h.tx hon)
    | nicDone i =>
      by_cases hi : i < 32
      · exact h.stepTx (if_pos ⟨hon,hi⟩) (dmaDone_step h.tx hon hi)
      · have hlen : (s.regs e1000Txdesclen).toNat/descSize=32 := by
          rw [h.tx.regs.size]
          rfl
        refine stepShows_silent (if_neg fun hno => hi ?_) (if_neg fun hno => hi hno.2) h
        rw [← hlen]
        exact hno.2
    | resetDone =>
      refine stepShows_resetDone (h.write (by decide) ?_)
      have hbit : ~~~e1000CtrlRst&&&e1000CtrlRst=0 := by decide
      rw [Function.update_self,UInt32.and_assoc,hbit,UInt32.and_zero]
    | cpu c =>
      by_cases hpc : s.pc=.returned
      · exact h.step_driver hpc c
      · exact stepShows_init hpc c (h.init hpc)
  · exact stepShows_off hon h

end Live

section BringUp

variable {P : Placement} {m : Memory} {s : E1000} {r : Rx × Tx}

theorem enables_of {a : BusAction} (h : s.Enables a) (hrx : ¬s.Receiving)
    (htx : ¬s.Transmitting) : a=.resetDone ∨ ∃ c,a=.cpu c := by
  cases a with
  | nicReceive frame report => exact absurd h hrx
  | nicTransmit => exact absurd h htx
  | nicDone i => exact absurd h htx
  | resetDone => exact .inl rfl
  | cpu c => exact .inr ⟨c,rfl⟩

/-- The NIC is off up to here: only the end of a reset and e1000_init count. -/
theorem stepShows_quiet (hrx : ¬s.Receiving) (htx : ¬s.Transmitting) (hpc : s.pc≠.returned)
    (h : Brought P m s r) (hreset : Brought P m (resetDone s) r) {a : BusAction}
    (hinit : ∀ c,a=.cpu c → Brought P m (e1000Init P.toArrays s) r) :
    StepShows P (Brought P m) s r a := by
  by_cases hon : s.Enables a
  · rcases enables_of hon hrx htx with rfl|⟨c,rfl⟩
    · exact stepShows_resetDone hreset
    · exact stepShows_init hpc c (hinit c rfl)
  · exact stepShows_off hon h

theorem resetting_step {regs : UInt32 → UInt32} (hrx : regs e1000Rctrl&&&e1000RctlEn=0)
    (htx : regs e1000Tctrl&&&e1000TctlEn=0) (a : BusAction) :
    StepShows P (Brought P m) (powerOn m regs) (ringsAt P.toArrays m) a := by
  refine stepShows_quiet (fun hno => hno hrx) (fun hno => hno htx) (by simp [powerOn])
    (.resetting regs hrx htx) (.resetting _ ?_ ?_) fun c _ => ?_
  · rw [Function.update_of_ne (by decide)]
    exact hrx
  · rw [Function.update_of_ne (by decide)]
    exact htx
  · have hinit : e1000Init P.toArrays (powerOn m regs)=
        {powerOn m (fun r => if r=e1000Ctrl then e1000CtrlRst else 0) with
          pc := .waiting 1000} := by
      have hbit : e1000Ctrl=e1000Ctrl ∧ e1000CtrlRst&&&e1000CtrlRst≠0 := by decide
      show ({(powerOn m regs).writeReg e1000Ctrl e1000CtrlRst with pc := .waiting 1000} : E1000)=_
      rw [E1000.writeReg,if_pos hbit]
      rfl
    rw [hinit]
    exact .waiting 1000 e1000CtrlRst (.inl rfl) (by decide)

theorem waiting_step {left : Nat} {ctrl : UInt32} (hctrl : ctrl=e1000CtrlRst ∨ ctrl=0)
    (hleft : 1 ≤ left) {a : BusAction}
    (ha : ResetInTime
      {powerOn m (fun r => if r=e1000Ctrl then ctrl else 0) with pc := .waiting left} a) :
    StepShows P (Brought P m)
      {powerOn m (fun r => if r=e1000Ctrl then ctrl else 0) with pc := .waiting left}
      (ringsAt P.toArrays m) a := by
  have hrx : ¬(0 : UInt32)&&&e1000RctlEn≠0 := by decide
  have htx : ¬(0 : UInt32)&&&e1000TctlEn≠0 := by decide
  refine stepShows_quiet
    (s := {powerOn m (fun r => if r=e1000Ctrl then ctrl else 0) with pc := .waiting left})
    hrx htx (by simp) (.waiting left ctrl hctrl hleft) ?_ fun c hc => ?_
  · have hoff : ctrl&&&~~~e1000CtrlRst=0 := by
      rcases hctrl with rfl|rfl
      · decide
      · decide
    have hreset : resetDone
        {powerOn m (fun r => if r=e1000Ctrl then ctrl else 0) with pc := .waiting left}=
        {powerOn m (fun r => if r=e1000Ctrl then 0 else 0) with pc := .waiting left} := by
      rw [resetDone]
      congr 1
      funext reg
      rw [Function.update_apply]
      show (if reg=e1000Ctrl then ctrl&&&~~~e1000CtrlRst else if reg=e1000Ctrl then ctrl else 0)=
        if reg=e1000Ctrl then 0 else 0
      rw [hoff]
      split_ifs <;> rfl
    rw [hreset]
    exact .waiting left 0 (.inr rfl) hleft
  · subst hc
    rw [e1000Init]
    simp only
    split_ifs with hover
    · -- The loop is left: after a reset that was in time, all registers are zero.
      have hzero : ctrl=0 := by
        rcases hctrl with rfl|rfl
        · rcases hover with hsettled|hlast
          · exact absurd (by decide : e1000CtrlRst&&&e1000CtrlRst≠0) hsettled
          · obtain rfl : left=1 := by omega
            exact absurd (by decide : e1000CtrlRst&&&e1000CtrlRst≠0) (ha rfl)
        · rfl
      subst hzero
      simp only [ite_self]
      exact .preparing [] (prepareOps P.toArrays) rfl
    · exact .waiting (left-1) ctrl hctrl (by omega)

/-- The write to RCTRL lets the NIC in. -/
theorem live_enabled (hidle : Idle P m s) (hrx : RxShows P s r.1) (htx : TxShows P s r.2)
    (value : UInt32) :
    Live P m {s with regs := Function.update s.regs e1000Rctrl value,pc := .setup enableOps.tail}
      r := by
  obtain ⟨hkrx,hktx⟩ := update_elsewhere s.regs value (by decide : e1000Rctrl∉_)
  refine ⟨hrx.keep (fun _ _ => rfl) hkrx rfl rfl,htx.keep (fun _ _ => rfl) hktx rfl rfl,?_,.inl rfl,
    hidle.mem⟩
  show ¬(Function.update s.regs e1000Rctrl value e1000Ctrl&&&e1000CtrlRst≠0)
  rw [Function.update_of_ne (by decide)]
  exact hidle.settled

theorem preparing_step {done ops : List SetupOp} (h : prepareOps P.toArrays=done++ops)
    (a : BusAction) :
    StepShows P (Brought P m) {prepared m done with pc := .setup (ops++enableOps)}
      (ringsAt P.toArrays m) a := by
  have hidle : Idle P m (prepared m done) :=
    idle_prepared fun op hop => prepareOps_quiet P op (h ▸ List.mem_append_left _ hop)
  refine stepShows_quiet (s := {prepared m done with pc := .setup (ops++enableOps)})
    hidle.not_receiving hidle.not_transmitting (by simp) (.preparing done ops h) ?_ fun c _ => ?_
  · have hregs : Function.update (prepared m done).regs e1000Ctrl
        ((prepared m done).regs e1000Ctrl&&&~~~e1000CtrlRst)=(prepared m done).regs := by
      rw [Function.update_eq_self_iff,hidle.regs e1000Ctrl (by decide)]
      decide
    have hreset : resetDone {prepared m done with pc := .setup (ops++enableOps)}=
        {prepared m done with pc := .setup (ops++enableOps)} := by
      rw [resetDone]
      simp only [hregs]
    rw [hreset]
    exact .preparing done ops h
  · cases ops with
    | nil =>
      rw [List.append_nil] at h
      subst h
      refine .live ?_
      simp only [e1000Init,List.nil_append,enableOps]
      rw [apply_pc,SetupOp.apply,writeReg_of_settled hidle.settled (by decide)]
      exact live_enabled hidle (rxShows_prepared P m) (txShows_prepared P m) _
    | cons op ops =>
      have hnext : op.apply (prepared m done)=prepared m (done++[op]) := by
        rw [prepared,prepared,List.foldl_append,List.foldl_cons,List.foldl_nil]
      simp only [e1000Init,List.cons_append]
      rw [apply_pc,hnext]
      exact .preparing (done++[op]) ops (by rw [h,List.append_assoc]; rfl)

theorem brought_step (h : Brought P m s r) {a : BusAction} (ha : ResetInTime s a) :
    StepShows P (Brought P m) s r a := by
  cases h with
  | resetting regs hrx htx => exact resetting_step hrx htx a
  | waiting left ctrl hctrl hleft => exact waiting_step hctrl hleft ha
  | preparing done ops h => exact preparing_step h a
  | live h =>
    obtain ⟨hout,hnext⟩ := h.step a
    exact ⟨hout,.live hnext⟩

theorem Brought.mem (h : Brought P m s r) {x : Nat} (hx : ¬P.Covers x) : s.mem x=m x := by
  cases h with
  | resetting regs hrx htx => rfl
  | waiting left ctrl hctrl hleft => rfl
  | preparing done ops h =>
    exact (idle_prepared fun op hop =>
      prepareOps_quiet P op (h ▸ List.mem_append_left _ hop)).mem x hx
  | live h => exact h.mem x hx

end BringUp

section Runs

variable (P : Placement) (m : Memory) (regs : UInt32 → UInt32)

theorem brought_run (hrx : regs e1000Rctrl&&&e1000RctlEn=0) (htx : regs e1000Tctrl&&&e1000TctlEn=0)
    {as : List BusAction} (has : Along (busStep P.toArrays) ResetInTime (powerOn m regs) as) :
    outputs (busStep P.toArrays) (powerOn m regs) as=
        outputs ringStep (ringsAt P.toArrays m)
          (inputsAlong (busStep P.toArrays) ringInputs (powerOn m regs) as) ∧
      Brought P m (runState (busStep P.toArrays) (powerOn m regs) as)
        (runState ringStep (ringsAt P.toArrays m)
          (inputsAlong (busStep P.toArrays) ringInputs (powerOn m regs) as)) :=
  simulates (busStep P.toArrays) ringStep (Brought P m) ringInputs
    (fun _ _ _ hs ha => brought_step hs ha) (.resetting regs hrx htx) has

end Runs

/-- Whatever the NIC does while e1000_init runs and after it: wherever the linker has put the
arrays, the accesses of both sides to memory are those of the two rings, each with what the
buffers held before, and no byte outside the arrays is ever written. -/
theorem bringUp_rings (P : Placement) (m : Memory) (regs : UInt32 → UInt32)
    (hrx : regs e1000Rctrl&&&e1000RctlEn=0) (htx : regs e1000Tctrl&&&e1000TctlEn=0)
    (as : List BusAction) (has : Along (busStep P.toArrays) ResetInTime (powerOn m regs) as) :
    outputs (busStep P.toArrays) (powerOn m regs) as=
        outputs ringStep (ringsAt P.toArrays m)
          (inputsAlong (busStep P.toArrays) ringInputs (powerOn m regs) as) ∧
      ∀ x,¬P.Covers x → (runState (busStep P.toArrays) (powerOn m regs) as).mem x=m x := by
  obtain ⟨hout,hlast⟩ := brought_run P m regs hrx htx has
  exact ⟨hout,fun x hx => hlast.mem hx⟩

/-- The arrays one after the other from 1 MiB on. -/
def lowPlacement : Placement where
  rxDescRing := 0x100000
  txDescRing := 0x100200
  rxBuffers := 0x100400
  txBuffers := 0x110400
  fits := by decide
  apart := by decide

/-- A reset that takes two turns, e1000_init to its end, a frame that arrives then and is polled
for, and one that is sent. -/
def bootActions : List BusAction :=
  [.cpu .receive,.nicDone 3,.cpu .receive,.resetDone]++List.replicate 435 (.cpu .receive)++
    .nicReceive ⟨[1,2,3],by decide⟩ ⟨0,0,0,0,0⟩::List.replicate 9 (.cpu .receive)++
    .cpu (.call ⟨[4,5],by decide⟩)::List.replicate 13 (.cpu .send)++
    [.nicTransmit,.nicDone 0,.cpu .send]

theorem bringUp_rings_boot :
    outputs (busStep lowPlacement.toArrays) (powerOn (fun _ => 0) fun _ => 0) bootActions=
        outputs ringStep (ringsAt lowPlacement.toArrays fun _ => 0)
          (inputsAlong (busStep lowPlacement.toArrays) ringInputs
            (powerOn (fun _ => 0) fun _ => 0) bootActions) ∧
      ∀ x,¬lowPlacement.Covers x →
        (runState (busStep lowPlacement.toArrays) (powerOn (fun _ => 0) fun _ => 0)
          bootActions).mem x=0 :=
  bringUp_rings lowPlacement (fun _ => 0) (fun _ => 0) (by decide) (by decide) bootActions
    (by decide +kernel)

/-- The events of one side. -/
def rxOnly (es : List RingEvent) : List RxEvent :=
  es.filterMap fun e => match e with
    | .rx e => some e
    | .tx _ => none

def txOnly (es : List RingEvent) : List TxEvent :=
  es.filterMap fun e => match e with
    | .rx _ => none
    | .tx e => some e

@[simp] theorem rxOnly_rx (es : List RxEvent) : rxOnly (es.map .rx)=es := by
  simp [rxOnly,List.filterMap_map]

@[simp] theorem rxOnly_tx (es : List TxEvent) : rxOnly (es.map .tx)=[] := by
  simp [rxOnly,List.filterMap_map]

@[simp] theorem txOnly_tx (es : List TxEvent) : txOnly (es.map .tx)=es := by
  simp [txOnly,List.filterMap_map]

@[simp] theorem txOnly_rx (es : List RxEvent) : txOnly (es.map .rx)=[] := by
  simp [txOnly,List.filterMap_map]

def rxSide : Refines ringStep rxStep where
  view := Prod.fst
  inputs _ a := match a with
    | .rx b => [b]
    | .tx _ => []
  seen := rxOnly
  seen_nil := rfl
  seen_append _ _ := List.filterMap_append
  view_step s a := by cases a <;> rfl
  seen_step s a := by cases a <;> simp [ringStep]

def txSide : Refines ringStep txStep where
  view := Prod.snd
  inputs _ a := match a with
    | .rx _ => []
    | .tx b => [b]
  seen := txOnly
  seen_nil := rfl
  seen_append _ _ := List.filterMap_append
  view_step s a := by cases a <;> rfl
  seen_step s a := by cases a <;> simp [ringStep]

/-- From power-on the frames that the driver reads out of memory are, in order and unmodified, the
first of those that the NIC has put there, and the frames that the NIC finds in memory are the
first of those that the driver has queued. -/
theorem bringUp_fifo (P : Placement) (m : Memory) (regs : UInt32 → UInt32)
    (hrx : regs e1000Rctrl&&&e1000RctlEn=0) (htx : regs e1000Tctrl&&&e1000TctlEn=0)
    (as : List BusAction) (has : Along (busStep P.toArrays) ResetInTime (powerOn m regs) as) :
    let es := outputs (busStep P.toArrays) (powerOn m regs) as
    received (rxOnly es) <+: written (rxOnly es) ∧
      sentFrames (txOnly es) <+: queuedFrames (txOnly es) := by
  intro es
  obtain ⟨hout,-⟩ := brought_run P m regs hrx htx has
  constructor
  · have hseen := rxSide.seen_run (ringsAt P.toArrays m)
      (inputsAlong (busStep P.toArrays) ringInputs (powerOn m regs) as)
    obtain ⟨queue,-,hw⟩ := run_rxFifo (ringsAt P.toArrays m).1.buffers
      (rxSide.inputsOf (ringsAt P.toArrays m)
        (inputsAlong (busStep P.toArrays) ringInputs (powerOn m regs) as))
    have hrx : rxOnly es=_ := (congrArg rxOnly hout).trans hseen
    rw [hrx]
    exact ⟨_,hw.symm⟩
  · have hseen := txSide.seen_run (ringsAt P.toArrays m)
      (inputsAlong (busStep P.toArrays) ringInputs (powerOn m regs) as)
    obtain ⟨queue,-,hq⟩ := run_txFifo (ringsAt P.toArrays m).2.buffers
      (txSide.inputsOf (ringsAt P.toArrays m)
        (inputsAlong (busStep P.toArrays) ringInputs (powerOn m regs) as))
    have htx : txOnly es=_ := (congrArg txOnly hout).trans hseen
    rw [htx]
    exact ⟨queue,hq.symm⟩

theorem bringUp_fifo_boot :
    let es := outputs (busStep lowPlacement.toArrays) (powerOn (fun _ => 0) fun _ => 0) bootActions
    received (rxOnly es)=[[1,2,3]] ∧ sentFrames (txOnly es)=[[4,5]] ∧
      received (rxOnly es) <+: written (rxOnly es) ∧
      sentFrames (txOnly es) <+: queuedFrames (txOnly es) :=
  ⟨by decide +kernel,by decide +kernel,
    bringUp_fifo lowPlacement (fun _ => 0) (fun _ => 0) (by decide) (by decide) bootActions
      (by decide +kernel)⟩

end Cllm.Network
