import Cllm.Framework.Refinement
import Cllm.Tcp.Closing
import Cllm.Tcp.Ingress

namespace Cllm.Tcp

open Libc Network Http

def Action.isPeriodic : Action → Bool
  | .periodic => true
  | .receive _ _ _ => false

/-- The calls of tcp_periodic in a run. -/
def periods (as : List Action) : Nat := as.countP Action.isPeriodic

/-- The periods since the slot was last active. -/
def idleFor (t : TcpStack) (i : Slot) : Nat := (t.now-(t.sockets i).lastActivity).toNat

/-- The SYN-ACK of a slot. -/
def synAckOf (s : TcpSocket) : Effect := tcpSendCtrl s (tcpFlagSyn|||tcpFlagAck)

section Clock

variable {now last : UInt32}

theorem idle_next (h : (now-last).toNat≤1) : (now+1-last).toNat=(now-last).toNat+1 := by
  have hshift : now+1-last=(now-last)+1 := by grind
  rw [hshift,UInt32.toNat_add]
  show ((now-last).toNat+1)%4294967296=_
  omega

theorem late_iff (h : (now-last).toNat≤1) : now+1-last>1 ↔ (now-last).toNat=1 := by
  have hnext := idle_next h
  rw [gt_iff_lt,UInt32.lt_iff_toNat_lt,hnext]
  show 1<_ ↔ _
  omega

/-- What tcp_periodic does to a half-open slot that was active in this period or the last. -/
theorem socketPeriodic_halfOpen {s : TcpSocket} (hs : s.state=.synReceived)
    (h : (now-s.lastActivity).toNat≤1) :
    socketPeriodic (now+1) s=
      if (now-s.lastActivity).toNat=1 then ({s with lastActivity := now+1},[synAckOf s])
      else (s,[]) := by
  rw [socketPeriodic]
  by_cases hd : (now-s.lastActivity).toNat=1
  · rw [if_pos ⟨hs,(late_iff h).mpr hd⟩,if_pos hd]
    rfl
  · rw [if_neg fun hno => hd ((late_iff h).mp hno.2),if_neg hd]

end Clock

section Steps

variable {t : TcpStack} {i : Slot}

theorem tcpStep_now (t : TcpStack) (a : Action) :
    (tcpStep t a).1.now=if a.isPeriodic then t.now+1 else t.now := by
  cases a with
  | periodic => rfl
  | receive rr ip packet =>
    simp only [tcpStep,tcpReceive]
    cases tcpSegment packet with
    | none => rfl
    | some seg =>
      simp only [tcpInput]
      cases target t.sockets ip seg <;> rfl

/-- A half-open slot has been active in this period or the last. -/
def Fresh (t : TcpStack) : Prop := ∀ i,(t.sockets i).state=.synReceived → idleFor t i≤1

theorem Fresh.step (h : Fresh t) (a : Action) : Fresh (tcpStep t a).1 := by
  intro i hs
  have active {s : TcpSocket} {rr : HttpRequest → HttpResponse} {ip : UInt32} {seg : Segment} :
      (t.now-(socketReceive rr ip t.now s seg).1.lastActivity).toNat≤1 := by
    have hlast := (socketReceive_transition rr ip t.now s seg).lastActivity
    have hnow : (socketReceive rr ip t.now s seg).1.lastActivity=t.now := hlast
    rw [hnow,UInt32.sub_self]
    decide
  rw [idleFor,tcpStep_now]
  rw [tcpStep_sockets] at hs ⊢
  cases a with
  | periodic =>
    have hstate : (t.sockets i).state=.synReceived := (socketPeriodic_state _ _).symm.trans hs
    have hidle := h i hstate
    rw [idleFor] at hidle
    show (t.now+1-(socketPeriodic (t.now+1) (t.sockets i)).1.lastActivity).toNat≤1
    rw [socketPeriodic_halfOpen hstate hidle]
    split_ifs with hd
    · rw [UInt32.sub_self]
      decide
    · rw [idle_next hidle]
      omega
  | receive rr ip packet =>
    rcases slotInput_receive i t rr ip packet with hx|⟨seg,hx|hx⟩
    · rw [hx] at hs ⊢
      exact h i hs
    · rw [hx]
      exact active
    · rw [hx]
      exact active

theorem fresh_init : Fresh tcpInit := by
  intro i hs
  rw [tcpInit_sockets] at hs
  split_ifs at hs
  all_goals cases hs

/-- What is left of a half-open slot after some periods in which nothing arrives for it. -/
structure Resent (i : Slot) (t : TcpStack) (as : List Action) : Prop where
  socket : ∃ last,(run t as).sockets i={t.sockets i with lastActivity := last}
  idle : idleFor (run t as) i=(idleFor t i+periods as)%2
  effects : effectsOn i (events t as)=
    List.replicate ((idleFor t i+periods as)/2) (synAckOf (t.sockets i))

/-- One call without a segment for the slot. -/
theorem resent_step (hs : (t.sockets i).state=.synReceived) (h : idleFor t i≤1) {a : Action}
    (hq : (slotInput i t a).segment=none) : Resent i t [a] := by
  have hsocket := tcpStep_sockets i t a
  have heffects := tcpStep_effects i t a
  have hnow := tcpStep_now t a
  have heq : events t [a]=(tcpStep t a).2 := List.append_nil _
  cases a with
  | periodic =>
    have hstep := socketPeriodic_halfOpen hs h
    simp only [slotInput,slotStep] at hsocket heffects
    rw [hstep] at hsocket heffects
    rw [idleFor] at h
    have hone : periods [Action.periodic]=1 := rfl
    by_cases hd : (t.now-(t.sockets i).lastActivity).toNat=1
    · rw [if_pos hd] at hsocket heffects
      refine ⟨⟨_,hsocket⟩,?_,?_⟩
      · rw [hone,idleFor,idleFor,hd]
        show ((tcpStep t .periodic).1.now-((tcpStep t .periodic).1.sockets i).lastActivity).toNat=_
        rw [hsocket,hnow]
        show (t.now+1-(t.now+1)).toNat=_
        rw [UInt32.sub_self]
        rfl
      · rw [heq,heffects,hone,idleFor,hd]
        rfl
    · have hz : (t.now-(t.sockets i).lastActivity).toNat=0 := by omega
      rw [if_neg hd] at hsocket heffects
      refine ⟨⟨_,hsocket⟩,?_,?_⟩
      · rw [hone,idleFor,idleFor,hz]
        show ((tcpStep t .periodic).1.now-((tcpStep t .periodic).1.sockets i).lastActivity).toNat=_
        rw [hsocket,hnow]
        show (t.now+1-(t.sockets i).lastActivity).toNat=_
        rw [idle_next h,hz]
      · rw [heq,heffects,hone,idleFor,hz]
        rfl
  | receive rr ip packet =>
    rcases slotInput_receive i t rr ip packet with hx|⟨seg,hx|hx⟩
    · rw [hx] at hsocket heffects
      have hzero : periods [Action.receive rr ip packet]=0 := rfl
      refine ⟨⟨_,hsocket⟩,?_,?_⟩
      · rw [hzero,idleFor,idleFor] at *
        show ((tcpStep t _).1.now-((tcpStep t _).1.sockets i).lastActivity).toNat=_
        rw [hsocket,hnow]
        show (t.now-(t.sockets i).lastActivity).toNat=_
        omega
      · rw [heq,heffects,hzero,Nat.add_zero,Nat.div_eq_of_lt (by omega)]
        rfl
    · rw [hx] at hq
      cases hq
    · rw [hx] at hq
      cases hq

theorem Resent.append {as bs : List Action} (h : Resent i t as) (h' : Resent i (run t as) bs) :
    Resent i t (as++bs) := by
  obtain ⟨last,hlast⟩ := h.socket
  obtain ⟨last',hlast'⟩ := h'.socket
  have hrun : run t (as++bs)=run (run t as) bs := Machine.runState_append tcpStep t as bs
  have hperiods : periods (as++bs)=periods as+periods bs := List.countP_append
  refine ⟨⟨last',?_⟩,?_,?_⟩
  · rw [hrun,hlast',hlast]
  · rw [hrun,h'.idle,h.idle,hperiods]
    omega
  · have hevents : events t (as++bs)=events t as++events (run t as) bs :=
      Machine.outputs_append tcpStep t as bs
    have hsame : synAckOf ((run t as).sockets i)=synAckOf (t.sockets i) := by
      rw [hlast]
      rfl
    rw [hevents,effectsOn_append,h.effects,h'.effects,hsame,h.idle,hperiods,
      ← List.replicate_add]
    congr 1
    omega

/-- A half-open slot for which nothing arrives is never given up, and sends the same SYN-ACK in
every second period. -/
theorem Fresh.resent (h : Fresh t) (hs : (t.sockets i).state=.synReceived) {bs : List Action}
    (hq : segmentsTo i t bs=[]) : Resent i t bs := by
  induction bs generalizing t with
  | nil =>
    have hidle := h i hs
    refine ⟨⟨_,rfl⟩,?_,?_⟩
    · show idleFor t i=(idleFor t i+0)%2
      omega
    · show []=List.replicate ((idleFor t i+0)/2) _
      rw [Nat.div_eq_of_lt (by omega)]
      rfl
  | cons b bs ih =>
    rw [segmentsTo_cons,List.append_eq_nil_iff,Option.toList_eq_nil_iff] at hq
    have hfirst := resent_step hs (h i hs) hq.1
    have hstate : ((tcpStep t b).1.sockets i).state=.synReceived := by
      obtain ⟨last,hlast⟩ := hfirst.socket
      have heq : (tcpStep t b).1.sockets i={t.sockets i with lastActivity := last} := hlast
      rw [heq]
      exact hs
    exact hfirst.append (ih (h.step b) hstate hq.2)

end Steps

theorem fresh_run (as : List Action) : Fresh (run tcpInit as) :=
  Machine.invariant_run tcpStep Fresh (fun _ a h => h.step a) fresh_init as

/-- In every run, a slot in SYN_RECEIVED for which no further segment arrives stays as it is but
for last_activity, and sends one and the same SYN-ACK in every second period, for ever. -/
theorem halfOpen_resent (as bs : List Action) (i : Slot)
    (hs : ((run tcpInit as).sockets i).state=.synReceived)
    (hq : segmentsTo i (run tcpInit as) bs=[]) : Resent i (run tcpInit as) bs :=
  (fresh_run as).resent hs hq

/-- One SYN, and four periods. -/
theorem halfOpen_resent_silent : Resent 1 (run tcpInit [clientSends tcpFlagSyn 50 0 []])
    (List.replicate 4 .periodic) :=
  halfOpen_resent [clientSends tcpFlagSyn 50 0 []] _ 1 (by decide) (by decide)

end Cllm.Tcp
