import Cllm.Tcp.Numbering

namespace Cllm.Tcp

open Libc Network Http

/-- The number behind `n` bytes of the client's stream, and its FIN if that has come. -/
def behind (isn : UInt32) (n : Nat) (fin : Bool) : UInt32 :=
  isn+1+UInt32.ofNat n+(if fin then 1 else 0)

/-- The ACK numbers of the effects of a call, of which `n` bytes have been stored before: each is
the number behind the bytes stored so far. -/
def AcksStored (isn : UInt32) (fin : Bool) : (n : Nat) → List Effect → Prop
  | _,[] => True
  | n,e::es => (∀ o,e=.transmit o → o.ack=behind isn n fin) ∧
      AcksStored isn fin (n+e.copied.length) es

theorem acksStored_append {isn : UInt32} {fin : Bool} (n : Nat) (x y : List Effect) :
    AcksStored isn fin n (x++y) ↔
      AcksStored isn fin n x ∧ AcksStored isn fin (n+(copies x).length) y := by
  induction x generalizing n with
  | nil => simp [AcksStored]
  | cons e x ih => simp [AcksStored,ih,and_assoc,Nat.add_assoc]

/-- Effects that store nothing and acknowledge the same number throughout. -/
theorem acksStored_same {isn q : UInt32} {fin : Bool} {n : Nat} {es : List Effect}
    (hc : copies es=[]) (ha : ∀ o∈transmits es,o.ack=q) :
    AcksStored isn fin n es ↔ (transmits es≠[] → q=behind isn n fin) := by
  induction es with
  | nil => simp [AcksStored]
  | cons e es ih =>
    rw [copies_cons,List.append_eq_nil_iff] at hc
    have hcopied : e.copied.length=0 := by rw [hc.1]; rfl
    rw [transmits_cons] at ha
    have hes := ih hc.2 (fun o ho => ha o (List.mem_append_right _ ho))
    rw [AcksStored,hcopied,Nat.add_zero,hes,transmits_cons]
    cases e with
    | transmit o =>
      have ho : o.ack=q := ha o (by simp)
      simp only [Effect.transmitted,Option.toList_some,List.cons_append,List.nil_append,ne_eq,
        reduceCtorEq,not_false_eq_true,forall_const]
      refine ⟨fun h => ho.symm.trans (h.1 o rfl),fun h => ⟨?_,fun _ => h⟩⟩
      rintro _ ⟨⟩
      exact ho.trans h
    | store payload => simp
    | parse request => simp
    | route request => simp

/-- How much of its stream the client has sent, and whether its FIN is among that. -/
def sent (segs : List Segment) : Nat := (segs.map (·.payload.length)).sum
def finSent (segs : List Segment) : Bool := segs.any (·.fin)

/-- What an orderly client sends after the segments `before`: its SYN again, or what comes next
of its stream. -/
inductive Follows (isn : UInt32) (before : List Segment) (seg : Segment) : Prop
  | syn (hy : seg.syn=true) (ha : seg.acks=false) (hf : seg.fin=false) (hp : seg.payload=[])
      (hq : seg.seq=isn)
  | stream (hy : seg.syn=false) (hq : seg.seq=behind isn (sent before) (finSent before))
      (hf : finSent before=true → seg.payload=[] ∧ seg.fin=false)
      (hl : seg.payload.length<2^32)

/-- The segments `segs` continue the client's stream after `before`. -/
def Orderly (isn : UInt32) : (before segs : List Segment) → Prop
  | _,[] => True
  | before,seg::segs => Follows isn before seg ∧ Orderly isn (before++[seg]) segs

/-- When what the socket acknowledges is what it has. -/
structure AckRule (s : TcpSocket) (seg : Segment) : Prop where
  handshake : s.state=.synReceived → seg.syn=true ∨ seg.fin=true
  data : s.state.Serving → seg.syn=true ∨ seg.payload=[] ∨
    (seg.fin=false ∧ (seg.acks=false ∨ s.HasRoom seg.payload))

/-- When the socket loses nothing of the stream, and keeps no number for a retransmission that
it has not sent before. -/
structure Keeps (s : TcpSocket) (seg : Segment) : Prop where
  handshake : s.state=.synReceived →
    seg.syn=true ∨ (seg.acks=true ∧ seg.payload=[] ∧ seg.fin=false)
  data : s.state.Serving → seg.payload=[] ∨
    (seg.fin=false ∧ seg.acks=true ∧ s.HasRoom seg.payload)

/-- Where a connection's ack stands relative to the client's stream, of which it has stored
`n` bytes. -/
inductive Acked (isn : UInt32) (s : TcpSocket) (before : List Segment) (n : Nat) : Prop
  | answering (hs : s.state=.synReceived) (hq : s.ack=isn+1) (hn : n=0) (hb : sent before=0)
      (hf : finSent before=false)
  | serving (hs : s.state.Serving) (hn : n=sent before)
  | waiting (hs : s.state.Waiting) (hq : s.ack=behind isn n (finSent before))
  | ended (hs : s.state=.timeWait)

theorem sent_concat (before : List Segment) (seg : Segment) :
    sent (before++[seg])=sent before+seg.payload.length := by simp [sent]

theorem finSent_concat (before : List Segment) (seg : Segment) :
    finSent (before++[seg])=(finSent before || seg.fin) := by simp [finSent]

theorem behind_add (isn : UInt32) (n m : Nat) (fin : Bool) :
    behind isn (n+m) fin=behind isn n fin+UInt32.ofNat m := by
  rw [behind,behind,UInt32.ofNat_add]
  grind

theorem behind_fin (isn : UInt32) (n : Nat) : behind isn n true=behind isn n false+1 := by
  simp [behind]

theorem ofNat_eq_zero {n : Nat} (h : n<2^32) : UInt32.ofNat n=0 ↔ n=0 := by
  refine ⟨fun he => ?_,fun he => by rw [he]; rfl⟩
  have hn : (UInt32.ofNat n).toNat=n := UInt32.toNat_ofNat_of_lt h
  rw [← hn,he]
  rfl

theorem answer_acks (rr : HttpRequest → HttpResponse) (s : TcpSocket) (n : Nat) :
    ∀ o∈transmits (answer rr s n).2,o.ack=s.ack := by
  rw [transmits_answer]
  rcases sendResponse_eq s (respond rr s n).1 with ⟨data,h⟩|h
  · simp [h,tcpSendData,tcpSendCtrl,ctrlSegment]
  · simp [h,tcpSendCtrl,ctrlSegment]

theorem stored_ack (s : TcpSocket) (seg : Segment) :
    (s.stored seg).1.ack=seg.seq+UInt32.ofNat seg.payload.length := by
  simp [TcpSocket.stored,TcpSocket.ackPayload]

section Steps

variable {rr : HttpRequest → HttpResponse} {s s' : TcpSocket} {seg : Segment} {es : List Effect}
  {isn : UInt32} {before : List Segment} {n : Nat}

/-- After storing, the data branch acknowledges the end of the payload, and nothing else. -/
theorem Transition.acks_data (h : Transition rr s seg s' es) (hs : s.state.Serving)
    (hd : seg.IsData) : ∃ tail,es=(s.stored seg).2++tail ∧ copies tail=[] ∧
      (∀ o∈transmits tail,o.ack=seg.seq+UInt32.ofNat seg.payload.length) ∧
      (seg.payload≠[] → transmits tail≠[]) ∧
      (s'.state.Serving ∨ s'.state.Waiting ∧ s'.ack=seg.seq+UInt32.ofNat seg.payload.length) := by
  have hack := stored_ack s seg
  have hctrl : ∀ o∈transmits [tcpSendCtrl (s.stored seg).1 tcpFlagAck],
      o.ack=seg.seq+UInt32.ofNat seg.payload.length := by
    simpa [tcpSendCtrl,ctrlSegment] using hack
  have hdata : (∀ o∈transmits (dataAck (s.stored seg).1 seg),
      o.ack=seg.seq+UInt32.ofNat seg.payload.length) ∧
      (seg.payload≠[] → transmits (dataAck (s.stored seg).1 seg)≠[]) := by
    rw [dataAck]
    split_ifs with hp
    · exact ⟨hctrl,fun _ => by simp [tcpSendCtrl]⟩
    · exact ⟨by simp,fun hne => absurd (List.length_pos_iff.mpr hne) hp⟩
  cases h with
  | pending =>
    refine ⟨_,List.append_assoc _ _ _,?_,?_,?_,.inl ((stored_state s seg).symm ▸ hs)⟩
    · simp [copies_dataAck,apply_ite copies,tcpSendCtrl]
    · intro o ho
      rw [transmits_append,List.mem_append] at ho
      rcases ho with ho|ho
      · exact hdata.1 o ho
      · split_ifs at ho
        · simp at ho
        · exact hctrl o ho
    · intro hne
      rw [transmits_append]
      exact fun he => hdata.2 hne (List.append_eq_nil_iff.mp he).1
  | answered k =>
    refine ⟨_,List.append_assoc _ _ _,?_,?_,?_,.inr ⟨.inl rfl,(answer_ack rr _ k).trans hack⟩⟩
    · simp [copies_dataAck,copies_answer]
    · intro o ho
      rw [transmits_append,List.mem_append] at ho
      rcases ho with ho|ho
      · exact hdata.1 o ho
      · exact (answer_acks rr _ k o ho).trans hack
    · intro hne
      rw [transmits_append]
      exact fun he => hdata.2 hne (List.append_eq_nil_iff.mp he).1
  | default h1 => rcases hs with hs|hs <;> simp [hs] at h1
  | _ => rcases hs with hs|hs <;> simp_all [hd.syn,hd.fin,hd.acks]

/-- What holds of the effects of one segment, and of the socket after it. -/
def AckStep (isn : UInt32) (s s' : TcpSocket) (before : List Segment) (n : Nat) (seg : Segment)
    (es : List Effect) : Prop :=
  (AcksStored isn (finSent (before++[seg])) n es ↔ AckRule s seg) ∧
    (Keeps s seg → s'.state≠.closed → Acked isn s' (before++[seg]) (n+(copies es).length))

theorem acksStored_ctrl (s : TcpSocket) (flags : UInt8) (fin : Bool) :
    AcksStored isn fin n [tcpSendCtrl s flags] ↔ s.ack=behind isn n fin := by
  simp [AcksStored,tcpSendCtrl,ctrlSegment]

theorem Transition.acks_synReceived (h : Transition rr s seg s' es) (hs : s.state=.synReceived)
    (hn : n=0) (hb : sent before=0) (hf : finSent before=false) (hseg : Follows isn before seg) :
    AckStep isn s s' before n seg es := by
  have hrule : AckRule s seg ↔ (seg.syn=true ∨ seg.fin=true) :=
    ⟨fun hr => hr.handshake hs,fun hr => ⟨fun _ => hr,fun hd => by
      rcases hd with hd|hd <;> cases hs.symm.trans hd⟩⟩
  have hzero : behind isn 0 false=isn+1 := by simp [behind]
  have heq : (seg.seq+1=behind isn 0 seg.fin) ↔ (seg.syn=true ∨ seg.fin=true) := by
    cases hseg with
    | syn hy _ hfin _ hq => simp [hy,hfin,hq,hzero]
    | stream hy hq =>
      rw [hq,hb,hf,hy]
      cases seg.fin with
      | true => simp [behind_fin]
      | false => simp
  rw [AckStep,hrule,hn,finSent_concat,hf,Bool.false_or]
  rcases h.synReceived hs with ⟨ha,rfl,rfl⟩|⟨ha,rfl,rfl⟩
  · refine ⟨(acksStored_ctrl _ _ _).trans heq,fun hk _ => ?_⟩
    have hy : seg.syn=true := by
      rcases hk.handshake hs with hy|⟨ha',-⟩
      · exact hy
      · rw [ha] at ha'; cases ha'
    cases hseg with
    | syn _ _ hfin hp hq =>
      exact .answering hs (by rw [hq]) rfl (by rw [sent_concat,hb,hp]; rfl)
        (by rw [finSent_concat,hf,hfin]; rfl)
    | stream hy' => rw [hy] at hy'; cases hy'
  · refine ⟨(acksStored_ctrl _ _ _).trans heq,fun hk _ => .serving (.inl rfl) ?_⟩
    have hp : seg.payload=[] := by
      rcases hk.handshake hs with hy|⟨-,hp,-⟩
      · cases hseg with
        | syn _ _ _ hp => exact hp
        | stream hy' => rw [hy] at hy'; cases hy'
      · exact hp
    rw [sent_concat,hb,hp]
    rfl

/-- How a data segment changes what is stored. -/
theorem stored_cases (s : TcpSocket) (seg : Segment) :
    (seg.payload=[] ∨ s.HasRoom seg.payload) ∧ copies (s.stored seg).2=seg.payload ∨
      seg.payload≠[] ∧ ¬s.HasRoom seg.payload ∧ copies (s.stored seg).2=[] := by
  by_cases hr : seg.payload=[] ∨ s.HasRoom seg.payload
  · left
    refine ⟨hr,?_⟩
    rcases storePayload_cases (s.ackPayload seg) seg.payload with ⟨-,-,he,-⟩|⟨hno,he⟩
    · simp [TcpSocket.stored,he]
    · have hp : seg.payload=[] := hr.elim id fun hr => hno.elim id fun hno => absurd hr hno
      rw [TcpSocket.stored,he,hp]
      rfl
  · rw [not_or] at hr
    refine .inr ⟨hr.1,hr.2,?_⟩
    rcases storePayload_cases (s.ackPayload seg) seg.payload with ⟨-,hroom,-⟩|⟨-,he⟩
    · exact absurd hroom hr.2
    · rw [TcpSocket.stored,he]
      rfl

/-- The data branch acknowledges what it has stored, unless it had no room for it. -/
theorem Transition.acks_stored (h : Transition rr s seg s' es) (hs : s.state.Serving)
    (hd : seg.IsData) (hn : n=sent before)
    (hq : seg.seq=behind isn (sent before) (finSent before)) (hl : seg.payload.length<2^32) :
    AckStep isn s s' before n seg es := by
  obtain ⟨tail,rfl,hc,ha,hne,hs'⟩ := h.acks_data hs hd
  have hfin : finSent (before++[seg])=finSent before := by
    rw [finSent_concat,hd.fin,Bool.or_false]
  have hstored : AcksStored isn (finSent before) n (s.stored seg).2 := by
    rcases storePayload_effects (s.ackPayload seg) seg.payload with h|h <;>
      simp [TcpSocket.stored,h,AcksStored]
  have hend : seg.seq+UInt32.ofNat seg.payload.length=
      behind isn (n+seg.payload.length) (finSent before) := by rw [hq,hn,← behind_add]
  rw [AckStep,hfin,acksStored_append,and_iff_right hstored,acksStored_same hc ha,copies_append,hc,
    List.append_nil]
  rcases stored_cases s seg with ⟨hr,hst⟩|⟨hp,hroom,hst⟩
  · rw [hst]
    refine ⟨iff_of_true (fun _ => hend) ⟨fun hsr => ?_,fun _ => ?_⟩,fun _ _ => ?_⟩
    · rcases hs with hs|hs <;> cases hs.symm.trans hsr
    · exact .inr (hr.imp id fun hr => ⟨hd.fin,.inr hr⟩)
    · rcases hs' with hs'|⟨hs',hack⟩
      · exact .serving hs' (by rw [sent_concat,hn])
      · exact .waiting hs' (by rw [hfin,hack,hend])
  · have hlen : seg.payload.length≠0 := fun he => hp (List.length_eq_zero_iff.mp he)
    rw [hst]
    refine ⟨iff_of_false (fun hall => ?_) fun hrule => ?_,fun hk _ => ?_⟩
    · -- the bytes that were dropped are acknowledged
      have hbad := hall (hne hp)
      rw [hend,List.length_nil,Nat.add_zero,behind_add] at hbad
      exact hlen ((ofNat_eq_zero hl).mp (by simpa using hbad))
    · rcases hrule.data hs with hy|hp'|⟨-,ha'|hr⟩
      · rw [hd.syn] at hy; cases hy
      · exact hp hp'
      · rw [hd.acks] at ha'; cases ha'
      · exact hroom hr
    · rcases hk.data hs with hp'|⟨-,-,hr⟩
      · exact absurd hp' hp
      · exact absurd hr hroom

/-- What the data branch does with a segment, by its flags. -/
theorem Transition.serving_cases (h : Transition rr s seg s' es) (hs : s.state.Serving) :
    (seg.syn=true ∧ s'=s ∧ es=[]) ∨
      (seg.syn=false ∧ seg.fin=true ∧ (s'.state=.closeWait ∨ s'.state=.closed) ∧
        es=[tcpSendCtrl {s with ack := seg.seq+UInt32.ofNat seg.payload.length+1} tcpFlagAck]) ∨
      (seg.syn=false ∧ seg.fin=false ∧ seg.acks=false ∧ s'=s.ackPayload seg ∧ es=[]) ∨
      seg.IsData := by
  cases h with
  | straySyn _ hy => exact .inl ⟨hy,rfl,rfl⟩
  | fin _ hy hf => exact .inr (.inl ⟨hy,hf,.inl rfl,rfl⟩)
  | secondFin _ hy hf => exact .inr (.inl ⟨hy,hf,.inr rfl,rfl⟩)
  | noAck _ hy hf ha => exact .inr (.inr (.inl ⟨hy,hf,ha,rfl,rfl⟩))
  | pending _ hd => exact .inr (.inr (.inr hd))
  | answered _ _ hd => exact .inr (.inr (.inr hd))
  | default h1 => rcases hs with hs|hs <;> simp [hs] at h1
  | _ => rcases hs with hs|hs <;> simp_all

/-- The FIN branch acknowledges a payload that it has not stored. -/
theorem acks_fin (hs : s.state.Serving) (hn : n=sent before) (hy : seg.syn=false)
    (hf : seg.fin=true) (hq : seg.seq=behind isn (sent before) false)
    (hl : seg.payload.length<2^32) (hs' : s'.state=.closeWait ∨ s'.state=.closed) :
    AckStep isn s s' before n seg
      [tcpSendCtrl {s with ack := seg.seq+UInt32.ofNat seg.payload.length+1} tcpFlagAck] := by
  have hiff : seg.seq+UInt32.ofNat seg.payload.length+1=behind isn n true ↔ seg.payload=[] := by
    rw [hq,hn,behind_fin,← List.length_eq_zero_iff,← ofNat_eq_zero hl]
    grind
  have hrule : AckRule s seg ↔ seg.payload=[] := by
    refine ⟨fun hr => ?_,fun hp => ⟨fun hsr => ?_,fun _ => .inr (.inl hp)⟩⟩
    · rcases hr.data hs with hy'|hp|⟨hf',-⟩
      · rw [hy] at hy'; cases hy'
      · exact hp
      · rw [hf] at hf'; cases hf'
    · rcases hs with hs|hs <;> cases hs.symm.trans hsr
  rw [AckStep,finSent_concat,hf,Bool.or_true,acksStored_ctrl,hiff,hrule]
  refine ⟨Iff.rfl,fun hk hopen => ?_⟩
  rcases hs' with hs'|hs'
  · rcases hk.data hs with hp|⟨hf',-⟩
    · refine .serving (.inr hs') ?_
      rw [sent_concat,hp,hn]
      rfl
    · rw [hf] at hf'; cases hf'
  · exact absurd hs' hopen

theorem Transition.acks_serving (h : Transition rr s seg s' es) (hs : s.state.Serving)
    (hn : n=sent before) (hseg : Follows isn before seg) : AckStep isn s s' before n seg es := by
  have hrule (hr : seg.syn=true ∨ seg.payload=[] ∨
      (seg.fin=false ∧ (seg.acks=false ∨ s.HasRoom seg.payload))) : AckRule s seg :=
    ⟨fun hsr => (by rcases hs with hs|hs <;> cases hs.symm.trans hsr),fun _ => hr⟩
  have hsame (hp : seg.payload=[]) : n=sent (before++[seg]) := by
    rw [sent_concat,hp,hn]; rfl
  rcases h.serving_cases hs with ⟨hy,rfl,rfl⟩|⟨hy,hf,hs',rfl⟩|⟨hy,hf,ha,rfl,rfl⟩|hd
  · cases hseg with
    | syn _ _ _ hp =>
      exact ⟨iff_of_true trivial (hrule (.inl hy)),fun _ _ => .serving hs (hsame hp)⟩
    | stream hy' => rw [hy] at hy'; cases hy'
  · cases hseg with
    | syn hy' => rw [hy] at hy'; cases hy'
    | stream _ hq hone hl =>
      have hbefore : finSent before=false := by
        by_contra hb
        rw [Bool.not_eq_false] at hb
        rw [(hone hb).2] at hf
        cases hf
      exact acks_fin hs hn hy hf (hbefore ▸ hq) hl hs'
  · refine ⟨iff_of_true trivial (hrule (.inr (.inr ⟨hf,.inl ha⟩))),fun hk _ => ?_⟩
    rcases hk.data hs with hp|⟨-,ha',-⟩
    · exact .serving hs (hsame hp)
    · rw [ha] at ha'; cases ha'
  · cases hseg with
    | syn hy' => rw [hd.syn] at hy'; cases hy'
    | stream _ hq _ hl => exact h.acks_stored hs hd hn hq hl

theorem Transition.acks_waiting (h : Transition rr s seg s' es) (hs : s.state.Waiting)
    (hq : s.ack=behind isn n (finSent before)) (hseg : Follows isn before seg) :
    AckStep isn s s' before n seg es := by
  have hrule : AckRule s seg := by
    refine ⟨fun hsr => ?_,fun hd => ?_⟩
    · rcases hs with hs|hs <;> cases hs.symm.trans hsr
    · rcases hs with hs|hs <;> simp [hs,TcpState.Serving] at hd
  have hsame (hf : seg.fin=false) : finSent (before++[seg])=finSent before := by
    rw [finSent_concat,hf,Bool.or_false]
  rcases hs with hs|hs
  · obtain ⟨rfl,hcase⟩ := h.finWait1 hs
    refine ⟨iff_of_true trivial hrule,fun _ _ => ?_⟩
    rcases hcase with ⟨-,rfl⟩|⟨hf,-,rfl⟩|⟨hf,-,rfl⟩
    · exact .ended rfl
    · exact .waiting (.inr rfl) (by rw [hsame hf]; exact hq)
    · exact .waiting (.inl hs) (by rw [hsame hf]; exact hq)
  · rcases h.finWait2 hs with ⟨hf,rfl,rfl⟩|⟨hf,rfl,rfl⟩
    · have hbefore : finSent before=false := by
        cases hseg with
        | syn _ _ hf' => rw [hf] at hf'; cases hf'
        | stream _ _ hone =>
          by_contra hb
          rw [Bool.not_eq_false] at hb
          rw [(hone hb).2] at hf
          cases hf
      refine ⟨iff_of_true ?_ hrule,fun _ hopen => absurd rfl hopen⟩
      rw [finSent_concat,hf,Bool.or_true,acksStored_ctrl,behind_fin,← hbefore,← hq]
    · refine ⟨iff_of_true trivial hrule,fun _ _ => .waiting (.inr hs) ?_⟩
      rw [hsame hf]
      exact hq

end Steps

theorem Acked.notClosed {isn : UInt32} {s : TcpSocket} {before : List Segment} {n : Nat}
    (h : Acked isn s before n) : s.state≠.closed := by
  intro hc
  cases h with
  | answering hs => cases hs.symm.trans hc
  | serving hs => rcases hs with hs|hs <;> cases hs.symm.trans hc
  | waiting hs => rcases hs with hs|hs <;> cases hs.symm.trans hc
  | ended hs => cases hs.symm.trans hc

/-- A socket meets a condition on the segment it is given, if it is given one. -/
def OnSegment (P : TcpSocket → Segment → Prop) (s : TcpSocket) (x : SlotInput) : Prop :=
  ∀ seg,x.segment=some seg → P s seg

section Slots

variable {i : Slot} {s : TcpSocket} {x : SlotInput} {isn : UInt32} {before : List Segment}
  {n : Nat}

/-- A retransmitted SYN-ACK acknowledges what the first one did. -/
theorem socketPeriodic_acks (now : UInt32) (h : Acked isn s before n) :
    AcksStored isn (finSent before) n (socketPeriodic now s).2 ∧
      Acked isn (socketPeriodic now s).1 before n := by
  rw [socketPeriodic]
  split_ifs with hr
  · cases h with
    | answering hs hq hn hb hf =>
      refine ⟨(acksStored_ctrl _ _ _).mpr ?_,.answering hs hq hn hb hf⟩
      rw [hq,hn,hf]
      simp [behind]
    | serving hs => rcases hs with hs|hs <;> cases hs.symm.trans hr.1
    | waiting hs => rcases hs with hs|hs <;> cases hs.symm.trans hr.1
    | ended hs => cases hs.symm.trans hr.1
  · exact ⟨trivial,h⟩

theorem slotStep_acks (h : Acked isn s before n) (hx : Receives s x)
    (hseg : ∀ seg,x.segment=some seg → Follows isn before seg) :
    (AcksStored isn (finSent (before++x.segment.toList)) n (slotStep i s x).2 ↔
      OnSegment AckRule s x) ∧
    (OnSegment Keeps s x → (slotStep i s x).1.state≠.closed →
      Acked isn (slotStep i s x).1 (before++x.segment.toList)
        (n+(copies (slotStep i s x).2).length)) := by
  have hno {P : TcpSocket → Segment → Prop} (hx : x.segment=none) : OnSegment P s x := by
    intro seg h
    rw [hx] at h
    cases h
  cases x with
  | idle => exact ⟨iff_of_true trivial (hno rfl),fun _ _ => by simpa [slotStep,SlotInput.segment]⟩
  | accept rr ip now seg => exact absurd hx.1 h.notClosed
  | tick now =>
    obtain ⟨ha,hs⟩ := socketPeriodic_acks now h
    have hc := (socketPeriodic_frame now s).2.2.2
    simp only [slotStep,SlotInput.segment,Option.toList_none,List.append_nil,hc,List.length_nil,
      Nat.add_zero]
    exact ⟨iff_of_true ha (hno rfl),fun _ _ => hs⟩
  | deliver rr ip now seg =>
    have ht := socketReceive_transition rr ip now s seg
    have hf := hseg seg rfl
    have hon (P : TcpSocket → Segment → Prop) :
        OnSegment P s (.deliver rr ip now seg) ↔ P s seg := by
      simp [OnSegment,SlotInput.segment]
    have hst : AckStep isn (s.touch ip now) (socketReceive rr ip now s seg).1 before n seg
        (socketReceive rr ip now s seg).2 := by
      cases h with
      | answering hs hq hn hb hfin => exact ht.acks_synReceived hs hn hb hfin hf
      | serving hs hn => exact ht.acks_serving hs hn hf
      | waiting hs hq => exact ht.acks_waiting hs hq hf
      | ended hs =>
        obtain ⟨he,hes⟩ := ht.timeWait hs
        rw [hes]
        refine ⟨iff_of_true trivial ⟨fun hsr => ?_,fun hd => ?_⟩,fun _ _ => .ended (he ▸ hs)⟩
        · cases hs.symm.trans hsr
        · rcases hd with hd|hd <;> cases hs.symm.trans hd
    rw [hon,hon]
    -- the socket is touched first, which the two conditions do not see
    refine ⟨hst.1.trans ⟨fun h => ⟨h.handshake,h.data⟩,fun h => ⟨h.handshake,h.data⟩⟩,
      fun hk => hst.2 ⟨hk.handshake,hk.data⟩⟩

end Slots

theorem orderly_append {isn : UInt32} (before x y : List Segment) :
    Orderly isn before (x++y) ↔ Orderly isn before x ∧ Orderly isn (before++x) y := by
  induction x generalizing before with
  | nil => simp [Orderly]
  | cons seg x ih => simp [Orderly,ih,and_assoc]

theorem orderly_step {isn : UInt32} {before more : List Segment} {x : SlotInput}
    (h : Orderly isn before (x.segment.toList++more)) :
    (∀ seg,x.segment=some seg → Follows isn before seg) ∧
      Orderly isn (before++x.segment.toList) more := by
  rw [orderly_append] at h
  refine ⟨fun seg hseg => ?_,h.2⟩
  have h1 := h.1
  rw [hseg] at h1
  exact h1.1

section Runs

variable {i : Slot} {isn : UInt32}

/-- A connection that loses nothing keeps step with its client. -/
theorem acked_run {t : TcpStack} {before : List Segment} {n : Nat} (as : List Action)
    (b : Action) (h : Acked isn (t.sockets i) before n) (hopen : InUse i t (as++[b]))
    (hclient : Orderly isn before (segmentsTo i t as))
    (hkeeps : Machine.Along tcpStep
      (fun t a => OnSegment Keeps (t.sockets i) (slotInput i t a)) t as) :
    Acked isn ((run t as).sockets i) (before++segmentsTo i t as)
      (n+(copies (effectsOn i (events t as))).length) := by
  induction as generalizing t before n with
  | nil => simpa [segmentsTo,slotInputs,Machine.Component.inputs,effectsOn] using h
  | cons a as ih =>
    rw [segmentsTo_cons] at hclient ⊢
    obtain ⟨hf,hmore⟩ := orderly_step hclient
    have hnext := (slotStep_acks (i := i) h (slotInput_receives i t a) hf).2 hkeeps.1
    rw [← tcpStep_effects,← tcpStep_sockets] at hnext
    have hs := ih (hnext (InUse.head hopen.2)) hopen.2 hmore hkeeps.2
    rw [events,Machine.outputs_cons,effectsOn_append,copies_append,List.length_append,
      ← Nat.add_assoc,← List.append_assoc]
    exact hs

/-- The ACK numbers of the call that follows `pre` on a connection that `syn` opened. -/
def StepAcks (i : Slot) (t : TcpStack) (syn : Segment) (pre : List Action) (b : Action) : Prop :=
  AcksStored syn.seq (finSent (syn::segmentsTo i t (pre++[b])))
    (copies (effectsOn i (events t pre))).length (effectsOn i (tcpStep (run t pre) b).2)

/-- The SYN-ACK acknowledges the SYN. -/
theorem Opens.acked {past : List Action} {a : Action} {syn : Segment} {iss : UInt32}
    (h : Opens i past a syn iss) (hp : syn.payload=[]) (hf : syn.fin=false) :
    AcksStored syn.seq false 0 (effectsOn i (tcpStep (run tcpInit past) a).2) ∧
      Acked syn.seq ((run tcpInit (past++[a])).sockets i) [syn] 0 := by
  obtain ⟨hs,hq,he⟩ := h.synAck
  rw [he]
  refine ⟨(acksStored_ctrl _ _ _).mpr (by rw [hq]; simp [behind]),?_⟩
  exact .answering hs hq rfl (by simp [sent,hp]) (by simp [finSent,hf])

end Runs

/-- Acknowledgements on a connection with an orderly client. The SYN-ACK is right. As long as
nothing of the stream has been lost, the ACK numbers of a call are right exactly when its segment
meets the rule, which the plain ACK that ends a handshake never does. In a run in which nothing is
lost they all are right exactly when all segments meet it. -/
theorem acks_iff (i : Slot) (past : List Action) (a : Action) (syn : Segment) (iss : UInt32)
    (as : List Action) (h : Opens i past a syn iss) (hp : syn.payload=[]) (hf : syn.fin=false)
    (hopen : InUse i (run tcpInit (past++[a])) as)
    (hclient : Orderly syn.seq [syn] (segmentsTo i (run tcpInit (past++[a])) as)) :
    AcksStored syn.seq false 0 (effectsOn i (tcpStep (run tcpInit past) a).2) ∧
    (∀ pre b post,as=pre++b::post →
      Machine.Along tcpStep (fun t c => OnSegment Keeps (t.sockets i) (slotInput i t c))
        (run tcpInit (past++[a])) pre →
      (StepAcks i (run tcpInit (past++[a])) syn pre b ↔
        OnSegment AckRule ((run (run tcpInit (past++[a])) pre).sockets i)
          (slotInput i (run (run tcpInit (past++[a])) pre) b))) ∧
    (∀ pre b post seg,as=pre++b::post →
      Machine.Along tcpStep (fun t c => OnSegment Keeps (t.sockets i) (slotInput i t c))
        (run tcpInit (past++[a])) pre →
      ((run (run tcpInit (past++[a])) pre).sockets i).state=.synReceived →
      (slotInput i (run (run tcpInit (past++[a])) pre) b).segment=some seg → seg.syn=false →
      seg.fin=false → ¬StepAcks i (run tcpInit (past++[a])) syn pre b) ∧
    (Machine.Along tcpStep (fun t c => OnSegment Keeps (t.sockets i) (slotInput i t c))
        (run tcpInit (past++[a])) as →
      ((∀ pre b post,as=pre++b::post → StepAcks i (run tcpInit (past++[a])) syn pre b) ↔
        Machine.Along tcpStep (fun t c => OnSegment AckRule (t.sockets i) (slotInput i t c))
          (run tcpInit (past++[a])) as)) := by
  obtain ⟨hfirst,hacked⟩ := h.acked hp hf
  have hstep : ∀ pre b post,as=pre++b::post →
      Machine.Along tcpStep (fun t c => OnSegment Keeps (t.sockets i) (slotInput i t c))
        (run tcpInit (past++[a])) pre →
      (StepAcks i (run tcpInit (past++[a])) syn pre b ↔
        OnSegment AckRule ((run (run tcpInit (past++[a])) pre).sockets i)
          (slotInput i (run (run tcpInit (past++[a])) pre) b)) := by
    rintro pre b post rfl hkeeps
    rw [segmentsTo_append,segmentsTo_cons,orderly_append] at hclient
    have hpre : InUse i (run tcpInit (past++[a])) (pre++[b]) := by
      rw [List.append_cons pre b post] at hopen
      exact ((Machine.along_append tcpStep _ _ (pre++[b]) post).mp hopen).1
    have hs := acked_run pre b hacked hpre hclient.1 hkeeps
    have hiff := (slotStep_acks (i := i) hs (slotInput_receives i _ b)
      (orderly_step hclient.2).1).1
    rw [← tcpStep_effects,Nat.zero_add] at hiff
    rw [StepAcks,segmentsTo_append,segmentsTo_cons,← hiff]
    simp [segmentsTo,slotInputs,Machine.Component.inputs]
  refine ⟨hfirst,hstep,?_,fun hkeeps => ?_⟩
  · intro pre b post seg has hkeeps hs hseg hy hfin hacks
    rcases ((hstep pre b post has hkeeps).mp hacks seg hseg).handshake hs with hy'|hfin'
    · rw [hy] at hy'; cases hy'
    · rw [hfin] at hfin'; cases hfin'
  · rw [Machine.along_iff_split]
    have hbefore {pre post : List Action} {b : Action} (has : as=pre++b::post) :=
      ((Machine.along_append tcpStep _ _ pre (b::post)).mp (has ▸ hkeeps)).1
    constructor
    · exact fun hall pre b post has => (hstep pre b post has (hbefore has)).mp (hall pre b post has)
    · exact fun hall pre b post has => (hstep pre b post has (hbefore has)).mpr (hall pre b post has)

/-- After the handshake the first request of the client is acknowledged as it should be. -/
theorem acks_iff_client : StepAcks 1 (run tcpInit [clientSends tcpFlagSyn 50 0 []])
    ⟨4000,httpPort,50,0,tcpFlagSyn,[]⟩ [clientSends tcpFlagAck 51 1101 []] getRequest := by
  have hsegs : segmentsTo 1 (run tcpInit [clientSends tcpFlagSyn 50 0 []])
      [clientSends tcpFlagAck 51 1101 [],getRequest]=[⟨4000,httpPort,51,1101,tcpFlagAck,[]⟩,
        ⟨4000,httpPort,51,1101,tcpFlagAck,cstr "GET / HTTP/1.1\r\n\r\n"⟩] := by decide
  refine ((acks_iff 1 [] (clientSends tcpFlagSyn 50 0 []) _ 1100
    [clientSends tcpFlagAck 51 1101 [],getRequest] opens_client rfl (by decide)
    ⟨by decide,by decide,trivial⟩ ?_).2.1 [clientSends tcpFlagAck 51 1101 []] getRequest [] rfl
    ⟨fun seg h => ?_,trivial⟩).mpr fun seg h => ?_
  · rw [List.nil_append,hsegs]
    exact ⟨.stream (by decide) (by decide) (by decide) (by decide),
      .stream (by decide) (by decide) (by decide) (by decide),trivial⟩
  · have hs : (slotInput 1 (run tcpInit [clientSends tcpFlagSyn 50 0 []])
        (clientSends tcpFlagAck 51 1101 [])).segment=
        some ⟨4000,httpPort,51,1101,tcpFlagAck,[]⟩ := by decide
    obtain rfl := Option.some.inj (hs.symm.trans h)
    exact ⟨fun _ => .inr (by decide),fun _ => .inl rfl⟩
  · have hs : (slotInput 1 connected getRequest).segment=some
        ⟨4000,httpPort,51,1101,tcpFlagAck,cstr "GET / HTTP/1.1\r\n\r\n"⟩ := by decide
    obtain rfl := Option.some.inj (hs.symm.trans h)
    exact ⟨fun h => absurd h (by decide),fun _ => .inr (.inr ⟨by decide,.inr (by
      unfold TcpSocket.HasRoom
      decide)⟩)⟩

/-- The ACK that ends the handshake acknowledges a byte the client has not sent. -/
theorem acks_handshake : ¬∀ (i : Slot) (past : List Action) (a : Action) (syn : Segment)
    (iss : UInt32) (as : List Action),Opens i past a syn iss → syn.payload=[] → syn.fin=false →
    InUse i (run tcpInit (past++[a])) as →
    Orderly syn.seq [syn] (segmentsTo i (run tcpInit (past++[a])) as) →
    ∀ pre b post,as=pre++b::post → StepAcks i (run tcpInit (past++[a])) syn pre b := by
  intro h
  have hsegs : segmentsTo 1 (run tcpInit [clientSends tcpFlagSyn 50 0 []])
      [clientSends tcpFlagAck 51 1101 []]=[⟨4000,httpPort,51,1101,tcpFlagAck,[]⟩] := by decide
  have hstep := h 1 [] (clientSends tcpFlagSyn 50 0 []) _ 1100
    [clientSends tcpFlagAck 51 1101 []] opens_client rfl (by decide) ⟨by decide,trivial⟩ (by
      rw [List.nil_append,hsegs]
      exact ⟨.stream (by decide) (by decide) (by decide) (by decide),trivial⟩)
    [] (clientSends tcpFlagAck 51 1101 []) [] rfl
  have he : effectsOn 1 (tcpStep (run tcpInit [clientSends tcpFlagSyn 50 0 []])
      (clientSends tcpFlagAck 51 1101 [])).2=
      [.transmit ⟨httpPort,4000,0x0A000202,1101,52,tcpFlagAck,[]⟩] := by decide
  change AcksStored _ _ _ (effectsOn 1 (tcpStep (run tcpInit [clientSends tcpFlagSyn 50 0 []])
    (clientSends tcpFlagAck 51 1101 [])).2) at hstep
  rw [he] at hstep
  exact absurd (hstep.1 _ rfl) (by decide)

end Cllm.Tcp
