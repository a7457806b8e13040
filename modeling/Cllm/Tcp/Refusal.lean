import Cllm.Tcp.Ingress

namespace Cllm.Tcp

open Libc Network Http

/-- How much of the sequence space the segment occupies. -/
def Segment.span (seg : Segment) : UInt32 :=
  UInt32.ofNat seg.payload.length+(if seg.syn then 1 else 0)+(if seg.fin then 1 else 0)

/-- The reset `r` is one the sender of `seg` has to accept: it stands at the acknowledged number,
or, where `seg` acknowledges nothing, it acknowledges all of `seg`. -/
structure Refuses (seg r : Segment) : Prop where
  rst : r.rst
  numbered : seg.acks → r.seq=seg.ack
  acknowledges : ¬seg.acks → r.seq=0 ∧ r.acks ∧ r.ack=seg.seq+seg.span

/-- The header length is at least that of a header without options, and the header is there. -/
structure ValidOffset (packet : List UInt8) : Prop where
  header : tcpHdrLen ≤ (load8 packet 12>>>4).toNat*4
  inside : (load8 packet 12>>>4).toNat*4 ≤ packet.length

/-- What the peer reads in the segment that net_send_tcp writes. -/
theorem tcpSegment_written (o : OutSegment) :
    tcpSegment (tcpWritten o)=some ⟨o.srcPort,o.dstPort,o.seq,o.ack,o.flags,o.payload⟩ :=
  tcpSegment_header o _

/-- The reset as the peer reads it. -/
def resetFor (seg : Segment) : Segment :=
  ⟨seg.dstPort,seg.srcPort,0,seg.seq+1+(if seg.syn then 1 else 0),tcpFlagRst,[]⟩

variable {seg : Segment} {ip : UInt32}

theorem tcpReceive_nowhere (rr : HttpRequest → HttpResponse) {packet : List UInt8} {t : TcpStack}
    (hseg : tcpSegment packet=some seg) (hrst : seg.rst=false)
    (hnone : target t.sockets ip seg=.nowhere) :
    emitted (tcpReceive rr ip packet t).2=[rstSegment ip seg] := by
  rw [tcpReceive,hseg]
  simp only [tcpInput,hnone,hrst]
  rfl

theorem resetFor_silent (seg : Segment) : (resetFor seg).acks=false := by
  change decide (tcpFlagRst&&&tcpFlagAck≠0)=false
  decide

theorem resetFor_rst (seg : Segment) : (resetFor seg).rst=true := by
  change decide (tcpFlagRst&&&tcpFlagRst≠0)=true
  decide

theorem refuses_resetFor_iff : Refuses seg (resetFor seg) ↔ seg.acks ∧ seg.ack=0 := by
  constructor
  · intro h
    by_cases hack : seg.acks=true
    · exact ⟨hack,(h.numbered hack).symm⟩
    · obtain ⟨-,hacks,-⟩ := h.acknowledges hack
      rw [resetFor_silent] at hacks
      cases hacks
  · rintro ⟨hack,hzero⟩
    refine ⟨resetFor_rst seg,?_,?_⟩
    · intro _
      exact hzero.symm
    · intro h
      exact absurd hack h

/-- A segment without a connection is refused as its sender expects only when it acknowledges
number 0. -/
theorem tcpReceive_refuses_iff (rr : HttpRequest → HttpResponse) {packet : List UInt8}
    {t : TcpStack} (hseg : tcpSegment packet=some seg) (hrst : seg.rst=false)
    (hnone : target t.sockets ip seg=.nowhere) :
    (∃ o r,emitted (tcpReceive rr ip packet t).2=[o] ∧ tcpSegment (tcpWritten o)=some r ∧
      Refuses seg r) ↔ seg.acks ∧ seg.ack=0 := by
  have hsent := tcpReceive_nowhere rr hseg hrst hnone
  have hread : tcpSegment (tcpWritten (rstSegment ip seg))=some (resetFor seg) :=
    tcpSegment_written _
  rw [← refuses_resetFor_iff]
  constructor
  · rintro ⟨o,r,ho,hr,h⟩
    rw [hsent] at ho
    obtain rfl : rstSegment ip seg=o := by simpa using ho
    rw [hread] at hr
    obtain rfl : resetFor seg=r := Option.some.inj hr
    exact h
  · intro h
    exact ⟨_,_,hsent,hread,h⟩

/-- An ACK of number 0 to a port that nothing listens on. -/
def strayAck : Segment := ⟨4000,81,50,0,tcpFlagAck,[]⟩

theorem stray_refused :
    (∃ o r,emitted (tcpReceive (fun _ => badRequest) 0x0A000202 strayAck.packet tcpInit).2=[o] ∧
      tcpSegment (tcpWritten o)=some r ∧ Refuses strayAck r) ↔
      strayAck.acks ∧ strayAck.ack=0 :=
  tcpReceive_refuses_iff _ (tcpSegment_packet strayAck) (by decide) (by decide)

/-- A SYN to a port that nothing listens on. -/
def straySyn : Segment := ⟨4000,81,50,0,tcpFlagSyn,[]⟩

/-- Its sender gets a reset without ACK, and with the number after the next. -/
theorem syn_not_refused :
    ¬∀ (rr : HttpRequest → HttpResponse) (ip : UInt32) (packet : List UInt8) (seg : Segment)
      (t : TcpStack),tcpSegment packet=some seg → ValidOffset packet → seg.rst=false →
        target t.sockets ip seg=.nowhere →
        ∃ o r,emitted (tcpReceive rr ip packet t).2=[o] ∧ tcpSegment (tcpWritten o)=some r ∧
          Refuses seg r := by
  intro hall
  have hseg := tcpSegment_packet straySyn
  have hnone : target tcpInit.sockets 0x0A000202 straySyn=.nowhere := by decide
  obtain ⟨o,r,ho,hr,h⟩ := hall (fun _ => badRequest) 0x0A000202 straySyn.packet straySyn tcpInit
    hseg ⟨by decide,by decide⟩ (by decide) hnone
  rw [tcpReceive_nowhere _ hseg (by decide) hnone] at ho
  obtain rfl : rstSegment 0x0A000202 straySyn=o := by simpa using ho
  rw [tcpSegment_written] at hr
  obtain rfl : resetFor straySyn=r := Option.some.inj hr
  obtain ⟨-,hacks,-⟩ := h.acknowledges (by decide)
  rw [resetFor_silent] at hacks
  cases hacks

end Cllm.Tcp
