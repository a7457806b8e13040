import Cllm.Tcp.Numbering

namespace Cllm.Tcp

open Libc Network Http

/-- The frames up to the first FIN hand over `data`: each is within the MTU, carries the next
bytes, and has the number `seq` that follows what went before; so has the FIN. -/
def Carried : UInt32 → List UInt8 → List Frame → Prop
  | _,_,[] => False
  | seq,data,f::fs =>
    if frameFlags f&&&tcpFlagFin≠0 then data=[] ∧ frameSeq f=seq
    else frameIpLength f≤netMtu ∧ frameSeq f=seq ∧ framePayload f <+: data ∧
      Carried (seq+UInt32.ofNat (framePayload f).length)
        (data.drop (framePayload f).length) fs

/-- The segments go out to a resolved address. -/
def Resolved (net : Net) (os : List OutSegment) : Prop :=
  ∀ o∈os,∃ m,arpLookup net.arpTable o.dstIp=some m

section Frames

variable {net : Net} {seq : UInt32} {data : List UInt8} {o : OutSegment} {os : List OutSegment}

theorem Resolved.congr {net' : Net} (h : Resolved net os) (hn : net'.arpTable=net.arpTable) :
    Resolved net' os := fun o ho => by rw [hn]; exact h o ho

theorem Resolved.mono {x : List OutSegment} (h : Resolved net os) (hx : x⊆os) :
    Resolved net x := fun o ho => h o (hx ho)

/-- A segment within the buffers is one frame. -/
theorem carried_cons (hr : Resolved net (o::os)) (hf : sentFin o=false)
    (hl : o.payload.length≤tcpPayloadMax) :
    Carried seq data (sendAll net (o::os)).2 ↔
      ipHdrLen+tcpHdrLen+o.payload.length≤netMtu ∧ o.seq=seq ∧ o.payload <+: data ∧
        Carried (seq+UInt32.ofNat o.payload.length) (data.drop o.payload.length)
          (sendAll (netSendTcp net o).1 os).2 := by
  obtain ⟨m,hm⟩ := hr o List.mem_cons_self
  obtain ⟨f,hs,hlen,hseq,hflags,hpay⟩ := netSendTcp_sent net o hm hl
  have hfin : ¬frameFlags f&&&tcpFlagFin≠0 := by
    rw [hflags]
    simpa [sentFin] using hf
  rw [sendAll,hs]
  simp only [List.cons_append,List.nil_append]
  rw [Carried,if_neg hfin,hlen,hseq,hpay]

theorem carried_fin (hr : Resolved net (o::os)) (hf : sentFin o=true) (hp : o.payload=[]) :
    Carried seq data (sendAll net (o::os)).2 ↔ data=[] ∧ o.seq=seq := by
  obtain ⟨m,hm⟩ := hr o List.mem_cons_self
  obtain ⟨f,hs,-,hseq,hflags,-⟩ := netSendTcp_sent net o hm (by simp [hp])
  have hfin : frameFlags f&&&tcpFlagFin≠0 := by
    rw [hflags]
    simpa [sentFin] using hf
  rw [sendAll,hs]
  simp only [List.cons_append,List.nil_append]
  rw [Carried,if_pos hfin,hseq]

/-- A segment beyond them is none. -/
theorem sendAll_dropped (hl : tcpPayloadMax<o.payload.length) :
    (sendAll net (o::os)).2=(sendAll net os).2 := by
  rw [sendAll,netSendTcp_dropped net o hl,List.nil_append]

theorem sendAll_arpTable (net : Net) (os : List OutSegment) :
    (sendAll net os).1.arpTable=net.arpTable := by
  induction os generalizing net with
  | nil => rfl
  | cons o os ih => exact (ih _).trans (netSendTcp_arpTable net o)

/-- Acknowledgements change nothing for what comes behind them. -/
theorem PureAcks.carried {x : List OutSegment} (h : PureAcks seq x) (hr : Resolved net (x++os)) :
    Carried seq data (sendAll net (x++os)).2 ↔
      Carried seq data (sendAll (sendAll net x).1 os).2 := by
  induction x generalizing net with
  | nil => rfl
  | cons o x ih =>
    obtain ⟨⟨hf,hp,ho⟩,hx⟩ := List.forall_mem_cons.mp h
    have hr' : Resolved (netSendTcp net o).1 (x++os) :=
      (hr.mono (List.subset_cons_self _ _)).congr (netSendTcp_arpTable net o)
    have hmtu : ipHdrLen+tcpHdrLen≤netMtu := by decide
    have hz : seq+UInt32.ofNat 0=seq := UInt32.add_zero seq
    rw [List.cons_append,carried_cons (show Resolved net (o::(x++os)) from hr)
      ((sentFin_eq _ hf).trans (by decide)) (by simp [hp]),ho,hp,List.length_nil,hz,
      List.drop_zero,ih hx hr']
    exact ⟨fun h => h.2.2.2,fun h => ⟨hmtu,rfl,List.nil_prefix,h⟩⟩

end Frames

/-- The response to the request that a step has parsed: the router's, or the 400. -/
def respondedWith (rr : HttpRequest → HttpResponse) (es : List Effect) : Option HttpResponse :=
  if parses es=[] then none else some (((routes es).head?.map rr).getD badRequest)

/-- What http_generate_response makes of the response is what the frames carry. -/
def Delivered (net : Net) (seq : UInt32) (resp : HttpResponse) (os : List OutSegment) : Prop :=
  ∃ g,httpGenerateResponse resp responseBufSize=some g ∧ g.rc=0 ∧
    Carried seq (g.buffer.take g.length) (sendAll net os).2

theorem PureAcks.delivered {net : Net} {seq : UInt32} {resp : HttpResponse}
    {x os : List OutSegment} (h : PureAcks seq x) (hr : Resolved net (x++os)) :
    Delivered net seq resp (x++os) ↔ Delivered (sendAll net x).1 seq resp os :=
  exists_congr fun _ => and_congr_right fun _ => and_congr_right fun _ => h.carried hr

section Answers

variable (rr : HttpRequest → HttpResponse) (s : TcpSocket) (n : Nat) (net : Net)

@[simp] theorem stored_remoteIp (seg : Segment) : (s.stored seg).1.remoteIp=s.remoteIp := by
  obtain ⟨b,n,h⟩ := storePayload_eq (s.ackPayload seg) seg.payload
  rw [TcpSocket.stored,h]
  rfl

/-- The segment of tcp_send_data. -/
abbrev dataSegment (s : TcpSocket) (data : List UInt8) : OutSegment :=
  ⟨s.localPort,s.remotePort,s.remoteIp,s.seq,s.ack,tcpFlagAck|||tcpFlagPsh,data⟩

theorem transmits_data (data : List UInt8) (flags : UInt8) :
    transmits ((tcpSendData s data).2++[tcpSendCtrl (tcpSendData s data).1 flags])=
      [dataSegment s data,ctrlSegment (tcpSendData s data).1 flags] := rfl

theorem sentFin_data (data : List UInt8) : sentFin (dataSegment s data)=false :=
  (sentFin_eq (tcpFlagAck|||tcpFlagPsh) rfl).trans (by decide)

theorem stored_dstIp (seg : Segment) :
    ∀ o∈transmits ((s.stored seg).2++dataAck (s.stored seg).1 seg),o.dstIp=s.remoteIp := by
  intro o ho
  rw [transmits_stored,dataAck] at ho
  split_ifs at ho
  · obtain rfl : o=ctrlSegment (s.stored seg).1 tcpFlagAck := by simpa [tcpSendCtrl] using ho
    exact stored_remoteIp s seg
  · simp at ho

theorem answer_dstIp : (answer rr s n).1.remoteIp=s.remoteIp ∧
    ∀ o∈transmits (answer rr s n).2,o.dstIp=s.remoteIp := by
  rw [transmits_answer,answer]
  rcases sendResponse_eq s (respond rr s n).1 with ⟨data,h⟩|h <;> rw [h]
  · refine ⟨rfl,fun o ho => ?_⟩
    simp only [transmits_data,List.mem_cons,List.not_mem_nil,or_false] at ho
    rcases ho with rfl|rfl <;> rfl
  · refine ⟨rfl,fun o ho => ?_⟩
    obtain rfl : o=ctrlSegment s (tcpFlagFin|||tcpFlagAck) := by simpa [tcpSendCtrl] using ho
    rfl

/-- A message that fits response_buf is what has to be carried. -/
theorem delivered_message {net : Net} {seq : UInt32} {resp : HttpResponse}
    {os : List OutSegment} {body : List UInt8}
    (hb : strncpy resp.body.bytes resp.bodyLength=some body)
    (hl : resp.messageSize<responseBufSize) :
    Delivered net seq resp os ↔ Carried seq (resp.message body) (sendAll net os).2 := by
  obtain ⟨g,hg,hrc,hok,-⟩ := httpGenerateResponse_spec resp responseBufSize
  obtain ⟨body',hb',hbuf,hlen⟩ := hok (hrc.mpr hl)
  obtain rfl : body=body' := Option.some.inj (hb.symm.trans hb')
  have ht : g.buffer.take g.length=resp.message body := by
    rw [hbuf,hlen,← message_length resp hb,List.take_length]
  constructor
  · rintro ⟨g',hg',-,hc⟩
    obtain rfl : g=g' := Option.some.inj (hg.symm.trans hg')
    rwa [ht] at hc
  · exact fun hc => ⟨g,hg,hrc.mpr hl,by rwa [ht]⟩

/-- The response and the FIN behind it arrive exactly when the message fits one packet. -/
theorem delivered_response (resp : HttpResponse) {net : Net}
    (hr : Resolved net (transmits ((sendResponse s resp).2++
      [tcpSendCtrl (sendResponse s resp).1 (tcpFlagFin|||tcpFlagAck)]))) :
    Delivered net s.seq resp (transmits ((sendResponse s resp).2++
        [tcpSendCtrl (sendResponse s resp).1 (tcpFlagFin|||tcpFlagAck)])) ↔
      resp.messageSize≤netMtu-ipHdrLen-tcpHdrLen := by
  have sizes := net_sizes
  have hbuf : responseBufSize=16640 := rfl
  have hpos := messageSize_pos resp
  have hfin (s : TcpSocket) : sentFin (ctrlSegment s (tcpFlagFin|||tcpFlagAck))=true :=
    (sentFin_eq (tcpFlagFin|||tcpFlagAck) rfl).trans (by decide)
  rcases sendResponse_cases s resp with ⟨body,hb,hlt,h⟩|⟨hge,h⟩
  · have hml := message_length resp hb
    rw [h,transmits_data] at hr ⊢
    rw [delivered_message hb hlt]
    have hr' := hr.mono (List.subset_cons_self _ _)
    by_cases hmax : resp.messageSize≤tcpPayloadMax
    · rw [carried_cons hr (sentFin_data s _) (by rwa [hml]),
        carried_fin (hr'.congr (netSendTcp_arpTable net _)) (hfin _) rfl]
      simp only [tcpSendData,ctrlSegment,hml,List.prefix_refl,List.drop_eq_nil_iff,le_refl,
        and_true]
      omega
    · rw [sendAll_dropped (by rw [hml]; omega),carried_fin hr' (hfin _) rfl]
      refine ⟨fun hc => ?_,fun hs => by omega⟩
      rw [hc.1,List.length_nil] at hml
      omega
  · refine ⟨?_,fun hs => absurd (show resp.messageSize<responseBufSize by omega) hge⟩
    rintro ⟨g,hg,hrc,-⟩
    obtain ⟨g',hg',hrc',-⟩ := httpGenerateResponse_spec resp responseBufSize
    obtain rfl : g=g' := Option.some.inj (hg.symm.trans hg')
    exact absurd (hrc'.mp hrc) hge

theorem routes_sendResponse (resp : HttpResponse) : routes (sendResponse s resp).2=[] := by
  rcases sendResponse_eq s resp with ⟨data,h⟩|h <;> rw [h] <;> rfl

/-- An answer is made of the response to what it has parsed. -/
theorem respondedWith_answer {x : List Effect} (hp : parses x=[]) (hr : routes x=[]) :
    respondedWith rr (x++(answer rr s n).2)=some (respond rr s n).1 := by
  have hroutes : routes (answer rr s n).2=routes (respond rr s n).2 := by
    simp [answer,routes_sendResponse,tcpSendCtrl]
  rw [respondedWith,parses_append,hp,parses_answer,routes_append,hr,hroutes]
  simp only [List.nil_append,reduceCtorEq,if_false,Option.some_inj]
  rw [respond]
  cases httpParseRequest s.rxBuf.bytes n with
  | none => rfl
  | some p => cases p <;> rfl

/-- A step's answer arrives exactly when the message fits one packet. -/
theorem Transition.delivered {rr : HttpRequest → HttpResponse} {s s' : TcpSocket} {seg : Segment}
    {es : List Effect} {resp : HttpResponse} {net : Net} (h : Transition rr s seg s' es)
    (hresp : respondedWith rr es=some resp)
    (hm : ∃ m,arpLookup net.arpTable s'.remoteIp=some m) :
    Delivered net s.seq resp (transmits es) ↔
      resp.messageSize≤netMtu-ipHdrLen-tcpHdrLen := by
  cases h with
  | pending =>
    rw [respondedWith,parses_append,parses_stored] at hresp
    simp [apply_ite parses,tcpSendCtrl] at hresp
  | answered n =>
    rw [respondedWith_answer rr _ n (parses_stored s seg) (routes_stored s seg)] at hresp
    obtain rfl := Option.some.inj hresp
    obtain ⟨hip,hdst⟩ := answer_dstIp rr (s.stored seg).1 n
    rw [hip,stored_remoteIp] at hm
    rw [stored_remoteIp] at hdst
    have hr : Resolved net (transmits ((s.stored seg).2++dataAck (s.stored seg).1 seg)++
        transmits (answer rr (s.stored seg).1 n).2) := by
      intro o ho
      rw [(List.mem_append.mp ho).elim (stored_dstIp s seg o) (hdst o)]
      exact hm
    have hr' := (hr.mono (List.subset_append_right _ _)).congr (sendAll_arpTable net
      (transmits ((s.stored seg).2++dataAck (s.stored seg).1 seg)))
    rw [transmits_append,(pureAcks_stored s seg).delivered hr,← stored_seq s seg]
    rw [transmits_answer] at hr' ⊢
    exact delivered_response _ _ hr'
  | _ => simp [respondedWith,tcpSendCtrl] at hresp

end Answers

theorem slotStep_delivered {i : Slot} {s : TcpSocket} {x : SlotInput}
    {rr : HttpRequest → HttpResponse} {ip now : UInt32} {resp : HttpResponse} {net : Net}
    (hx : x=.idle ∨ ∃ seg,x=.deliver rr ip now seg ∨ x=.accept rr ip now seg)
    (hresp : respondedWith rr (slotStep i s x).2=some resp)
    (hm : ∃ m,arpLookup net.arpTable (slotStep i s x).1.remoteIp=some m) :
    Delivered net s.seq resp (transmits (slotStep i s x).2) ↔
      resp.messageSize≤netMtu-ipHdrLen-tcpHdrLen := by
  rcases hx with rfl|⟨seg,rfl|rfl⟩
  · cases hresp
  · exact (socketReceive_transition rr ip now s seg).delivered hresp hm
  · -- a socket that has just been allocated has parsed nothing
    have ht := socketReceive_transition rr ip now (synSocket i now ip seg) seg
    rcases ht.synReceived rfl with ⟨-,-,he⟩|⟨-,-,he⟩ <;> rw [slotStep,he] at hresp <;> cases hresp

/-- To a client in the ARP table a step hands over the whole response, within the MTU and numbered
without a gap, exactly when its message is at most the 1460 bytes that one packet has for it. -/
theorem delivered_iff (i : Slot) (t : TcpStack) (rr : HttpRequest → HttpResponse) (ip : UInt32)
    (packet : List UInt8) (resp : HttpResponse) (net : Net)
    (hresp : respondedWith rr (effectsOn i (tcpStep t (.receive rr ip packet)).2)=some resp)
    (hm : ∃ m,arpLookup net.arpTable
      ((tcpStep t (.receive rr ip packet)).1.sockets i).remoteIp=some m) :
    Delivered net (t.sockets i).seq resp
        (transmits (effectsOn i (tcpStep t (.receive rr ip packet)).2)) ↔
      resp.messageSize≤netMtu-ipHdrLen-tcpHdrLen := by
  rw [tcpStep_effects] at hresp ⊢
  rw [tcpStep_sockets] at hm
  exact slotStep_delivered (slotInput_receive i t rr ip packet) hresp hm

theorem respondedWith_const {resp : HttpResponse} {es : List Effect} (hp : parses es≠[])
    (hr : routes es≠[]) : respondedWith (fun _ => resp) es=some resp := by
  obtain ⟨req,rest,h⟩ := List.exists_cons_of_ne_nil hr
  rw [respondedWith,if_neg hp,h]
  rfl

/-- An ARP table that knows the client. -/
def clientNet : Net where
  arpTable i := ⟨if i=0 then 0x0A000202 else 0,broadcastMac,decide (i=0)⟩
  ipId := 1

theorem delivered_iff_client : Delivered clientNet 1101 badRequest
    (transmits (effectsOn 1 (tcpStep connected getRequest).2)) :=
  (delivered_iff 1 connected _ _ _ badRequest clientNet
    (respondedWith_const (by decide +kernel) (by decide +kernel)) ⟨0,by decide +kernel⟩).mpr
    (by decide)

/-- A completion of 2000 bytes. -/
def longResponse : HttpResponse :=
  {badRequest with
    statusCode := 200
    body := .ofString _ (List.replicate 2000 97)
    bodyLength := 2000
    body_fits := by decide}

theorem longResponse_nulFree : longResponse.NulFree := by
  have hb := Buffer.ofString_take (n := httpResponseBodySize) (s := List.replicate 2000 97)
    (by rw [List.length_replicate]; decide)
  rw [List.length_replicate] at hb
  rw [HttpResponse.NulFree,longResponse,hb,List.mem_replicate]
  decide

/-- It is too long for the frame buffer; the connection goes on as if it had been sent. -/
theorem delivered_too_long : ¬∀ (i : Slot) (t : TcpStack) (rr : HttpRequest → HttpResponse)
    (ip : UInt32) (packet : List UInt8) (resp : HttpResponse) (net : Net),
    resp.NulFree → resp.bodyLength≤httpResponseBodySize-1 →
    respondedWith rr (effectsOn i (tcpStep t (.receive rr ip packet)).2)=some resp →
    (∃ m,arpLookup net.arpTable
      ((tcpStep t (.receive rr ip packet)).1.sockets i).remoteIp=some m) →
    Delivered net (t.sockets i).seq resp
      (transmits (effectsOn i (tcpStep t (.receive rr ip packet)).2)) := by
  intro h
  let packet := Segment.packet ⟨4000,httpPort,51,1101,tcpFlagAck,cstr "GET / HTTP/1.1\r\n\r\n"⟩
  let a : Action := .receive (fun _ => longResponse) 0x0A000202 packet
  have hresp : respondedWith (fun _ => longResponse) (effectsOn 1 (tcpStep connected a).2)=
      some longResponse := respondedWith_const (by decide +kernel) (by decide +kernel)
  have hm : ∃ m,arpLookup clientNet.arpTable
      ((tcpStep connected a).1.sockets 1).remoteIp=some m := ⟨0,by decide +kernel⟩
  have hd := h 1 connected _ _ _ longResponse clientNet longResponse_nulFree (by decide) hresp hm
  rw [tcpStep_effects] at hresp hd
  rw [tcpStep_sockets] at hm
  have hsize := (slotStep_delivered (slotInput_receive 1 connected _ _ _) hresp hm).mp hd
  have hmax : netMtu-ipHdrLen-tcpHdrLen=1460 := rfl
  have hbody : longResponse.bodyLength=2000 := rfl
  rw [HttpResponse.messageSize,hmax,hbody] at hsize
  omega

end Cllm.Tcp
