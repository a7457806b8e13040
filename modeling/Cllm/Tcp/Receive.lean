import Cllm.Framework.Machine
import Cllm.Http.Request
import Cllm.Http.Response
import Cllm.Network.Ip
import Cllm.Tcp.Socket

namespace Cllm.Tcp

open Libc Network Http

/-- What a call does besides changing its socket's fields: the net_send_tcp calls, the bytes
copied to rx_buf, and the calls of http_parse_request and route_request. -/
inductive Effect where
  | transmit (segment : OutSegment)
  | store (payload : List UInt8)
  | parse (request : List UInt8)
  | route (request : HttpRequest)
  deriving DecidableEq

/-- The control segment of tcp_send_ctrl. -/
def ctrlSegment (s : TcpSocket) (flags : UInt8) : OutSegment :=
  ⟨s.localPort,s.remotePort,s.remoteIp,s.seq,s.ack,flags,[]⟩

def tcpSendCtrl (s : TcpSocket) (flags : UInt8) : Effect := .transmit (ctrlSegment s flags)

def tcpSendData (s : TcpSocket) (data : List UInt8) : TcpSocket × List Effect :=
  ({s with seq := s.seq+UInt32.ofNat data.length},
    [.transmit ⟨s.localPort,s.remotePort,s.remoteIp,s.seq,s.ack,tcpFlagAck|||tcpFlagPsh,data⟩])

/-- The scan for CR LF CR LF: where the first one ends. -/
def findRequestEnd : List UInt8 → Option Nat
  | a::b::c::d::rest =>
    if a=cr ∧ b=lf ∧ c=cr ∧ d=lf then some 4
    else (findRequestEnd (b::c::d::rest)).map (·+1)
  | _ => none

/-- sizeof(response_buf) -/
abbrev responseBufSize : Nat := httpResponseBodySize+256

def badRequest : HttpResponse where
  statusCode := 400
  headers := .ofString _ (cstr "Content-Type: application/json\r\n")
  body := .ofString _ (cstr "\x7b\"error\":\"bad request\"\x7d")
  bodyLength := (cstr "\x7b\"error\":\"bad request\"\x7d").length
  headers_nul := by decide
  body_fits := by decide

/-- The response to rx_buf[0..requestLen), and the calls that make it. The parser stays inside
rx_buf, so its `none` does not occur. -/
def respond (routeRequest : HttpRequest → HttpResponse) (s : TcpSocket) (requestLen : Nat) :
    HttpResponse × List Effect :=
  match httpParseRequest s.rxBuf.bytes requestLen with
  | some (some req) => (routeRequest req,[.parse (s.rxBuf.bytes.take requestLen),.route req])
  | _ => (badRequest,[.parse (s.rxBuf.bytes.take requestLen)])

/-- Sending the generated response, when there is one. -/
def sendResponse (s : TcpSocket) (resp : HttpResponse) : TcpSocket × List Effect :=
  match httpGenerateResponse resp responseBufSize with
  | some g => if g.rc=0 then tcpSendData s (g.buffer.take g.length) else (s,[])
  | none => (s,[])

/-- The branch for a complete request: respond, drop the buffer, and send FIN. -/
def answer (routeRequest : HttpRequest → HttpResponse) (s : TcpSocket) (requestLen : Nat) :
    TcpSocket × List Effect :=
  let r := respond routeRequest s requestLen
  let d := sendResponse s r.1
  let s := {d.1 with rxLen := 0,state := .finWait1}
  (s,r.2++d.2++[tcpSendCtrl s (tcpFlagFin|||tcpFlagAck)])

/-- if (payload_len > 0 && rx_len + payload_len < TCP_RX_BUF_SIZE) memcpy(...) -/
def storePayload (s : TcpSocket) (payload : List UInt8) : TcpSocket × List Effect :=
  if h : payload.length>0 ∧ s.rxLen+payload.length<tcpRxBufSize then
    ({s with
        rxBuf := s.rxBuf.write s.rxLen payload h.2.le
        rxLen := s.rxLen+payload.length},[.store payload])
  else (s,[])

def receiveSynReceived (s : TcpSocket) (seg : Segment) : TcpSocket × List Effect :=
  let s := {s with ack := seg.seq+1}
  if seg.acks then
    let s := {s with state := .established,seq := seg.ack}
    (s,[tcpSendCtrl s tcpFlagAck])
  else (s,[tcpSendCtrl s (tcpFlagSyn|||tcpFlagAck)])

/-- The data branch, once the flags have been checked. -/
def receiveData (routeRequest : HttpRequest → HttpResponse) (s : TcpSocket)
    (payload : List UInt8) : TcpSocket × List Effect :=
  let w := storePayload s payload
  let s := w.1
  let acked := if payload.length>0 then [tcpSendCtrl s tcpFlagAck] else []
  if s.rxLen>0 then
    match findRequestEnd s.received with
    | some requestLen =>
      let a := answer routeRequest s requestLen
      (a.1,w.2++acked++a.2)
    | none => (s,w.2++acked)
  else (s,w.2++acked++[tcpSendCtrl s tcpFlagAck])

def receiveEstablished (routeRequest : HttpRequest → HttpResponse) (s : TcpSocket)
    (seg : Segment) : TcpSocket × List Effect :=
  if seg.syn then (s,[])
  else
    let s := {s with ack := seg.seq+UInt32.ofNat seg.payload.length}
    if seg.fin then
      let s := {s with ack := s.ack+1}
      let effects := [tcpSendCtrl s tcpFlagAck]
      let s := {s with state := if s.state=.established then .closeWait else .lastAck}
      if s.state=.lastAck then (socketClose s,effects) else (s,effects)
    else if !seg.acks then (s,[])
    else receiveData routeRequest s seg.payload

def receiveFinWait1 (s : TcpSocket) (seg : Segment) : TcpSocket × List Effect :=
  if seg.fin then ({s with ack := s.ack+1,state := .timeWait},[])
  else if seg.acks then ({s with state := .finWait2},[])
  else (s,[])

def receiveFinWait2 (s : TcpSocket) (seg : Segment) : TcpSocket × List Effect :=
  if seg.fin then
    let s := {s with ack := s.ack+1}
    (socketClose {s with state := .timeWait},[tcpSendCtrl s tcpFlagAck])
  else (s,[])

def receiveLastAck (s : TcpSocket) (seg : Segment) : TcpSocket × List Effect :=
  if seg.acks then (socketClose s,[]) else (s,[])

/-- The updates before the switch: a zero remote_ip is filled in, last_activity is set. -/
def TcpSocket.touch (s : TcpSocket) (remoteIp now : UInt32) : TcpSocket :=
  {s with
    remoteIp := if s.remoteIp=0 then remoteIp else s.remoteIp
    lastActivity := now}

/-- tcp_receive from the point where it has a socket. -/
def socketReceive (routeRequest : HttpRequest → HttpResponse) (remoteIp now : UInt32)
    (s : TcpSocket) (seg : Segment) : TcpSocket × List Effect :=
  let s := s.touch remoteIp now
  match s.state with
  | .listen => (s,[])
  | .synReceived => receiveSynReceived s seg
  | .established => receiveEstablished routeRequest s seg
  | .closeWait => receiveEstablished routeRequest s seg
  | .finWait1 => receiveFinWait1 s seg
  | .finWait2 => receiveFinWait2 s seg
  | .lastAck => receiveLastAck s seg
  | _ => (s,[])

/-- The socket tcp_receive sets up for a SYN in a slot it has allocated. -/
def synSocket (i : Slot) (now remoteIp : UInt32) (seg : Segment) : TcpSocket :=
  {TcpSocket.zero with
    state := .synReceived
    localPort := seg.dstPort
    remotePort := seg.srcPort
    remoteIp := remoteIp
    seq := 1000+UInt32.ofNat i.val*100+(now&&&(0xFFFF : UInt32))}

/-- Which slot a segment goes to: one that is found, one that is allocated, or none. -/
inductive Target where
  | found (i : Slot)
  | allocated (i : Slot)
  | nowhere
  deriving DecidableEq

def target (sockets : Sockets) (remoteIp : UInt32) (seg : Segment) : Target :=
  match socketLookup sockets remoteIp seg.srcPort seg.dstPort false with
  | some i => .found i
  | none =>
    if seg.syn then
      match listenerLookup sockets seg.dstPort with
      | some _ =>
        match socketAlloc sockets with
        | some (i,_) => .allocated i
        | none => .nowhere
      | none => .nowhere
    else .nowhere

/-- The RST for a segment without a connection. -/
def rstSegment (remoteIp : UInt32) (seg : Segment) : OutSegment :=
  ⟨seg.dstPort,seg.srcPort,remoteIp,0,seg.seq+1+(if seg.syn then 1 else 0),tcpFlagRst,[]⟩

/-- An effect and the slot whose connection it belongs to, if any. -/
structure Event where
  slot : Option Slot
  effect : Effect
  deriving DecidableEq

/-- tcp_receive on an extracted segment. -/
def tcpInput (routeRequest : HttpRequest → HttpResponse) (remoteIp : UInt32) (seg : Segment)
    (t : TcpStack) : TcpStack × List Event :=
  match target t.sockets remoteIp seg with
  | .found i =>
    let r := socketReceive routeRequest remoteIp t.now (t.sockets i) seg
    ({t with sockets := Function.update t.sockets i r.1},r.2.map (⟨some i,·⟩))
  | .allocated i =>
    let r := socketReceive routeRequest remoteIp t.now (synSocket i t.now remoteIp seg) seg
    ({t with sockets := Function.update t.sockets i r.1},r.2.map (⟨some i,·⟩))
  | .nowhere => (t,if seg.rst then [] else [⟨none,.transmit (rstSegment remoteIp seg)⟩])

/-- tcp_receive; `remoteIp` is tcp_current_remote_ip. -/
def tcpReceive (routeRequest : HttpRequest → HttpResponse) (remoteIp : UInt32)
    (packet : List UInt8) (t : TcpStack) : TcpStack × List Event :=
  match tcpSegment packet with
  | none => (t,[])
  | some seg => tcpInput routeRequest remoteIp seg t

/-- The loop body of tcp_periodic. -/
def socketPeriodic (now : UInt32) (s : TcpSocket) : TcpSocket × List Effect :=
  if s.state=.synReceived ∧ now-s.lastActivity>1 then
    ({s with lastActivity := now},[tcpSendCtrl s (tcpFlagSyn|||tcpFlagAck)])
  else (s,[])

def tcpPeriodic (t : TcpStack) : TcpStack × List Event :=
  let now := t.now+1
  (⟨fun i => (socketPeriodic now (t.sockets i)).1,now⟩,
    (List.finRange tcpMaxSockets).flatMap fun i =>
      (socketPeriodic now (t.sockets i)).2.map (⟨some i,·⟩))

/-- One call into the stack. The handlers behind route_request are the environment's choice. -/
inductive Action where
  | receive (routeRequest : HttpRequest → HttpResponse) (remoteIp : UInt32) (packet : List UInt8)
  | periodic

def tcpStep (t : TcpStack) : Action → TcpStack × List Event
  | .receive routeRequest remoteIp packet => tcpReceive routeRequest remoteIp packet t
  | .periodic => tcpPeriodic t

abbrev run := Machine.runState tcpStep
abbrev events := Machine.outputs tcpStep

/-- The effects of a run on the connection in one slot. -/
def effectsOn (i : Slot) (es : List Event) : List Effect :=
  es.filterMap fun e => if e.slot=some i then some e.effect else none

end Cllm.Tcp
