import Cllm.Tcp.Stream

namespace Cllm.Tcp

open Libc Network Http

/-- A well-formed POST request: its header lines, one of which gives the length of the body. -/
structure Post where
  target : List UInt8
  version : List UInt8
  headers : List (List UInt8)
  body : List UInt8
  target_ne : target≠[]
  target_token : blank∉target ∧ cr∉target ∧ lf∉target
  version_token : blank∉version ∧ cr∉version ∧ lf∉version
  headers_lines : ∀ h∈headers,h≠[] ∧ cr∉h ∧ lf∉h
  content_length : ∃ name pad,name.map lowerCase=cstr "content-length:" ∧ (∀ c∈pad,c=blank) ∧
    name++pad++uintText body.length 10 false∈headers
  body_ne : body≠[]

namespace Post

variable (post : Post)

def lines : List (List UInt8) := (cstr "POST "++post.target++blank::post.version)::post.headers

/-- The request line, the headers and the blank line. -/
def head : List UInt8 := post.lines.flatMap (·++[cr,lf])++[cr,lf]

def text : List UInt8 := post.head++post.body

theorem lines_plain : ∀ l∈post.lines,l≠[] ∧ cr∉l := by
  refine List.forall_mem_cons.mpr ⟨⟨by simp [cstr],?_⟩,fun h hh => ?_⟩
  · have h1 : cr∉cstr "POST " := by decide
    have h2 : cr≠blank := by decide
    simp [h1,h2,post.target_token.2.1,post.version_token.2.1]
  · exact ⟨(post.headers_lines h hh).1,(post.headers_lines h hh).2.1⟩

end Post

/-- The first blank line behind lines that are not empty is the one that follows them. -/
theorem firstEnd_lines {lines : List (List UInt8)} (hl : ∀ l∈lines,l≠[] ∧ cr∉l)
    (hne : lines≠[]) (rest : List UInt8) :
    Search.firstEnd crlfCrlf (lines.flatMap (·++[cr,lf])++[cr,lf]++rest)=
      some (lines.flatMap (·++[cr,lf])++[cr,lf]).length := by
  induction lines with
  | nil => exact absurd rfl hne
  | cons l lines ih =>
    obtain ⟨⟨-,hcr⟩,hl⟩ := List.forall_mem_cons.mp hl
    cases lines with
    | nil =>
      have h : [l].flatMap (·++[cr,lf])++[cr,lf]++rest=l++(cr::lf::cr::lf::rest) := by simp
      rw [h,Search.firstEnd_skip (a := cr) rfl hcr,Search.firstEnd,if_pos ⟨rest,rfl⟩]
      simp
      omega
    | cons m lines =>
      obtain ⟨x,m',rfl⟩ := List.exists_cons_of_ne_nil (hl m (by simp)).1
      have hlf : cr≠lf := by decide
      have hx : cr≠x := fun h => (hl _ (List.mem_cons_self)).2 (by simp [h])
      have h : (l::(x::m')::lines).flatMap (·++[cr,lf])++[cr,lf]++rest=
          l++(cr::lf::(((x::m')::lines).flatMap (·++[cr,lf])++[cr,lf]++rest)) := by simp
      rw [h,Search.firstEnd_skip (a := cr) rfl hcr,Search.firstEnd,if_neg,Search.firstEnd,if_neg,
        ih hl (by simp)]
      · simp
        omega
      · simp [hlf]
      · simp [hx]

/-- The request that is routed was cut off behind its headers. -/
theorem Transition.routes_bodyLength {rr : HttpRequest → HttpResponse} {s s' : TcpSocket}
    {seg : Segment} {es : List Effect} (h : Transition rr s seg s' es) :
    ∀ req∈routes es,req.bodyLength=0 := by
  cases h with
  | pending => rw [routes_append,routes_stored]; simp [apply_ite routes,tcpSendCtrl]
  | answered n _ _ hr =>
    rw [findRequestEnd_eq] at hr
    rw [routes_append,routes_stored,List.nil_append]
    rcases routes_answer rr (s.stored seg).1 n with h|⟨req,hp,h⟩
    · simp [h]
    · have ht : Search.firstEnd crlfCrlf ((s.stored seg).1.rxBuf.bytes.take n)=some n := by
        rw [received_take (Search.firstEnd_some hr).2.1]
        exact Search.firstEnd_take hr
      rw [h]
      simpa using httpParseRequest_bodyLength ht hp
  | _ => simp [tcpSendCtrl]

theorem slotStep_bodyLength (i : Slot) (s : TcpSocket) (x : SlotInput) :
    ∀ req∈routes (slotStep i s x).2,req.bodyLength=0 := by
  cases x with
  | idle => simp [slotStep]
  | deliver rr ip now seg => exact (socketReceive_transition rr ip now s seg).routes_bodyLength
  | accept rr ip now seg =>
    exact (socketReceive_transition rr ip now (synSocket i now ip seg) seg).routes_bodyLength
  | tick now =>
    rw [slotStep,socketPeriodic]
    split_ifs <;> simp [tcpSendCtrl]

/-- No request that is routed in any run has a body. -/
theorem routes_bodyLength (i : Slot) (t : TcpStack) (as : List Action) :
    ∀ req∈routes (effectsOn i (events t as)),req.bodyLength=0 := by
  induction as generalizing t with
  | nil => simp [effectsOn]
  | cons a as ih =>
    rw [events,Machine.outputs_cons,effectsOn_append,routes_append,tcpStep_effects]
    intro req h
    rcases List.mem_append.mp h with h|h
    · exact slotStep_bodyLength i _ _ req h
    · exact ih _ req h

/-- The request is routed with all of its body. -/
def Post.Routed (post : Post) (rs : List HttpRequest) : Prop :=
  ∃ req∈rs,req.bodyLength=post.body.length ∧ req.body.bytes.take req.bodyLength=post.body

/-- Of a POST request only the head is parsed, however it is cut, so it is never routed with
its body. -/
theorem post_not_routed (i : Slot) (t : TcpStack) (as : List Action) (post : Post)
    (hs : (t.sockets i).state=.established) (hl : (t.sockets i).rxLen=0)
    (hd : ∀ seg∈segmentsTo i t as,seg.IsData)
    (hstream : (segmentsTo i t as).flatMap Segment.payload=post.text)
    (hlen : post.text.length≤2047) :
    parses (effectsOn i (events t as))=[post.head] ∧
      ¬post.Routed (routes (effectsOn i (events t as))) := by
  refine ⟨?_,?_⟩
  · have hend : Search.firstEnd crlfCrlf post.text=some post.head.length :=
      firstEnd_lines post.lines_plain (by simp [Post.lines]) post.body
    rw [parses_stream hs hl hd hstream (Nat.lt_succ_of_le hlen),requestsIn,hend]
    simp [Post.text]
  · rintro ⟨req,hreq,hlength,-⟩
    rw [routes_bodyLength i t as req hreq] at hlength
    exact post.body_ne (List.length_eq_zero_iff.mp hlength.symm)

/-- POST / with a one-byte body. -/
def onePost : Post where
  target := cstr "/"
  version := cstr "HTTP/1.1"
  headers := [cstr "Content-Length: 1"]
  body := cstr "x"
  target_ne := by decide
  target_token := by decide
  version_token := by decide
  headers_lines := by decide
  content_length := ⟨cstr "Content-Length:",cstr " ",by decide +kernel,by decide +kernel,by decide +kernel⟩
  body_ne := by decide

theorem post_not_routed_onePost :
    parses (effectsOn 1 (events connected [clientSends tcpFlagAck 51 1101 onePost.text]))=
      [onePost.head] ∧
    ¬onePost.Routed (routes (effectsOn 1
      (events connected [clientSends tcpFlagAck 51 1101 onePost.text]))) :=
  post_not_routed 1 connected _ onePost (by decide) (by decide) (by decide) (by decide)
    (by decide)

/-- It is routed, with content_length 1 and no body. -/
theorem onePost_counterexample : ¬∀ (i : Slot) (t : TcpStack) (as : List Action) (post : Post),
    (t.sockets i).state=.established → (t.sockets i).rxLen=0 →
    (∀ seg∈segmentsTo i t as,seg.IsData ∧ seg.rst=false ∧ seg.payload≠[]) →
    (segmentsTo i t as).flatMap Segment.payload=post.text → post.text.length≤2047 →
    post.Routed (routes (effectsOn i (events t as))) := by
  intro h
  have hr : (routes (effectsOn 1 (events connected [clientSends tcpFlagAck 51 1101
      onePost.text]))).map (fun r => (r.contentLength,r.bodyLength))=[(1,0)] := by
    decide +kernel
  obtain ⟨req,hreq,hlength,-⟩ := h 1 connected [clientSends tcpFlagAck 51 1101 onePost.text]
    onePost (by decide) (by decide) (by decide) (by decide) (by decide)
  have hmem := List.mem_map_of_mem (f := fun r => (r.contentLength,r.bodyLength)) hreq
  rw [hr] at hmem
  obtain ⟨-,hz⟩ := Prod.mk.inj (List.mem_singleton.mp hmem)
  rw [hz] at hlength
  exact absurd hlength (by decide)

end Cllm.Tcp
