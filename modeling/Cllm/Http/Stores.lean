import Cllm.Framework.Trace
import Cllm.Http.RequestBounds

namespace Cllm.Http

open Libc Trace

/-- A write to the entry `index` of an array of `size` bytes. -/
structure Store where
  size : Nat
  index : Nat
  deriving DecidableEq

/-- A computation with its writes. A read past the end of the memory is an error. -/
abbrev Run (α : Type) := Traced Store Unit α

/-- The first `n` entries of an array, in turn. -/
def stores (size n : Nat) : List Store := (List.range n).map fun i => ⟨size,i⟩

namespace Run

def reading {α : Type} (x : Option α) : Run α :=
  match x with
  | some a => pure a
  | none => .fail ()

/-- strncpy(field, src, n); field[n] = NUL. -/
def copy {size : Nat} (src : List UInt8) (n : Nat) (h : n<size) : Run (CField size) := do
  let f ← reading (CField.copy src n h)
  .emit (stores size (n+1)) f

theorem value_fits (t : {t : List UInt8 // t.length≤63}) : t.1.length<64 :=
  Nat.lt_succ_of_le t.2

def parseHeader (header : List UInt8) (request : HttpRequest) : Run HttpRequest := do
  if ← reading (strStartsWithCi header (cstr "Content-Length:")) then
    let value ← reading (skipBlanks (header.drop 15))
    let n ← reading (parseDigits value 0)
    pure {request with contentLength := n}
  else if ← reading (strStartsWithCi header (cstr "Content-Type:")) then
    let value ← reading (skipBlanks (header.drop 13))
    let t ← reading (takeValue 63 value)
    .emit (stores 64 (t.1.length+1))
      {request with contentType := ⟨t.1,value_fits t⟩}
  else pure request

def parseRequestLine (line : List UInt8) (request : HttpRequest) : Run (Option HttpRequest) := do
  let (method,rest) ← reading (scanToken line)
  if rest.head?=some 0 then pure none
  else if hm : method.length<16 then
    let m ← copy line method.length hm
    let (path,rest') ← reading (scanToken rest.tail)
    if rest'.head?=some 0 then pure none
    else if hp : path.length<256 then
      let p ← copy rest.tail path.length hp
      let versionLen ← reading (strlen rest'.tail)
      if hv : versionLen<16 then
        let v ← copy rest'.tail versionLen hv
        pure (some {request with method := m,path := p,version := v})
      else pure none
    else pure none
  else pure none

/-- A header line that is not empty. -/
def line (nonempty : Prop) [Decidable nonempty] (header : List UInt8) (request : HttpRequest) :
    Run HttpRequest := if nonempty then parseHeader header request else pure request

def parseHeaderLines (raw : List UInt8) (pos headerStart : Nat) (request : HttpRequest) :
    Run HttpRequest :=
  if headerStart<pos then do
    let d ← reading (findCrlf raw (pos-headerStart) headerStart)
    let r ← line (headerStart+d>headerStart) (raw.drop headerStart) request
    parseHeaderLines raw pos (headerStart+d+2) r
  else pure request
termination_by pos-headerStart

def headerLoop (raw : List UInt8) (length : Nat) :
    (n pos headersStart : Nat) → HttpRequest → Run (Nat × Nat × HttpRequest)
  | 0,_,headersStart,request => pure (0,headersStart,request)
  | n+1,pos,headersStart,request => do
    if ← reading (crlfAt raw pos) then
      if ← reading (blankLineAt raw length pos) then pure (pos+4,headersStart,request)
      else
        let request ← parseHeaderLines raw pos headersStart request
        headerLoop raw length n (pos+1) (pos+2) request
    else headerLoop raw length n (pos+1) headersStart request

end Run

theorem spans_lt {c : UInt8} {cs : List UInt8} {n m : Nat} (hc : c≠0)
    (hn : lineSpan (c::cs)=some n) (hm : eolSpan ((c::cs).drop n)=some m) :
    (((c::cs).drop n).drop m).length<(c::cs).length := by
  have hpos : 0<n+m := by
    by_cases he : c=cr ∨ c=lf
    · have hzero : n=0 := by simpa [lineSpan,he] using hn.symm
      subst hzero
      rw [List.drop_zero,eolSpan,if_pos he] at hm
      obtain ⟨k,-,rfl⟩ := Option.map_eq_some_iff.mp hm
      omega
    · rw [lineSpan,if_neg (by tauto)] at hn
      obtain ⟨k,-,rfl⟩ := Option.map_eq_some_iff.mp hn
      omega
  simp only [List.length_drop,List.length_cons]
  omega

namespace Run

def remainingHeaders (h : List UInt8) (request : HttpRequest) : Run HttpRequest :=
  match h with
  | [] => .fail ()
  | c::cs =>
    if _hc : c=0 then pure request
    else
      match _hn : lineSpan (c::cs) with
      | none => .fail ()
      | some n => do
        let r ← line (n>0) (c::cs) request
        match _hm : eolSpan ((c::cs).drop n) with
        | none => .fail ()
        | some m => remainingHeaders (((c::cs).drop n).drop m) r
termination_by h.length
decreasing_by exact spans_lt _hc _hn _hm

theorem headers_fit (n : Nat) : min n 1023<1024 := Nat.lt_succ_of_le (Nat.min_le_right n _)

def copyHeaders (raw : List UInt8) (lineEnd bodyStart headersStart : Nat)
    (request : HttpRequest) : Run HttpRequest := do
  let headersLength := if bodyStart>headersStart+4 then bodyStart-headersStart-4 else 0
  let headers : CField 1024 ← copy (raw.drop (lineEnd+2)) (min headersLength 1023)
    (headers_fit headersLength)
  remainingHeaders (headers.bytes++[0]) {request with headers := headers}

theorem body_fits (n : Nat) : min n (httpRequestBodySize-1)<httpRequestBodySize :=
  Nat.lt_succ_of_le (Nat.min_le_right n _)

def copyBody (raw : List UInt8) (length bodyStart : Nat) (request : HttpRequest) :
    Run HttpRequest :=
  if bodyStart<length then do
    let rest := length-bodyStart
    let n :=
      if request.contentLength>0 ∧ request.contentLength<rest then request.contentLength else rest
    let bodyLen := min n (httpRequestBodySize-1)
    let body ← copy (raw.drop bodyStart) bodyLen (body_fits n)
    pure {request with body := body,bodyLength := bodyLen}
  else pure request

/-- The NULs at the start of the fields. -/
def init : Run HttpRequest :=
  .emit (stores 16 1++stores 256 1++stores 16 1++stores 1024 1++stores httpRequestBodySize 1++
    stores 64 1) HttpRequest.init

/-- The copy of the request line in an array of 256 bytes. -/
def requestLine (raw : List UInt8) (lineEnd : Nat) : Run (List UInt8) := do
  let line ← reading (strncpy raw lineEnd)
  .emit (stores 256 (lineEnd+1)) line

def httpParseRequest (raw : List UInt8) (length : Nat) : Run (Option HttpRequest) := do
  if length=0 ∨ length>httpRequestBodySize+4096 then pure none
  else
    let request ← init
    let lineEnd ← reading (findCrlf raw (length-1) 0)
    if lineEnd+1≥length then pure none
    else if lineEnd≥256 then pure none
    else
      let line ← requestLine raw lineEnd
      match ← parseRequestLine (line++[0]) request with
      | none => pure none
      | some request =>
        let (bodyStart,headersStart,request) ←
          headerLoop raw length (length-1-(lineEnd+2)) (lineEnd+2) (lineEnd+2) request
        let bodyStart := if bodyStart=0 then length else bodyStart
        let request ← copyHeaders raw lineEnd bodyStart headersStart request
        let request ← copyBody raw length bodyStart request
        if request.bodyLength>httpRequestBodySize-1 then pure none
        else pure (some request)

end Run

/-- A write is to be inside its array. -/
def writing : Contract Store Unit := ⟨fun _ => 0,fun s => s.index<s.size,fun _ => True⟩

/-- The twin `x` returns what the parser does, and writes inside the arrays. -/
structure Mirrors {α : Type} (x : Run α) (y : Option α) : Prop where
  result : x.result=y.elim (.error ()) .ok
  inside : ∀ b,writing.Triple b x fun _ _ => True

section Rules

variable {α β : Type} {x : Run α} {y : Option α} {f : α → Run β} {g : α → Option β}

theorem mirrors_pure (a : α) : Mirrors (pure a) (some a) := ⟨rfl,fun _ => .pure trivial⟩

theorem mirrors_fail : Mirrors (.fail () : Run α) none := ⟨rfl,fun _ => .fail trivial⟩

theorem mirrors_reading (y : Option α) : Mirrors (Run.reading y) y := by
  cases y with
  | none => exact mirrors_fail
  | some a => exact mirrors_pure a

theorem mirrors_emit {es : List Store} (h : ∀ e∈es,e.index<e.size) (a : α) :
    Mirrors (.emit es a) (some a) := by
  refine ⟨rfl,fun b => .emit h ?_ trivial⟩
  have hzero : (es.map fun _ => 0).sum=0 := by simp
  exact hzero.le.trans (Nat.zero_le b)

theorem Mirrors.bindOf (hx : Mirrors x y) (hf : ∀ a,y=some a → Mirrors (f a) (g a)) :
    Mirrors (x >>= f) (y.bind g) where
  result := by
    rw [Traced.result_bind,hx.result]
    cases y with
    | none => rfl
    | some a => exact (hf a rfl).result
  inside b := by
    have hb := hx.inside b
    have hpost : writing.Triple b x fun a _ => y=some a := by
      refine ⟨hb.allowed,hb.cost,hb.fails,?_⟩
      intro a ha
      rw [hx.result] at ha
      cases y with
      | none => cases ha
      | some a' =>
        cases ha
        rfl
    exact hpost.bind fun a c _ ha => (hf a ha).inside c

theorem Mirrors.bind (hx : Mirrors x y) (hf : ∀ a,Mirrors (f a) (g a)) :
    Mirrors (x >>= f) (y.bind g) := hx.bindOf fun a _ => hf a

/-- A step that only writes. -/
theorem Mirrors.after {a : α} {y : Option β} (hx : Mirrors x (some a)) (hf : Mirrors (f a) y) :
    Mirrors (x >>= f) y := by
  have hall := hx.bindOf (g := fun _ => y) fun a' ha => by
    cases ha
    exact hf
  exact hall

theorem Mirrors.ite {p : Prop} [Decidable p] {x' : Run α} {y' : Option α} (h : Mirrors x y)
    (h' : Mirrors x' y') : Mirrors (if p then x else x') (if p then y else y') := by
  split
  · exact h
  · exact h'

theorem Mirrors.dite {p : Prop} [Decidable p] {x : p → Run α} {x' : ¬p → Run α}
    {y : p → Option α} {y' : ¬p → Option α} (h : ∀ hp,Mirrors (x hp) (y hp))
    (h' : ∀ hp,Mirrors (x' hp) (y' hp)) :
    Mirrors (if hp : p then x hp else x' hp) (if hp : p then y hp else y' hp) := by
  split
  · exact h _
  · exact h' _

end Rules

theorem stores_inside {size n : Nat} (h : n ≤ size) : ∀ e∈stores size n,e.index<e.size := by
  intro e he
  rw [stores,List.mem_map] at he
  obtain ⟨i,hi,rfl⟩ := he
  exact (List.mem_range.mp hi).trans_le h

theorem mirrors_copy {size : Nat} (src : List UInt8) (n : Nat) (h : n<size) :
    Mirrors (Run.copy src n h) (CField.copy src n h) := by
  have hcopy := (mirrors_reading (CField.copy src n h)).bind
    fun f => mirrors_emit (stores_inside h) f
  have hsome : (CField.copy src n h).bind some=CField.copy src n h := Option.bind_fun_some _
  rw [hsome] at hcopy
  exact hcopy

theorem mirrors_parseHeader (header : List UInt8) (r : HttpRequest) :
    Mirrors (Run.parseHeader header r) (parseHeader header r) := by
  apply (mirrors_reading _).bind
  intro length
  apply Mirrors.ite
  · apply (mirrors_reading _).bind
    intro value
    exact (mirrors_reading _).bind fun n => mirrors_pure _
  · apply (mirrors_reading _).bind
    intro type
    apply Mirrors.ite
    · apply (mirrors_reading _).bind
      intro value
      exact (mirrors_reading _).bind fun t => mirrors_emit (stores_inside (Nat.succ_le_succ t.2)) _
    · exact mirrors_pure r

theorem mirrors_line {p : Prop} [Decidable p] (header : List UInt8) (r : HttpRequest) :
    Mirrors (Run.line p header r) (if p then parseHeader header r else some r) :=
  (mirrors_parseHeader header r).ite (mirrors_pure r)

theorem mirrors_parseRequestLine (line : List UInt8) (r : HttpRequest) :
    Mirrors (Run.parseRequestLine line r) (parseRequestLine line r) := by
  apply (mirrors_reading _).bind
  intro t
  apply (mirrors_pure none).ite
  apply Mirrors.dite
  · intro hm
    apply (mirrors_copy _ _ hm).bind
    intro m
    apply (mirrors_reading _).bind
    intro t'
    apply (mirrors_pure none).ite
    apply Mirrors.dite
    · intro hp
      apply (mirrors_copy _ _ hp).bind
      intro p
      apply (mirrors_reading _).bind
      intro versionLen
      apply Mirrors.dite
      · intro hv
        exact (mirrors_copy _ _ hv).bind fun v => mirrors_pure _
      · exact fun _ => mirrors_pure none
    · exact fun _ => mirrors_pure none
  · exact fun _ => mirrors_pure none

theorem parseHeaderLines_bind {raw : List UInt8} {pos start : Nat} (hlt : start<pos)
    (r : HttpRequest) : parseHeaderLines raw pos start r=
      (findCrlf raw (pos-start) start).bind fun d =>
        (if start+d>start then parseHeader (raw.drop start) r else some r).bind fun r =>
          parseHeaderLines raw pos (start+d+2) r := by
  rw [parseHeaderLines,if_pos hlt]
  cases findCrlf raw (pos-start) start with
  | none => rfl
  | some d =>
    cases hl : (if start+d>start then parseHeader (raw.drop start) r else some r) with
    | none => simp only [hl,Option.bind_some,Option.bind_none]
    | some r' => simp only [hl,Option.bind_some]

theorem mirrors_parseHeaderLines (raw : List UInt8) (pos start : Nat) (r : HttpRequest) :
    Mirrors (Run.parseHeaderLines raw pos start r) (parseHeaderLines raw pos start r) := by
  induction start,r using Run.parseHeaderLines.induct pos with
  | case1 start r hlt ih =>
    rw [Run.parseHeaderLines,if_pos hlt,parseHeaderLines_bind hlt]
    apply (mirrors_reading _).bind
    intro d
    apply (mirrors_line _ _).bind
    exact ih d
  | case2 start r hlt =>
    rw [Run.parseHeaderLines,if_neg hlt,parseHeaderLines,if_neg hlt]
    exact mirrors_pure r

theorem mirrors_headerLoop (raw : List UInt8) (length n pos start : Nat) (r : HttpRequest) :
    Mirrors (Run.headerLoop raw length n pos start r) (headerLoop raw length n pos start r) := by
  induction n generalizing pos start r with
  | zero => exact mirrors_pure _
  | succ n ih =>
    apply (mirrors_reading _).bind
    intro ended
    apply Mirrors.ite
    · apply (mirrors_reading _).bind
      intro blank
      apply (mirrors_pure _).ite
      apply (mirrors_parseHeaderLines _ _ _ _).bind
      exact ih _ _
    · exact ih _ _ r

theorem remainingHeaders_bind {c : UInt8} (hc : c≠0) (cs : List UInt8) (r : HttpRequest) :
    remainingHeaders (c::cs) r=(lineSpan (c::cs)).bind fun n =>
      (if n>0 then parseHeader (c::cs) r else some r).bind fun r =>
        (eolSpan ((c::cs).drop n)).bind fun m =>
          remainingHeaders (((c::cs).drop n).drop m) r := by
  rw [remainingHeaders.eq_def]
  simp only [hc,if_false]
  split
  · next hn => rw [hn,Option.bind_none]
  · next n hn =>
    rw [hn,Option.bind_some]
    split
    · next hl => rw [hl,Option.bind_none]
    · next r' hl =>
      rw [hl,Option.bind_some]
      split
      · next hm => rw [hm,Option.bind_none]
      · next m hm => rw [hm,Option.bind_some]

theorem run_remainingHeaders_bind {c : UInt8} (hc : c≠0) (cs : List UInt8) (r : HttpRequest) :
    Run.remainingHeaders (c::cs) r=Run.reading (lineSpan (c::cs)) >>= fun n =>
      Run.line (n>0) (c::cs) r >>= fun r =>
        Run.reading (eolSpan ((c::cs).drop n)) >>= fun m =>
          Run.remainingHeaders (((c::cs).drop n).drop m) r := by
  rw [Run.remainingHeaders.eq_def]
  simp only [dif_neg hc]
  split
  · next hn =>
    rw [hn]
    rfl
  · next n hn =>
    rw [hn]
    change (Run.line (n>0) (c::cs) r >>= _)=Run.line (n>0) (c::cs) r >>= _
    congr 1
    funext r'
    split
    · next hm =>
      rw [hm]
      rfl
    · next m hm =>
      rw [hm]
      rfl

theorem mirrors_remainingHeaders (h : List UInt8) (r : HttpRequest) :
    Mirrors (Run.remainingHeaders h r) (remainingHeaders h r) := by
  induction hl : h.length using Nat.strong_induction_on generalizing h r with
  | h l ih =>
    cases h with
    | nil =>
      rw [Run.remainingHeaders,remainingHeaders]
      exact mirrors_fail
    | cons c cs =>
      by_cases hc : c=0
      · rw [Run.remainingHeaders,dif_pos hc,remainingHeaders,if_pos hc]
        exact mirrors_pure r
      · rw [run_remainingHeaders_bind hc,remainingHeaders_bind hc]
        apply (mirrors_reading _).bindOf
        intro n hn
        apply (mirrors_line _ _).bind
        intro r'
        apply (mirrors_reading _).bindOf
        intro m hm
        exact ih _ (hl ▸ spans_lt hc hn hm) _ r' rfl

theorem mirrors_copyHeaders (raw : List UInt8) (lineEnd bodyStart headersStart : Nat)
    (r : HttpRequest) : Mirrors (Run.copyHeaders raw lineEnd bodyStart headersStart r)
      (copyHeaders raw lineEnd bodyStart headersStart r) := by
  apply (mirrors_copy _ _ _).bind
  intro headers
  exact mirrors_remainingHeaders _ _

theorem mirrors_copyBody (raw : List UInt8) (length bodyStart : Nat) (r : HttpRequest) :
    Mirrors (Run.copyBody raw length bodyStart r) (copyBody raw length bodyStart r) := by
  apply Mirrors.ite
  · exact (mirrors_copy _ _ _).bind fun body => mirrors_pure _
  · exact mirrors_pure r

theorem mirrors_init : Mirrors Run.init (some HttpRequest.init) := mirrors_emit (by decide) _

theorem mirrors_requestLine (raw : List UInt8) {lineEnd : Nat} (h : lineEnd<256) :
    Mirrors (Run.requestLine raw lineEnd) (strncpy raw lineEnd) := by
  have hcopy := (mirrors_reading (strncpy raw lineEnd)).bind
    fun line => mirrors_emit (stores_inside h) line
  have hsome : (strncpy raw lineEnd).bind some=strncpy raw lineEnd := Option.bind_fun_some _
  rw [hsome] at hcopy
  exact hcopy

theorem mirrors_httpParseRequest (raw : List UInt8) (length : Nat) :
    Mirrors (Run.httpParseRequest raw length) (httpParseRequest raw length) := by
  apply (mirrors_pure none).ite
  apply mirrors_init.after
  apply (mirrors_reading _).bind
  intro lineEnd
  apply (mirrors_pure none).ite
  by_cases hlong : lineEnd≥256
  · rw [if_pos hlong,if_pos hlong]
    exact mirrors_pure none
  · rw [if_neg hlong,if_neg hlong]
    apply (mirrors_requestLine raw (Nat.lt_of_not_le hlong)).bind
    intro line
    apply (mirrors_parseRequestLine _ _).bind
    intro parsed
    cases parsed with
    | none => exact mirrors_pure none
    | some r =>
      apply (mirrors_headerLoop _ _ _ _ _ r).bind
      intro headers
      apply (mirrors_copyHeaders _ _ _ _ _).bind
      intro r'
      apply (mirrors_copyBody _ _ _ r').bind
      intro r''
      exact (mirrors_pure none).ite (mirrors_pure _)

/-- In a buffer of exactly the bytes it is given, the parser comes to an end without a read beyond
them, and what it writes to the request line and to the fields is inside their arrays. -/
theorem parse_inside (raw : List UInt8) :
    ∃ parsed,httpParseRequest raw raw.length=some parsed ∧
      (Run.httpParseRequest raw raw.length).result=.ok parsed ∧
      ∀ s∈(Run.httpParseRequest raw raw.length).events,s.index<s.size := by
  obtain ⟨parsed,hp⟩ := Option.isSome_iff_exists.mp (httpParseRequest_isSome (le_refl raw.length))
  have hm := mirrors_httpParseRequest raw raw.length
  refine ⟨parsed,hp,?_,(hm.inside 0).allowed⟩
  rw [hm.result,hp]
  rfl

end Cllm.Http
