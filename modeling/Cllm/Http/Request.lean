import Cllm.Libc.Memory

namespace Cllm.Http

open Libc

abbrev httpRequestBodySize : Nat := 8192

structure HttpRequest where
  method : CField 16
  path : CField 256
  version : CField 16
  headers : CField 1024
  body : CField httpRequestBodySize
  bodyLength : Nat
  contentType : CField 64
  contentLength : Nat
  deriving DecidableEq

def HttpRequest.init : HttpRequest where
  method := .empty _ (by decide)
  path := .empty _ (by decide)
  version := .empty _ (by decide)
  headers := .empty _ (by decide)
  body := .empty _ (by decide)
  bodyLength := 0
  contentType := .empty _ (by decide)
  contentLength := 0

def lowerCase (c : UInt8) : UInt8 := if 65≤c ∧ c≤90 then c+32 else c

/-- A `const char*` is the list of the bytes from it to the end of its memory; `none` is a read
past that end. -/
def strStartsWithCi : List UInt8 → List UInt8 → Option Bool
  | _,[] => some true
  | [],_::_ => none
  | c1::str,c2::rest =>
      if lowerCase c1≠lowerCase c2 then some false else strStartsWithCi str rest

/-- while (*value == ' ') value++ -/
def skipBlanks : List UInt8 → Option (List UInt8)
  | [] => none
  | c::cs => if c=blank then skipBlanks cs else some (c::cs)

/-- The digits of Content-Length, accumulated in a 32-bit size_t. -/
def parseDigits : List UInt8 → Nat → Option Nat
  | [],_ => none
  | c::cs,n =>
      if 48≤c ∧ c≤57 then parseDigits cs ((n*10+(c.toNat-48))%2^32) else some n

/-- The bytes of Content-Type up to a NUL, CR, LF or semicolon, at most `n` of them. -/
def takeValue : (n : Nat) → List UInt8 → Option {t : List UInt8 // t.length≤n}
  | _,[] => none
  | n,c::cs =>
    if c=0 ∨ c=cr ∨ c=lf ∨ c=59 then some ⟨[],Nat.zero_le n⟩
    else
      match n with
      | 0 => some ⟨[],le_rfl⟩
      | n+1 => (takeValue n cs).map fun t => ⟨c::t.1,Nat.succ_le_succ t.2⟩

def parseHeader (header : List UInt8) (request : HttpRequest) : Option HttpRequest := do
  if ← strStartsWithCi header (cstr "Content-Length:") then
    let value ← skipBlanks (header.drop 15)
    let n ← parseDigits value 0
    return {request with contentLength := n}
  else if ← strStartsWithCi header (cstr "Content-Type:") then
    let value ← skipBlanks (header.drop 13)
    let t ← takeValue 63 value
    return {request with contentType := ⟨t.1,Nat.lt_succ_of_le t.2⟩}
  else return request

/-- The bytes before the first blank or NUL, and the memory from there. -/
def scanToken : List UInt8 → Option (List UInt8 × List UInt8)
  | [] => none
  | c::cs => if c=blank ∨ c=0 then some ([],c::cs) else (scanToken cs).map fun r => (c::r.1,r.2)

/-- parse_request_line; the inner `none` is its -1. -/
def parseRequestLine (line : List UInt8) (request : HttpRequest) :
    Option (Option HttpRequest) := do
  let (method,rest) ← scanToken line
  if rest.head?=some 0 then return none
  if hm : method.length<16 then
    let m ← CField.copy line method.length hm
    let (path,rest') ← scanToken rest.tail
    if rest'.head?=some 0 then return none
    if hp : path.length<256 then
      let p ← CField.copy rest.tail path.length hp
      let versionLen ← strlen rest'.tail
      if hv : versionLen<16 then
        let v ← CField.copy rest'.tail versionLen hv
        return some {request with method := m,path := p,version := v}
      else return none
    else return none
  else return none

/-- raw[pos] == CR && raw[pos + 1] == LF -/
def crlfAt (raw : List UInt8) (pos : Nat) : Option Bool := do
  let a ← raw[pos]?
  if a=cr then
    let b ← raw[pos+1]?
    return decide (b=lf)
  else return false

/-- How far the first CRLF is from `pos`, or `n` when none of the `n` positions has one. -/
def findCrlf (raw : List UInt8) : (n pos : Nat) → Option Nat
  | 0,_ => some 0
  | n+1,pos => do
    if ← crlfAt raw pos then return 0
    else
      let d ← findCrlf raw n (pos+1)
      return d+1

/-- The walk over the header lines in [headerStart, pos). -/
def parseHeaderLines (raw : List UInt8) (pos headerStart : Nat) (request : HttpRequest) :
    Option HttpRequest :=
  if headerStart<pos then
    match findCrlf raw (pos-headerStart) headerStart with
    | none => none
    | some d =>
      let headerEnd := headerStart+d
      match (if headerEnd>headerStart then parseHeader (raw.drop headerStart) request
        else some request) with
      | none => none
      | some r => parseHeaderLines raw pos (headerEnd+2) r
  else some request
termination_by pos-headerStart

/-- pos + 3 < length && another CRLF follows the one at `pos`. -/
def blankLineAt (raw : List UInt8) (length pos : Nat) : Option Bool :=
  if pos+3<length then crlfAt raw (pos+2) else some false

/-- The loop that looks for the blank line, with `n` positions left to try: body_start (0 when
there is none), headers_start and the request. -/
def headerLoop (raw : List UInt8) (length : Nat) :
    (n pos headersStart : Nat) → HttpRequest → Option (Nat × Nat × HttpRequest)
  | 0,_,headersStart,request => some (0,headersStart,request)
  | n+1,pos,headersStart,request => do
    if ← crlfAt raw pos then
      if ← blankLineAt raw length pos then return (pos+4,headersStart,request)
      else
        let request ← parseHeaderLines raw pos headersStart request
        headerLoop raw length n (pos+1) (pos+2) request
    else headerLoop raw length n (pos+1) headersStart request

/-- while (*h && *h is not CR or LF) h++: how far it goes. -/
def lineSpan : List UInt8 → Option Nat
  | [] => none
  | c::cs => if c=0 ∨ c=cr ∨ c=lf then some 0 else (lineSpan cs).map (·+1)

/-- while (*h is CR or LF) h++: how far it goes. -/
def eolSpan : List UInt8 → Option Nat
  | [] => none
  | c::cs => if c=cr ∨ c=lf then (eolSpan cs).map (·+1) else some 0

/-- The second pass, over the copied headers. -/
def remainingHeaders (h : List UInt8) (request : HttpRequest) : Option HttpRequest :=
  match h with
  | [] => none
  | c::cs =>
    if c=0 then some request
    else
      match _hn : lineSpan (c::cs) with
      | none => none
      | some n =>
        match (if n>0 then parseHeader (c::cs) request else some request) with
        | none => none
        | some r =>
          match _hm : eolSpan ((c::cs).drop n) with
          | none => none
          | some m => remainingHeaders (((c::cs).drop n).drop m) r
termination_by h.length
decreasing_by
  have hpos : 0<n+m := by
    by_cases he : c=cr ∨ c=lf
    · have : n=0 := by simpa [lineSpan,he] using _hn.symm
      subst this
      rw [List.drop_zero,eolSpan,if_pos he] at _hm
      obtain ⟨k,-,rfl⟩ := Option.map_eq_some_iff.mp _hm
      omega
    · rw [lineSpan,if_neg (by tauto)] at _hn
      obtain ⟨k,-,rfl⟩ := Option.map_eq_some_iff.mp _hn
      omega
  simp only [List.length_drop,List.length_cons]
  omega

/-- Copy headers, and parse them again. -/
def copyHeaders (raw : List UInt8) (lineEnd bodyStart headersStart : Nat)
    (request : HttpRequest) : Option HttpRequest := do
  let headersLength := if bodyStart>headersStart+4 then bodyStart-headersStart-4 else 0
  let headers : CField 1024 ← CField.copy (raw.drop (lineEnd+2)) (min headersLength 1023)
    (Nat.lt_succ_of_le (Nat.min_le_right _ _))
  remainingHeaders (headers.bytes++[0]) {request with headers := headers}

/-- Copy body if present. -/
def copyBody (raw : List UInt8) (length bodyStart : Nat) (request : HttpRequest) :
    Option HttpRequest :=
  if bodyStart<length then do
    let rest := length-bodyStart
    let bodyLen :=
      if request.contentLength>0 ∧ request.contentLength<rest then request.contentLength else rest
    let bodyLen := min bodyLen (httpRequestBodySize-1)
    let body ← CField.copy (raw.drop bodyStart) bodyLen (Nat.lt_succ_of_le (Nat.min_le_right _ _))
    return {request with body := body,bodyLength := bodyLen}
  else some request

/-- http_parse_request on `length` bytes; the inner `none` is its -1. -/
def httpParseRequest (raw : List UInt8) (length : Nat) : Option (Option HttpRequest) := do
  if length=0 ∨ length>httpRequestBodySize+4096 then return none
  let lineEnd ← findCrlf raw (length-1) 0
  if lineEnd+1≥length then return none
  if lineEnd≥256 then return none
  let requestLine ← strncpy raw lineEnd
  match ← parseRequestLine (requestLine++[0]) HttpRequest.init with
  | none => return none
  | some request =>
    let (bodyStart,headersStart,request) ←
      headerLoop raw length (length-1-(lineEnd+2)) (lineEnd+2) (lineEnd+2) request
    let bodyStart := if bodyStart=0 then length else bodyStart
    let request ← copyHeaders raw lineEnd bodyStart headersStart request
    let request ← copyBody raw length bodyStart request
    if request.bodyLength>httpRequestBodySize-1 then return none
    return some request

end Cllm.Http
