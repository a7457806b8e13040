import Cllm.Framework.Lines
import Cllm.Http.Response

namespace Cllm.Http

open Libc

/-- What a client has of a response. -/
structure Answer where
  code : Nat
  headers : List (List UInt8)
  body : List UInt8
  deriving DecidableEq

abbrev crlf : List UInt8 := [cr,lf]

/-- The code in a status line. -/
def codeOf (line : List UInt8) : Option Nat :=
  if cstr "HTTP/1.1 " <+: line ∧ 13 ≤ line.length then
    some (decimalValue 0 ((line.drop 9).take 3))
  else none

/-- The number in the first Content-Length header. -/
def contentLengthOf (headers : List (List UInt8)) : Option Nat :=
  (headers.find? (cstr "Content-Length: ").isPrefixOf).map fun line =>
    decimalValue 0 (line.drop 16)

/-- A response from the front of what the client has received, and what is behind it. -/
def readResponse (received : List UInt8) : Option (Answer × List UInt8) := do
  let (line,rest) ← Lines.readLine crlf received
  let code ← codeOf line
  let (headers,rest) ← Lines.readBlock crlf rest.length rest
  let n ← contentLengthOf headers
  if n ≤ rest.length then return (⟨code,headers,rest.take n⟩,rest.drop n) else none

/-- The code that goes out for a status. -/
def sentCode (statusCode : Int) : Nat :=
  if statusCode∈[400,404,405,422,500,503] then statusCode.toNat else 200

/-- The lines of headers that can be told apart from the rest of a response. -/
structure Separable (lines : List (List UInt8)) : Prop where
  plain : ∀ line∈lines,line≠[] ∧ cr∉line
  others : ∀ line∈lines,¬cstr "Content-Length: " <+: line

section ReadBack

variable {response : HttpResponse} {lines : List (List UInt8)} {body : List UInt8}

/-- A status line is a line, with its code in it. -/
theorem statusFormat_line (code : Int) : ∃ line,statusFormat code=line++crlf ∧ cr∉line ∧
    codeOf line=some (sentCode code) := by
  have known (s : String) (n : Nat) (hn : sentCode code=n) (hf : statusFormat code=cstr s++crlf)
      (h : cr∉cstr s ∧ codeOf (cstr s)=some n) : ∃ line,statusFormat code=line++crlf ∧ cr∉line ∧
      codeOf line=some (sentCode code) := ⟨cstr s,hf,h.1,hn ▸ h.2⟩
  by_cases h400 : code=400
  · subst h400
    exact known "HTTP/1.1 400 Bad Request" 400 (by decide) (by decide) (by decide)
  by_cases h404 : code=404
  · subst h404
    exact known "HTTP/1.1 404 Not Found" 404 (by decide) (by decide) (by decide)
  by_cases h405 : code=405
  · subst h405
    exact known "HTTP/1.1 405 Method Not Allowed" 405 (by decide) (by decide) (by decide)
  by_cases h422 : code=422
  · subst h422
    exact known "HTTP/1.1 422 Unprocessable Entity" 422 (by decide) (by decide) (by decide)
  by_cases h500 : code=500
  · subst h500
    exact known "HTTP/1.1 500 Internal Server Error" 500 (by decide) (by decide) (by decide)
  by_cases h503 : code=503
  · subst h503
    exact known "HTTP/1.1 503 Service Unavailable" 503 (by decide) (by decide) (by decide)
  have hsent : sentCode code=200 := by
    rw [sentCode,if_neg]
    simp only [List.mem_cons,List.not_mem_nil,or_false]
    tauto
  have hformat : statusFormat code=cstr "HTTP/1.1 200 OK"++crlf := by
    rw [statusFormat,if_neg h400,if_neg h404,if_neg h405,if_neg h422,if_neg h500,if_neg h503,
      ite_self]
    decide
  exact known "HTTP/1.1 200 OK" 200 hsent hformat (by decide)

theorem contentLengthLine_eq (response : HttpResponse) :
    response.contentLengthLine=
      (cstr "Content-Length: "++uintText response.bodyLength 10 false)++crlf := by
  rw [HttpResponse.contentLengthLine,List.append_assoc]

/-- The Content-Length line is the first of its kind, and has the length. -/
theorem contentLengthOf_lines (h : Separable lines) (response : HttpResponse) :
    contentLengthOf (lines++[cstr "Content-Length: "++uintText response.bodyLength 10 false])=
      some response.bodyLength := by
  have hnone : lines.find? (cstr "Content-Length: ").isPrefixOf=none := by
    rw [List.find?_eq_none]
    intro line hline hp
    exact h.others line hline (List.isPrefixOf_iff_prefix.mp hp)
  have hself : (cstr "Content-Length: ").isPrefixOf
      (cstr "Content-Length: "++uintText response.bodyLength 10 false)=true :=
    List.isPrefixOf_iff_prefix.mpr (List.prefix_append _ _)
  have hlt : response.bodyLength < 10^32 := lt_of_le_of_lt response.body_fits (by decide)
  rw [contentLengthOf,List.find?_append,hnone,Option.none_or,List.find?_singleton,if_pos hself,
    Option.map_some,List.drop_left' (by decide),uintText_value hlt]

/-- A message is read back, whatever comes behind it. -/
theorem readResponse_message (hheaders : response.headersText=Lines.ended crlf lines)
    (h : Separable lines) (hbody : body.length=response.bodyLength) (rest : List UInt8) :
    readResponse (response.message body++rest)=
      some (⟨sentCode response.statusCode,
        lines++[cstr "Content-Length: "++uintText response.bodyLength 10 false],body⟩,rest) := by
  obtain ⟨line,hformat,hcr,hcode⟩ := statusFormat_line response.statusCode
  let all := lines++[cstr "Content-Length: "++uintText response.bodyLength 10 false]
  have hshape : response.message body++rest=
      line++crlf++(Lines.ended crlf all++crlf++(body++rest)) := by
    rw [HttpResponse.message,hformat,hheaders,contentLengthLine_eq,Lines.ended_append,
      Lines.ended_cons,Lines.ended_nil]
    simp only [List.append_assoc,List.append_nil]
  have hplain : ∀ line∈all,line≠[] ∧ cr∉line := by
    intro line hline
    rcases List.mem_append.mp hline with hline|hline
    · exact h.plain line hline
    · rw [List.mem_singleton.mp hline]
      refine ⟨by simp [cstr],?_⟩
      rw [List.mem_append,not_or]
      exact ⟨by decide,fun hno => absurd (uintText_digit hno).1 (by decide)⟩
  have hfuel : all.length < (Lines.ended crlf all++crlf++(body++rest)).length := by
    have hlines := Lines.length_ended crlf (by decide) all
    simp only [List.length_append,List.length_cons]
    omega
  rw [hshape,readResponse,Lines.readLine_line rfl hcr]
  simp only [Option.bind_eq_bind,Option.bind_some,hcode]
  rw [Lines.readBlock_block rfl hplain hfuel]
  simp only [Option.bind_some,all,contentLengthOf_lines h]
  rw [if_pos (by rw [List.length_append,hbody]; exact Nat.le_add_right _ _),← hbody,
    List.take_left,List.drop_left]
  rfl

end ReadBack

end Cllm.Http
