import Cllm.Http.Message

namespace Cllm.Http

open Libc

variable {raw b : List UInt8} {r : HttpRequest}

/-- content_length after the lines. -/
def lengthAfter (n : Nat) (lines : List (List UInt8)) : Nat :=
  lines.foldl (fun n line => (readLength line).getD n) n

/-- content_type after the lines. -/
def typeAfter (t : CField 64) (lines : List (List UInt8)) : CField 64 :=
  lines.foldl (fun t line => (readType line).getD t) t

theorem readAll_eq (r : HttpRequest) (lines : List (List UInt8)) :
    r.readAll lines={r with contentLength := lengthAfter r.contentLength lines,
                            contentType := typeAfter r.contentType lines} := by
  induction lines generalizing r with
  | nil => rfl
  | cons line lines ih =>
    rw [HttpRequest.readAll,List.foldl_cons]
    exact (ih (r.read line)).trans rfl

theorem last_length (hs : List HeaderLine) (hne : hs≠[]) :
    (hs.map fun h => h.1.length).getLastD 0=(hs.getLast hne).1.length := by
  rw [List.getLastD_eq_getLast?,List.getLast?_map,List.getLast?_eq_some_getLast hne]
  rfl

theorem last_length_le (hs : List HeaderLine) (hne : hs≠[]) :
    (hs.getLast hne).1.length ≤ (headerText hs).length := by
  have hmem := List.getLast_mem hne
  induction hs with
  | nil => exact absurd rfl hne
  | cons h hs ih =>
    rw [headerText_cons,List.length_append]
    cases hs with
    | nil =>
      rw [List.getLast_singleton]
      omega
    | cons h' hs =>
      have hle := ih (by simp) (List.getLast_mem _)
      rw [List.getLast_cons (by simp)]
      simp only [List.length_cons]
      omega

/-- The second pass reads a prefix of what stands behind the request line, up to a NUL. -/
theorem copyHeaders_text {lineEnd bodyStart start k : Nat} {text : List UInt8}
    (hd : raw.drop (lineEnd+2)=text)
    (hk : (if bodyStart>start+4 then bodyStart-start-4 else 0)=k)
    (hfit : min k 1023 ≤ text.length) (r : HttpRequest) :
    ∃ f x,copyHeaders raw lineEnd bodyStart start r=
      remainingHeaders (cut (text.take (min k 1023))++0::x) {r with headers := f} := by
  rw [← hd] at hfit
  obtain ⟨f,hf⟩ := Option.isSome_iff_exists.mp
    (@CField.copy_isSome 1024 _ _ (Nat.lt_succ_of_le (Nat.min_le_right k 1023)) hfit)
  have hbytes := CField.copy_eq_some hf
  rw [strncpy_cut hfit,Option.some.injEq,hd] at hbytes
  refine ⟨f,List.replicate (min k 1023-(cut (text.take (min k 1023))).length) 0,?_⟩
  rw [copyHeaders]
  simp only [hk,hf,Option.bind_eq_bind,Option.bind_some]
  rw [← hbytes,List.append_assoc,← List.replicate_succ',List.replicate_succ]

/-- What is copied of the header area, and read from there. -/
theorem copyHeaders_message {lineEnd bodyStart start : Nat} {hs : List HeaderLine} (hne : hs≠[])
    (hd : raw.drop (lineEnd+2)=headerText hs++b)
    (hstart : start+(hs.getLast hne).1.length+4=bodyStart) (r : HttpRequest) :
    ∃ f,copyHeaders raw lineEnd bodyStart start r=
      some ({r with headers := f}.readAll (seen hs (copiedLength hs))) := by
  have hpos : 0 < (hs.getLast hne).1.length := List.length_pos_of_ne_nil (hs.getLast hne).2.1
  have hk : (if bodyStart>start+4 then bodyStart-start-4 else 0)=(hs.getLast hne).1.length := by
    rw [if_pos (by omega)]
    omega
  have hm : min (hs.getLast hne).1.length 1023 ≤ (headerText hs).length :=
    Nat.le_trans (Nat.min_le_left _ _) (last_length_le hs hne)
  have hcopied : copiedLength hs=
      (cut ((headerText hs).take (min (hs.getLast hne).1.length 1023))).length := by
    rw [copiedLength,last_length hs hne]
  have hle : copiedLength hs ≤ min (hs.getLast hne).1.length 1023 := by
    rw [hcopied]
    exact Nat.le_trans (List.takeWhile_sublist _).length_le (List.length_take_le _ _)
  have hcut : cut ((headerText hs).take (min (hs.getLast hne).1.length 1023))=
      (headerText hs).take (copiedLength hs) := by
    rw [← take_length_cut,← hcopied,List.take_take,Nat.min_eq_left hle]
  have h0 : 0∉(headerText hs).take (copiedLength hs) := by
    rw [← hcut]
    exact zero_not_mem_cut _
  have hfit : min (hs.getLast hne).1.length 1023 ≤ (headerText hs++b).length := by
    rw [List.length_append]
    omega
  obtain ⟨f,x,hcopy⟩ := copyHeaders_text hd hk hfit r
  refine ⟨f,?_⟩
  rw [hcopy,List.take_append_of_le_length hm,hcut]
  exact remainingHeaders_seen hs h0 _ _

/-- body_length, from content_length and the bytes that are there. -/
def bodySize (n : Nat) (b : List UInt8) : Nat :=
  min (if 0 < n ∧ n < b.length then n else b.length) (httpRequestBodySize-1)

theorem bodySize_le (n : Nat) (b : List UInt8) : bodySize n b ≤ b.length := by
  unfold bodySize
  split <;> omega

theorem copyBody_message {bodyStart : Nat} (hd : raw.drop bodyStart=b)
    (hlen : bodyStart+b.length=raw.length) (hr : r.body.bytes=[] ∧ r.bodyLength=0) :
    ∃ f,copyBody raw raw.length bodyStart r=
        some {r with body := f,bodyLength := bodySize r.contentLength b} ∧
      strncpy b (bodySize r.contentLength b)=some f.bytes := by
  by_cases hb : b=[]
  · subst hb
    have hstop : ¬bodyStart<raw.length := by
      rw [List.length_nil] at hlen
      omega
    have hsize : bodySize r.contentLength []=0 := by simp [bodySize]
    refine ⟨r.body,?_,?_⟩
    · rw [copyBody,if_neg hstop,hsize,← hr.2]
    · rw [hsize,hr.1]
      rfl
  · have hpos : 0 < b.length := List.length_pos_of_ne_nil hb
    have hn : min (if r.contentLength>0 ∧ r.contentLength<raw.length-bodyStart then
        r.contentLength else raw.length-bodyStart) (httpRequestBodySize-1)=
        bodySize r.contentLength b := by
      have hrest : raw.length-bodyStart=b.length := by omega
      rw [hrest]
      rfl
    have hfit : min (if r.contentLength>0 ∧ r.contentLength<raw.length-bodyStart then
        r.contentLength else raw.length-bodyStart) (httpRequestBodySize-1) ≤
        (raw.drop bodyStart).length := by
      rw [hn,hd]
      exact bodySize_le r.contentLength b
    obtain ⟨f,hf⟩ := Option.isSome_iff_exists.mp
      (@CField.copy_isSome httpRequestBodySize _ _ (Nat.lt_succ_of_le (Nat.min_le_right _ _)) hfit)
    have hbytes : strncpy (raw.drop bodyStart) (min (if r.contentLength>0 ∧
        r.contentLength<raw.length-bodyStart then r.contentLength else raw.length-bodyStart)
        (httpRequestBodySize-1))=some f.bytes := CField.copy_eq_some hf
    rw [hn,hd] at hbytes
    refine ⟨f,?_,hbytes⟩
    rw [copyBody,if_pos (by omega),← hn]
    exact Option.bind_eq_some_iff.mpr ⟨f,hf,rfl⟩

theorem readAll_body (r : HttpRequest) (lines : List (List UInt8)) :
    (r.readAll lines).body=r.body ∧ (r.readAll lines).bodyLength=r.bodyLength := by
  rw [readAll_eq]
  exact ⟨rfl,rfl⟩

variable (m : Message)

theorem Message.text_length :
    m.text.length=m.line.length+2+((headerText m.headers).length+2+m.body.length) := by
  simp only [Message.text,List.length_append,List.length_cons]
  omega

theorem Message.drop_line :
    m.text.drop (m.line.length+2)=headerText m.headers++cr::lf::m.body := by
  rw [← List.drop_drop,Message.text,List.drop_left]
  rfl

theorem Message.drop_body : m.text.drop (m.text.length-m.body.length)=m.body := by
  have hsplit : m.text=(m.line++cr::lf::(headerText m.headers++[cr,lf]))++m.body := by
    simp [Message.text]
  have hl := congrArg List.length hsplit
  rw [List.length_append] at hl
  rw [hl,Nat.add_sub_cancel,hsplit,List.drop_left]

/-- The request after the request line, and the one that the passes behind it make of it. -/
theorem httpParseRequest_passes (hlen : m.text.length ≤ httpRequestBodySize+4096) :
    ∃ mt p v,∀ {bodyStart start : Nat} {r₁ r₂ r₃ : HttpRequest},
      headerLoop m.text m.text.length (m.text.length-1-(m.line.length+2)) (m.line.length+2)
        (m.line.length+2) {HttpRequest.init with method := mt,path := p,version := v}=
          some (bodyStart,start,r₁) →
      copyHeaders m.text m.line.length (if bodyStart=0 then m.text.length else bodyStart) start
        r₁=some r₂ →
      copyBody m.text m.text.length (if bodyStart=0 then m.text.length else bodyStart) r₂=some r₃ →
      r₃.bodyLength ≤ httpRequestBodySize-1 →
      httpParseRequest m.text m.text.length=some (some r₃) := by
  obtain ⟨s,r₀,hline,hparse⟩ := m.accepted
  obtain ⟨mt,p,v,rfl⟩ := parseRequestLine_frame hparse
  refine ⟨mt,p,v,?_⟩
  intro bodyStart start r₁ r₂ r₃ hloop hheaders hbody hsize
  have hl := m.text_length
  have hfit : m.line.length ≤ m.text.length-1 := by omega
  have hd : m.text.drop 0=m.line++cr::lf::(headerText m.headers++cr::lf::m.body) := rfl
  have hfind := findCrlf_line m.noCrlf hd hfit
  have hcopy : strncpy m.text m.line.length=some s := by
    rw [Message.text,strncpy_append le_rfl,hline]
  have h0 : ¬(m.text.length=0 ∨ m.text.length>httpRequestBodySize+4096) := by omega
  have h1 : ¬m.line.length+1≥m.text.length := by omega
  have h2 : ¬m.line.length≥256 := Nat.not_le_of_lt m.short
  rw [httpParseRequest]
  simp only [h0,h1,h2,if_false,hfind,hcopy,hparse,hloop,hheaders,hbody,Option.bind_eq_bind,
    Option.bind_some,if_neg (Nat.not_lt_of_le hsize)]
  rfl

/-- The request that http_parse_request makes of a message with header lines. -/
theorem parse_message (hne : m.headers≠[]) (hlen : m.text.length ≤ httpRequestBodySize+4096) :
    ∃ r,httpParseRequest m.text m.text.length=some (some r) ∧
      r.contentLength=lengthAfter 0 (linesRead m.headers) ∧
      r.contentType=typeAfter (.empty _ (by decide)) (linesRead m.headers) ∧
      r.bodyLength=bodySize r.contentLength m.body ∧
      strncpy m.body r.bodyLength=some r.body.bytes := by
  obtain ⟨h,hs,hheaders⟩ := List.exists_cons_of_ne_nil hne
  obtain ⟨mt,p,v,hparse⟩ := httpParseRequest_passes m hlen
  let r₀ : HttpRequest := {HttpRequest.init with method := mt,path := p,version := v}
  have hd := m.drop_line
  have hl := m.text_length
  rw [hheaders] at hd
  obtain ⟨start,hloop,hstart⟩ := headerLoop_headers hs h hd r₀
  rw [← hheaders] at hloop hd
  have hlast : start+(m.headers.getLast hne).1.length+4=m.text.length-m.body.length := by
    rw [← hstart]
    simp only [hheaders]
  obtain ⟨f,hheads⟩ := copyHeaders_message hne hd hlast (r₀.readLines m.headers.dropLast)
  let r₁ : HttpRequest := {r₀.readLines m.headers.dropLast with headers := f}
  let r₂ := r₁.readAll (seen m.headers (copiedLength m.headers))
  have hfields : r₂.body=r₀.body ∧ r₂.bodyLength=r₀.bodyLength ∧
      r₂.contentLength=lengthAfter 0 (linesRead m.headers) ∧
      r₂.contentType=typeAfter (.empty _ (by decide)) (linesRead m.headers) := by
    have h2 := readAll_eq r₁ (seen m.headers (copiedLength m.headers))
    have h1 := readAll_eq r₀ (m.headers.dropLast.map Subtype.val)
    have hr1 : r₁={r₀.readAll (m.headers.dropLast.map Subtype.val) with headers := f} := rfl
    refine ⟨(readAll_body r₁ _).1.trans (readAll_body r₀ _).1,
      (readAll_body r₁ _).2.trans (readAll_body r₀ _).2,?_,?_⟩
    · rw [linesRead,lengthAfter,List.foldl_append]
      change (r₁.readAll _).contentLength=_
      rw [h2,hr1,h1]
      rfl
    · rw [linesRead,typeAfter,List.foldl_append]
      change (r₁.readAll _).contentType=_
      rw [h2,hr1,h1]
      rfl
  obtain ⟨g,hbody,hbytes⟩ := copyBody_message (r := r₂) m.drop_body (by omega) (by
    rw [hfields.1,hfields.2.1]
    exact ⟨rfl,rfl⟩)
  have hstart0 : (if m.text.length-m.body.length=0 then m.text.length
      else m.text.length-m.body.length)=m.text.length-m.body.length := if_neg (by omega)
  refine ⟨{r₂ with body := g,bodyLength := bodySize r₂.contentLength m.body},?_,hfields.2.2.1,
    hfields.2.2.2,rfl,hbytes⟩
  apply hparse hloop
  · rw [hstart0]
    exact hheads
  · rw [hstart0]
    exact hbody
  · exact Nat.min_le_right _ _

end Cllm.Http
