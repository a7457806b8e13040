import Cllm.Api.Handlers
import Cllm.Framework.Refinement

namespace Cllm.Api

open Libc Json Http

/-- A request, with what its handler finds: the environment, and what is in the response. -/
structure Exchange where
  environment : Environment
  request : HttpRequest
  response : HttpResponse

/-- route_request on the context that is kept between requests. -/
def serve (context : ApiContext) (x : Exchange) : ApiContext × List HttpResponse :=
  let r := routeRequest x.environment context x.request x.response
  (r.1,[r.2])

/-- Contexts that differ in the request counter at most. -/
structure Alike (c d : ApiContext) : Prop where
  llmCtx : c.llmCtx=d.llmCtx
  createdTime : c.createdTime=d.createdTime

theorem Alike.refl (c : ApiContext) : Alike c c := ⟨rfl,rfl⟩

/-- The same answer from both contexts, with no more than the counter changed. -/
structure Same (c d : ApiContext) (r r' : ApiContext × HttpResponse) : Prop where
  answer : r.2=r'.2
  context : Alike r.1 d

section Ids

/-- %016llx is not among the conversions of vsnprintf: it is copied as it stands. -/
theorem formatLoop_id (pre : List UInt8) (ap : List VaArg) (k : Sink) :
    formatLoop (cstr "%s-%016llx") (.str (some pre)::ap) k=
      appendStr k (pre++cstr "-%016llx") := by
  have hformat : cstr "%s-%016llx"=[37,115,45,37,48,49,54,108,108,120] := by decide
  have htail : cstr "-%016llx"=[45,37,48,49,54,108,108,120] := by decide
  rw [hformat,htail,appendStr_append]
  simp [formatLoop,vaStr]

/-- So the counter does not show in an id. -/
theorem generateRequestId_text (context : ApiContext) {pre : List UInt8} (h0 : 0∉pre)
    (hlen : pre.length < 50) :
    (generateRequestId context pre).2=pre++cstr "-%016llx" := by
  have htail : (cstr "-%016llx").length=8 ∧ 0∉cstr "-%016llx" := by decide
  have hzero : (Buffer.zero 64).bytes.length=64 := (Buffer.zero 64).size
  have hs : (pre++cstr "-%016llx").length < 64 := by
    rw [List.length_append,htail.1]
    omega
  have hfree : 0∉pre++cstr "-%016llx" := by
    rw [List.mem_append,not_or]
    exact ⟨h0,htail.2⟩
  have hbytes (ap : List VaArg) := (vsnprintf_fits (formatLoop_id pre ap
    ⟨(Buffer.zero 64).bytes,64,0⟩) hs hzero.ge (by decide)).2
  rw [generateRequestId]
  dsimp only [Buffer.snprintf,snprintf]
  rw [hbytes,cut_terminated hfree]

theorem cmpl_plain : 0∉cstr "cmpl" ∧ (cstr "cmpl").length < 50 := by decide

theorem chatcmpl_plain : 0∉cstr "chatcmpl" ∧ (cstr "chatcmpl").length < 50 := by decide

end Ids

section Routes

variable {c d : ApiContext} (environment : Environment) (request : HttpRequest)
  (response : HttpResponse)

theorem same_of_eq (h : Alike c d) (r : HttpResponse) : Same c d (c,r) (d,r) := ⟨rfl,h⟩

theorem same_handlePost (h : Alike c d) {R : Type} {parse : List UInt8 → Nat → Except Fault R}
    {field : List UInt8} {missing : R → Bool}
    {respond : R → ApiContext → HttpResponse → ApiContext × HttpResponse}
    (hr : ∀ req response,Same c d (respond req c response) (respond req d response)) :
    Same c d (handlePost parse field missing respond c request response)
      (handlePost parse field missing respond d request response) := by
  unfold handlePost
  split
  · exact same_of_eq h _
  split
  · exact same_of_eq h _
  split
  · exact same_of_eq h _
  split
  · exact same_of_eq h _
  · exact hr ..

theorem same_handleV1Completions (h : Alike c d) :
    Same c d (handleV1Completions environment c request response)
      (handleV1Completions environment d request response) := by
  apply same_handlePost request response h
  intro req response
  refine ⟨?_,⟨h.llmCtx,h.createdTime⟩⟩
  dsimp only
  rw [generateRequestId_text c cmpl_plain.1 cmpl_plain.2,
    generateRequestId_text d cmpl_plain.1 cmpl_plain.2]
  simp only [completionCalls,generateRequestId,h.llmCtx,h.createdTime]

theorem same_handleV1ChatCompletions (h : Alike c d) :
    Same c d (handleV1ChatCompletions environment c request response)
      (handleV1ChatCompletions environment d request response) := by
  apply same_handlePost request response h
  intro req response
  refine ⟨?_,⟨h.llmCtx,h.createdTime⟩⟩
  dsimp only
  rw [generateRequestId_text c chatcmpl_plain.1 chatcmpl_plain.2,
    generateRequestId_text d chatcmpl_plain.1 chatcmpl_plain.2]
  simp only [chatCalls,generateRequestId,h.llmCtx,h.createdTime]

theorem same_handleV1Embeddings (h : Alike c d) :
    Same c d (handleV1Embeddings environment c request response)
      (handleV1Embeddings environment d request response) :=
  same_handlePost request response h fun _ _ => same_of_eq h _

theorem same_handleV1Models (h : Alike c d) :
    Same c d (handleV1Models c request response) (handleV1Models d request response) := by
  unfold handleV1Models
  split
  · exact same_of_eq h _
  · refine ⟨?_,h⟩
    simp only [modelCalls,h.createdTime]

theorem same_handleTokenize (h : Alike c d) :
    Same c d (handleTokenize c request response) (handleTokenize d request response) := by
  apply same_handlePost request response h
  intro req response
  refine ⟨?_,h⟩
  simp only [tokenized,h.llmCtx]

theorem same_handleDetokenize (h : Alike c d) :
    Same c d (handleDetokenize c request response) (handleDetokenize d request response) := by
  apply same_handlePost request response h
  intro req response
  refine ⟨?_,h⟩
  simp only [detokenized,h.llmCtx]

/-- What holds of both answers to one route and to all others. -/
theorem same_route {routed : Bool} {r r' o o' : ApiContext × HttpResponse} (h : Same c d r r')
    (ho : Same c d o o') : Same c d (if routed then r else o) (if routed then r' else o') := by
  cases routed
  · exact ho
  · exact h

theorem same_routeRequest (h : Alike c d) :
    Same c d (routeRequest environment c request response)
      (routeRequest environment d request response) := by
  have same (r : HttpResponse) : Same c d (c,r) (d,r) := same_of_eq h r
  unfold routeRequest
  dsimp only
  apply same_route (same_handleV1Completions _ _ _ h)
  apply same_route (same_handleV1ChatCompletions _ _ _ h)
  apply same_route (same_handleV1Embeddings _ _ _ h)
  apply same_route (same_handleV1Models _ _ h)
  apply same_route (same_handleTokenize _ _ h)
  apply same_route (same_handleDetokenize _ _ h)
  apply same_route (same _)
  apply same_route (same _)
  apply same_route (same _)
  apply same_route (same _)
  exact same _

end Routes

/-- In every run of requests each one is answered as if it had been the only one: nothing of what
has been asked before shows in an answer, its id included. So an id does not tell two completions
apart. -/
theorem answers_stateless (context : ApiContext) (xs : List Exchange) :
    Machine.outputs serve context xs=
        xs.map (fun x => (routeRequest x.environment context x.request x.response).2) ∧
      ∀ c : ApiContext,(generateRequestId c (cstr "cmpl")).2=cstr "cmpl-%016llx" ∧
        (generateRequestId c (cstr "chatcmpl")).2=cstr "chatcmpl-%016llx" := by
  constructor
  · have hforgets := Machine.outputs_forgets serve (f := fun x => (serve context x).2)
      (Alike · context) (fun c x h => ?_) (.refl context) xs
    · rw [hforgets,List.map_eq_flatMap]
      rfl
    · have hsame := same_routeRequest x.environment x.request x.response h
      exact ⟨congrArg (fun r => [r]) hsame.answer,hsame.context⟩
  · intro c
    rw [generateRequestId_text c cmpl_plain.1 cmpl_plain.2,
      generateRequestId_text c chatcmpl_plain.1 chatcmpl_plain.2]
    decide

end Cllm.Api
