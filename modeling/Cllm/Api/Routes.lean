import Cllm.Api.Handlers
import Cllm.Framework.Dispatch
import Cllm.Tcp.Receive

namespace Cllm.Api

open Libc Json Http Dispatch

theorem strncmp_starts {s t : List UInt8} (ht : 0∉t) :
    strncmp s t t.length=0 ↔ t.isPrefixOf (cut s)=true := by
  induction t generalizing s with
  | nil => simp [strncmp]
  | cons d t ih =>
    rw [List.mem_cons,not_or] at ht
    rw [List.length_cons,strncmp]
    cases s with
    | nil => simp [cut,ht.1,char_sub_ne ht.1]
    | cons c s =>
      rw [List.headD_cons,List.headD_cons,List.tail_cons,List.tail_cons]
      by_cases hc : c=d
      · subst hc
        have hcut : cut (c::s)=c::cut s := by simp [cut,Ne.symm ht.1]
        simp [Ne.symm ht.1,ih ht.2,hcut]
      · by_cases h0 : c=0
        · subst h0
          simp [cut,hc,char_sub_ne hc]
        · have hcut : cut (c::s)=c::cut s := by simp [cut,h0]
          simp [hc,char_sub_ne hc,hcut,Ne.symm hc]

/-- What answers the requests for a path: `whole` when the comparison goes on to the NUL of the
path. -/
structure Route where
  path : List UInt8
  whole : Bool
  answer : ApiContext → HttpRequest → HttpResponse → ApiContext × HttpResponse

/-- A legacy endpoint, whose body route_request measures again. -/
def legacy (handle : HttpResponse → HttpResponse) (context : ApiContext) (_ : HttpRequest)
    (response : HttpResponse) : ApiContext × HttpResponse :=
  (context,measureBody (handle response))

def notFound (response : HttpResponse) : HttpResponse :=
  measureBody (setBody {response with statusCode := 404}
    (cstr "\x7b\"error\":\"not found\"\x7d"))

variable (environment : Environment)

/-- The comparisons of route_request in their order. -/
def routeTable : List Route :=
  [⟨cstr "/v1/completions",false,handleV1Completions environment⟩,
    ⟨cstr "/v1/chat/completions",false,handleV1ChatCompletions environment⟩,
    ⟨cstr "/v1/embeddings",false,handleV1Embeddings environment⟩,
    ⟨cstr "/v1/models",false,handleV1Models⟩,⟨cstr "/tokenize",false,handleTokenize⟩,
    ⟨cstr "/detokenize",false,handleDetokenize⟩,⟨cstr "/health",true,legacy handleHealthCheck⟩,
    ⟨cstr "/model/metadata",false,legacy (handleModelMetadata environment)⟩,
    ⟨cstr "/model/load",true,legacy handleLoadModel⟩,
    ⟨cstr "/completion",false,legacy handleCompletion⟩]

/-- A request is for a route when its path begins with it, or is it. -/
def Route.takes (request : HttpRequest) (r : Route) : Bool :=
  if r.whole then cut request.path.bytes=r.path else r.path.isPrefixOf (cut request.path.bytes)

/-- The first route of a table that takes the request answers it. -/
def dispatchRoutes (table : List Route) (context : ApiContext) (request : HttpRequest)
    (response : HttpResponse) : ApiContext × HttpResponse :=
  match table.find? (Route.takes request) with
  | some r => r.answer context request response
  | none => (context,notFound response)

section Table

variable {environment} (context : ApiContext) (request : HttpRequest) (response : HttpResponse)

theorem dispatchRoutes_cons (r : Route) (table : List Route) :
    dispatchRoutes (r::table) context request response=
      if r.takes request then r.answer context request response
      else dispatchRoutes table context request response := by
  rw [dispatchRoutes,List.find?_cons]
  cases r.takes request <;> rfl

/-- A route of `n` characters, or with its NUL. -/
theorem takes_routed {path : List UInt8} {whole : Bool} {n : Nat}
    (hn : n=path.length+whole.toNat) (h0 : 0∉path)
    (answer : ApiContext → HttpRequest → HttpResponse → ApiContext × HttpResponse) :
    Route.takes request ⟨path,whole,answer⟩=routed request path n := by
  rw [routed,hn,Route.takes]
  cases whole with
  | true => exact decide_eq_decide.mpr (strncmp_whole h0).symm
  | false =>
    show path.isPrefixOf _=_
    rw [Bool.eq_iff_iff,decide_eq_true_eq]
    exact (strncmp_starts h0).symm

theorem routeRequest_table : routeRequest environment context request response=
    dispatchRoutes (routeTable environment) context request (setJsonHeaders response) := by
  rw [routeTable,dispatchRoutes_cons,takes_routed request (n := 15) rfl (by decide)]
  rw [dispatchRoutes_cons,takes_routed request (n := 20) rfl (by decide)]
  rw [dispatchRoutes_cons,takes_routed request (n := 14) rfl (by decide)]
  rw [dispatchRoutes_cons,takes_routed request (n := 10) rfl (by decide)]
  rw [dispatchRoutes_cons,takes_routed request (n := 9) rfl (by decide)]
  rw [dispatchRoutes_cons,takes_routed request (n := 11) rfl (by decide)]
  rw [dispatchRoutes_cons,takes_routed request (n := 8) rfl (by decide)]
  rw [dispatchRoutes_cons,takes_routed request (n := 15) rfl (by decide)]
  rw [dispatchRoutes_cons,takes_routed request (n := 12) rfl (by decide)]
  rw [dispatchRoutes_cons,takes_routed request (n := 11) rfl (by decide)]
  rfl

/-- The paths of the table, none of which begins with another. -/
theorem routeTable_apart : (routeTable environment).Pairwise fun a b => Apart a.path b.path=true := by
  have hpaths : ((routeTable environment).map Route.path).Pairwise fun p q => Apart p q=true := by
    show ([cstr "/v1/completions",cstr "/v1/chat/completions",cstr "/v1/embeddings",
      cstr "/v1/models",cstr "/tokenize",cstr "/detokenize",cstr "/health",
      cstr "/model/metadata",cstr "/model/load",cstr "/completion"] : List (List UInt8)).Pairwise _
    decide +kernel
  exact List.pairwise_map.mp hpaths

theorem takes_prefix {r : Route} (h : r.takes request=true) :
    r.path.isPrefixOf (cut request.path.bytes)=true := by
  rw [Route.takes] at h
  split_ifs at h with hw
  · have hpath : cut request.path.bytes=r.path := of_decide_eq_true h
    rw [hpath]
    exact List.isPrefixOf_iff_prefix.mpr (List.prefix_refl _)
  · exact h

theorem routeTable_exclusive : Exclusive (Route.takes request) (routeTable environment) :=
  (exclusive_of_apart Route.path routeTable_apart _).mono fun _ h => takes_prefix request h

/-- No request is for two endpoints: route_request would do the same whatever the order of its
comparisons. -/
theorem routeRequest_perm {table : List Route} (h : table.Perm (routeTable environment)) :
    routeRequest environment context request response=
      dispatchRoutes table context request (setJsonHeaders response) := by
  rw [routeRequest_table,dispatchRoutes,dispatchRoutes,
    find?_perm h.symm (routeTable_exclusive request)]

end Table

theorem nothing_stored :
    0∉([] : List UInt8) ∧ ([] : List UInt8).length+httpResponseBodySize ≤ 2^32 := by decide

def anyEnvironment : Environment := ⟨fun _ => true,fun _ => ⟨[],nothing_stored⟩,.float⟩

theorem routeRequest_perm_reversed :
    routeRequest anyEnvironment ⟨false,0,0⟩ .init Tcp.badRequest=
      dispatchRoutes (routeTable anyEnvironment).reverse ⟨false,0,0⟩ .init
        (setJsonHeaders Tcp.badRequest) :=
  routeRequest_perm ⟨false,0,0⟩ .init Tcp.badRequest (List.reverse_perm _)

section Status

variable {environment} {R : Type} {parse : List UInt8 → Nat → Except Fault R}
  {field : List UInt8} {missing : R → Bool}
  {respond : R → ApiContext → HttpResponse → ApiContext × HttpResponse}
  (context : ApiContext) (request : HttpRequest) (response : HttpResponse)

/-- A handler of POST requests rejects a request, or makes its response. -/
theorem handlePost_status (h : ∀ r context response,
      (respond r context response).2.statusCode=200) :
    (handlePost parse field missing respond context request response).2.statusCode∈
      ([200,400,405] : List Int) := by
  rw [handlePost]
  split_ifs
  · exact .tail _ (.tail _ (.head _))
  · exact .tail _ (.head _)
  · split
    · exact .tail _ (.head _)
    · split_ifs
      · exact .tail _ (.head _)
      · rw [h]
        exact .head _

/-- Without a body it is rejected for its method or for that. -/
theorem handlePost_bodyless (hb : request.bodyLength=0) :
    handlePost parse field missing respond context request response=
      (context,if isPostRequest request=false then
        invalidRequest response 405 (cstr "Method not allowed") [] (cstr "method_not_allowed")
      else invalidRequest response 400 (cstr "Request body is empty") []
        (cstr "empty_body")) := by
  rw [handlePost,if_pos hb]
  split_ifs <;> rfl

theorem measureBody_status : (measureBody response).statusCode=response.statusCode := rfl

theorem legacy_status (handle : HttpResponse → HttpResponse) :
    (legacy handle context request response).2.statusCode=(handle response).statusCode := by
  rw [legacy]
  exact measureBody_status (handle response)

theorem handleModelMetadata_status :
    (handleModelMetadata environment response).statusCode∈([200,500] : List Int) := by
  rw [handleModelMetadata]
  simp only
  split_ifs
  · exact .tail _ (.head _)
  · exact .head _

/-- The endpoints reject, answer or fail; none says that it was not found. -/
theorem route_status {r : Route} (hr : r∈routeTable environment) :
    (r.answer context request response).2.statusCode∈([200,400,405,500] : List Int) := by
  have hpost {s : Int} (hs : s∈([200,400,405] : List Int)) :
      s∈([200,400,405,500] : List Int) := by
    simp only [List.mem_cons,List.not_mem_nil,or_false] at hs ⊢
    omega
  simp only [routeTable,List.mem_cons,List.not_mem_nil,or_false] at hr
  rcases hr with rfl|rfl|rfl|rfl|rfl|rfl|rfl|rfl|rfl|rfl
  · exact hpost (handlePost_status _ _ _ fun _ _ _ => rfl)
  · exact hpost (handlePost_status _ _ _ fun _ _ _ => rfl)
  · exact hpost (handlePost_status _ _ _ fun _ _ _ => rfl)
  · show (handleV1Models context request response).2.statusCode∈_
    rw [handleV1Models]
    split_ifs
    · exact .tail _ (.tail _ (.head _))
    · exact .head _
  · exact hpost (handlePost_status _ _ _ fun _ _ _ => rfl)
  · exact hpost (handlePost_status _ _ _ fun _ _ _ => rfl)
  · exact .head _
  · have hmeta : (handleModelMetadata environment response).statusCode∈([200,500] : List Int) :=
      handleModelMetadata_status response
    rw [legacy_status]
    simp only [List.mem_cons,List.not_mem_nil,or_false] at hmeta ⊢
    omega
  · exact .head _
  · exact .head _

/-- 404 is for the requests that no endpoint is for. -/
theorem routeRequest_notFound :
    (routeRequest environment context request response).2.statusCode=404 ↔
      ∀ r∈routeTable environment,r.takes request=false := by
  rw [routeRequest_table,dispatchRoutes]
  cases hf : (routeTable environment).find? (Route.takes request) with
  | none =>
    have hnone := List.find?_eq_none.mp hf
    simp only [Bool.not_eq_true] at hnone
    exact ⟨fun _ => hnone,fun _ => rfl⟩
  | some r =>
    have hr := List.mem_of_find?_eq_some hf
    have htakes : r.takes request=true := List.find?_some hf
    have hstatus := route_status context request (setJsonHeaders response) hr
    constructor
    · intro h404
      simp only at h404
      rw [h404] at hstatus
      simp at hstatus
    · intro hall
      have hnot := hall r hr
      rw [htakes] at hnot
      cases hnot

/-- The endpoints for POST requests. -/
def postPaths : List (List UInt8) :=
  [cstr "/v1/completions",cstr "/v1/chat/completions",cstr "/v1/embeddings",cstr "/tokenize",
    cstr "/detokenize"]

/-- The answer of a POST endpoint to a request without a body. -/
theorem route_bodyless (hb : request.bodyLength=0) {r : Route} (hr : r∈routeTable environment) :
    (r.answer context request response).1=context ∧ (r.path∈postPaths →
      (r.answer context request response).2.statusCode=
        if isPostRequest request=false then 405 else 400) := by
  have hpost {R : Type} {parse : List UInt8 → Nat → Except Fault R} {field : List UInt8}
      {missing : R → Bool} {respond : R → ApiContext → HttpResponse → ApiContext × HttpResponse} :
      (handlePost parse field missing respond context request response).1=context ∧
        (handlePost parse field missing respond context request response).2.statusCode=
          if isPostRequest request=false then 405 else 400 := by
    rw [handlePost_bodyless _ _ _ hb]
    split_ifs <;> exact ⟨rfl,rfl⟩
  have hother {path : List UInt8} (h : decide (path∈postPaths)=false) : ¬path∈postPaths :=
    of_decide_eq_false h
  simp only [routeTable,List.mem_cons,List.not_mem_nil,or_false] at hr
  rcases hr with rfl|rfl|rfl|rfl|rfl|rfl|rfl|rfl|rfl|rfl
  · exact ⟨hpost.1,fun _ => hpost.2⟩
  · exact ⟨hpost.1,fun _ => hpost.2⟩
  · exact ⟨hpost.1,fun _ => hpost.2⟩
  · refine ⟨?_,fun hp => absurd hp (hother (by rfl))⟩
    show (handleV1Models context request response).1=context
    rw [handleV1Models]
    split_ifs <;> rfl
  · exact ⟨hpost.1,fun _ => hpost.2⟩
  · exact ⟨hpost.1,fun _ => hpost.2⟩
  · exact ⟨rfl,fun hp => absurd hp (hother (by rfl))⟩
  · exact ⟨rfl,fun hp => absurd hp (hother (by rfl))⟩
  · exact ⟨rfl,fun hp => absurd hp (hother (by rfl))⟩
  · exact ⟨rfl,fun hp => absurd hp (hother (by rfl))⟩

/-- A request without a body leaves g_api_ctx as it is, and no POST endpoint serves it. -/
theorem routeRequest_bodyless (hb : request.bodyLength=0) :
    (routeRequest environment context request response).1=context ∧
      ((∃ path∈postPaths,path.isPrefixOf (cut request.path.bytes)=true) →
        (routeRequest environment context request response).2.statusCode=
          if isPostRequest request=false then 405 else 400) := by
  rw [routeRequest_table]
  constructor
  · rw [dispatchRoutes]
    cases hf : (routeTable environment).find? (Route.takes request) with
    | none => rfl
    | some r =>
      exact (route_bodyless _ _ _ hb (List.mem_of_find?_eq_some hf)).1
  · rintro ⟨path,hpath,hstarts⟩
    obtain ⟨r,hr,rfl,hw⟩ : ∃ r∈routeTable environment,r.path=path ∧ r.whole=false := by
      simp only [postPaths,List.mem_cons,List.not_mem_nil,or_false] at hpath
      rcases hpath with rfl|rfl|rfl|rfl|rfl
      · exact ⟨_,.head _,rfl,rfl⟩
      · exact ⟨_,.tail _ (.head _),rfl,rfl⟩
      · exact ⟨_,.tail _ (.tail _ (.head _)),rfl,rfl⟩
      · exact ⟨_,.tail _ (.tail _ (.tail _ (.tail _ (.head _)))),rfl,rfl⟩
      · exact ⟨_,.tail _ (.tail _ (.tail _ (.tail _ (.tail _ (.head _))))),rfl,rfl⟩
    have htakes : r.takes request=true := by
      rw [Route.takes,hw]
      exact hstarts
    rw [dispatchRoutes,(routeTable_exclusive request).find? hr htakes]
    exact (route_bodyless _ _ _ hb hr).2 hpath

end Status

end Cllm.Api
