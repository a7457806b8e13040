import Cllm.Api.Routes
import Cllm.Unikernel.Interleaving
import Cllm.Tcp.Post

namespace Cllm.Unikernel

open Libc Network Http Tcp Api Machine

theorem requestsOf_map (slot : Option Slot) (es : List Effect) :
    requestsOf (es.map (⟨slot,·⟩))=routes es := by
  rw [requestsOf,routes,List.filterMap_map]
  rfl

/-- tcp_receive cuts every request off behind its headers. -/
theorem tcpInput_bodyless (rr : HttpRequest → HttpResponse) (ip : UInt32) (seg : Segment)
    (t : TcpStack) : ∀ request∈requestsOf (tcpInput rr ip seg t).2,request.bodyLength=0 := by
  rw [tcpInput]
  split
  · rw [requestsOf_map]
    exact (socketReceive_transition ..).routes_bodyLength
  · rw [requestsOf_map]
    exact (socketReceive_transition ..).routes_bodyLength
  · intro request hr
    split_ifs at hr
    · cases hr
    · cases hr

theorem networkReceive_bodyless (rr : HttpRequest → HttpResponse) (frame : Frame) (h : Host) :
    ∀ request∈requestsOf (networkReceive rr frame h).2.events,request.bodyLength=0 := by
  have ht := congrArg Prod.snd (networkReceive_tcp rr frame h)
  simp only at ht
  rw [ht]
  split
  · apply List.forall_mem_nil
  · apply tcpInput_bodyless

theorem contextAfter_bodyless (environment : Environment) (api : ApiContext)
    {requests : List HttpRequest} (h : ∀ request∈requests,request.bodyLength=0) :
    contextAfter environment api requests=api := by
  induction requests with
  | nil => rfl
  | cons request requests ih =>
    obtain ⟨hfirst,hrest⟩ := List.forall_mem_cons.mp h
    rw [contextAfter,List.foldl_cons,(routeRequest_bodyless _ _ _ hfirst).1]
    exact ih hrest

/-- No call into the stack changes g_api_ctx, and no request in it has a body. -/
theorem kernelCall_serves (k : KernelState) (input : KernelInput) :
    (kernelCall k input).1.api=k.api ∧
      ∀ request∈requestsOf (kernelCall k input).2.events,request.bodyLength=0 := by
  cases input with
  | frame environment frame =>
    have hbody := networkReceive_bodyless (handler environment k.api) frame k.host
    exact ⟨contextAfter_bodyless environment k.api hbody,hbody⟩
  | periodic =>
    refine ⟨rfl,?_⟩
    intro request hr
    obtain ⟨e,he,hroute⟩ := List.mem_filterMap.mp hr
    obtain ⟨i,-,hi⟩ := List.mem_flatMap.mp he
    obtain ⟨effect,heffect,rfl⟩ := List.mem_map.mp hi
    have hnone := slotStep_bodyLength i (k.host.tcp.sockets i) (.tick (k.host.tcp.now+1))
    exact hnone request (List.mem_filterMap.mpr ⟨effect,heffect,hroute⟩)

theorem kernel_api (k : KernelState) (inputs : List KernelInput) :
    (runState kernelStep k inputs).api=k.api := by
  induction inputs generalizing k with
  | nil => rfl
  | cons input inputs ih =>
    rw [runState_cons,ih]
    exact (kernelCall_serves k input).1

/-- Whatever arrives, g_api_ctx stays as it was at boot, every request that route_request gets
is without a body, and so no endpoint that needs one answers with anything but an error. -/
theorem loop_serves_no_post (rxBuffers : Nat → Buffer rxBufferSize)
    (txBuffers : Nat → Buffer txBufferSize) (as : List LoopAction) :
    let s := runState loopStep (loopInit rxBuffers txBuffers) as
    let es := outputs loopStep (loopInit rxBuffers txBuffers) as
    s.kernel.api=⟨false,0,0⟩ ∧
      ∀ outcome∈outcomes es,∀ request∈requestsOf outcome.events,request.bodyLength=0 ∧
        ((∃ path∈postPaths,path.isPrefixOf (cut request.path.bytes)=true) →
          ∀ environment,(handler environment s.kernel.api request).statusCode=
            if isPostRequest request=false then 405 else 400) := by
  intro s es
  have hview : s.kernel=runState kernelStep kernelInit (kernelRefines.inputsOf _ as) :=
    kernelRefines.view_run (loopInit rxBuffers txBuffers) as
  have hseen : outcomes es=outputs kernelStep kernelInit (kernelRefines.inputsOf _ as) :=
    kernelRefines.seen_run (loopInit rxBuffers txBuffers) as
  refine ⟨?_,?_⟩
  · rw [hview]
    exact kernel_api kernelInit _
  · intro outcome ho request hr
    rw [hseen] at ho
    obtain ⟨pre,input,post,-,hin⟩ := mem_outputs ho
    obtain rfl := List.mem_singleton.mp hin
    have hbody := (kernelCall_serves _ input).2 request hr
    refine ⟨hbody,?_⟩
    intro hpath environment
    exact (routeRequest_bodyless _ _ _ hbody).2 hpath

end Cllm.Unikernel
