import Cllm.Api.Routes
import Cllm.Heap.Lending
import Cllm.Tcp.Receive

namespace Cllm.Unikernel

open Libc Http Api Heap HeapState ByteMemory

/-- sizeof(http_request_t) and sizeof(http_response_t) on i386 -/
abbrev requestSize : Nat := 16+256+16+1024+httpRequestBodySize+4+64+4
abbrev responseSize : Nat := 4+1024+httpResponseBodySize+4

def setBytes (h : HeapState) (a : Nat) (bs : List UInt8) : HeapState :=
  {h with mem := storeBytes h.mem (byteStores a bs)}

/-- The bytes that are written to a block of 64, and looked at again. -/
def pattern : List UInt8 := (List.range 64).map UInt8.ofNat

def testAllocator (arena : Arena) (h : HeapState) : Option (HeapState × Bool) :=
  (malloc arena h 64).bind fun (h,p) =>
    if p=0 then some (h,false)
    else
      let h := setBytes h p pattern
      let ok := (List.range 64).map (fun i => h.mem (p+i))=pattern
      (free h p).map fun h => (h,decide ok)

theorem health_fits : (cstr "/health").length < 256 := by decide

theorem get_fits : (cstr "GET").length < 16 := by decide

/-- The request for the health endpoint. -/
def healthRequest (request : HttpRequest) : HttpRequest :=
  {request with path := ⟨cstr "/health",health_fits⟩,method := ⟨cstr "GET",get_fits⟩}

/-- What strncpy puts into an array of `n` bytes. -/
def padded (n : Nat) (s : List UInt8) : List UInt8 := s++List.replicate (n-s.length) 0

/-- The fields of an http_response_t in memory. -/
def storeResponse (h : HeapState) (a : Nat) (response : HttpResponse) : HeapState :=
  let h := {h with mem := storeWord h.mem a (response.statusCode%2^32).toNat}
  let h := setBytes h (a+4) response.headers.bytes
  let h := setBytes h (a+4+1024) response.body.bytes
  {h with mem := storeWord h.mem (a+4+1024+httpResponseBodySize) response.bodyLength}

/-- The health endpoint, with what stands in the two blocks before. -/
def testHealth (arena : Arena) (environment : Environment) (context : ApiContext) (h : HeapState)
    (request : HttpRequest) (response : HttpResponse) : Option (HeapState × Bool) :=
  (malloc arena h requestSize).bind fun (h,p) =>
    (malloc arena h responseSize).bind fun (h,q) =>
      if p=0 ∨ q=0 then some (h,false)
      else
        let h := setBytes h (p+16) (padded 256 (cstr "/health"))
        let h := setBytes h p (padded 16 (cstr "GET"))
        let response := (routeRequest environment context (healthRequest request) response).2
        let h := storeResponse h q response
        (free h p).bind fun h => (free h q).map fun h => (h,decide (response.statusCode=200))

/-- embedded_model_bytes -/
def embeddedModel : List UInt8 :=
  embeddedModelBytes++[3,0,0,0,0,0,0,0,0,0,0,0,0,1,2,3,4,5,6,7,8,9,10,11]

/-- c_validate_embedded_model -/
def cValidateEmbeddedModel : Bool := 4 ≤ embeddedModel.length ∧ embeddedModel.take 4=cstr "GGUF"

/-- The heap after run_self_tests, and whether it returns 0. -/
def runSelfTests (arena : Arena) (environment : Environment) (context : ApiContext)
    (h : HeapState) (request : HttpRequest) (response : HttpResponse) :
    Option (HeapState × Bool) :=
  (testAllocator arena h).bind fun (h,allocator) =>
    (testHealth arena environment context h request response).map fun (h,health) =>
      (h,allocator && health && cValidateEmbeddedModel)

theorem padded_length {n : Nat} {s : List UInt8} (h : s.length < n) : (padded n s).length=n := by
  rw [padded,List.length_append,List.length_replicate]
  omega

section Blocks

variable {arena : Arena} {h : HeapState} {P : Pool Nat} {e : Block}

theorem within_setBytes {a : Nat} {bs : List UInt8} (ha : pointer e ≤ a)
    (ha' : a+bs.length ≤ e.stop) : Within h (setBytes h a bs) (payload e) := by
  refine ⟨fun x hx => storeBytes_of_ne fun k hk hx' => ?_,rfl⟩
  have hbounds := byteStores_bounds k hk
  have hno : ¬(e.start+headerSize≤x ∧ x<e.stop) := hx
  rw [pointer] at ha
  omega

theorem pattern_length : pattern.length=64 := by
  rw [pattern,List.length_map,List.length_range]

/-- What has been written is read. -/
theorem pattern_read (h : HeapState) (p : Nat) :
    (List.range 64).map (fun i => (setBytes h p pattern).mem (p+i))=pattern := by
  apply List.ext_getElem
  · rw [List.length_map,List.length_range,pattern_length]
  · intro i hi hi'
    have hstored := storeBytes_byteStores (m := h.mem) (a := p) hi'
    rw [List.getElem?_eq_getElem hi'] at hstored
    rw [List.getElem_map,List.getElem_range]
    exact Option.some.inj hstored

theorem testAllocator_spec (hR : Represents arena h P) :
    ∃ h' p,testAllocator arena h=some (h',decide (p≠0)) ∧ Represents arena h' P ∧
      Within h h' (Extent.covered P.free) ∧
      ∀ live,Machine.outputs (step arena) ⟨h,live⟩ [.malloc 64]=[.returned p] := by
  rw [testAllocator]
  rcases malloc_lends hR (by decide : 64≠0) with ⟨hm,-⟩|⟨h1,e,Q,hm,htakes,he,hp,hR1,hw1,hroom⟩
  · refine ⟨h,0,?_,hR,within_refl,fun live => ?_⟩
    · rw [hm]
      rfl
    · simp only [Machine.outputs_cons,Machine.outputs_nil,step,hm,List.append_nil]
  · have halign : alignSize 64=64 := by decide
    have hw2 : Within h1 (setBytes h1 (pointer e) pattern) (payload e) :=
      within_setBytes le_rfl (by rw [pattern_length]; omega)
    obtain ⟨h3,hfree,hR3,hw3⟩ := free_returns hR.sound htakes (hR1.write he hw2 rfl)
    refine ⟨h3,pointer e,?_,hR3,hw1.trans ((within_payload htakes hw2).trans hw3),
      fun live => ?_⟩
    · rw [hm,Option.bind_some]
      dsimp only
      rw [if_neg hp,hfree,Option.map_some,pattern_read]
      simp [hp]
    · simp only [Machine.outputs_cons,Machine.outputs_nil,step,hm,List.append_nil]

end Blocks

section Health

variable {arena : Arena} {h h' : HeapState} {P Q R : Pool Nat} {a b : Block}

theorem healthRequest_routed (request : HttpRequest) (route : List UInt8) (n : Nat) :
    routed (healthRequest request) route n=decide (strncmp (cstr "/health") route n=0) := rfl

theorem health_apart : strncmp (cstr "/health") (cstr "/v1/completions") 15≠0 ∧
    strncmp (cstr "/health") (cstr "/v1/chat/completions") 20≠0 ∧
    strncmp (cstr "/health") (cstr "/v1/embeddings") 14≠0 ∧
    strncmp (cstr "/health") (cstr "/v1/models") 10≠0 ∧
    strncmp (cstr "/health") (cstr "/tokenize") 9≠0 ∧
    strncmp (cstr "/health") (cstr "/detokenize") 11≠0 ∧
    strncmp (cstr "/health") (cstr "/health") 8=0 := by decide

/-- The request comes to the health endpoint. -/
theorem routeRequest_health (environment : Environment) (context : ApiContext)
    (request : HttpRequest) (response : HttpResponse) :
    routeRequest environment context (healthRequest request) response=
      (context,measureBody (handleHealthCheck (setJsonHeaders response))) := by
  obtain ⟨h1,h2,h3,h4,h5,h6,h7⟩ := health_apart
  unfold routeRequest
  dsimp only
  rw [healthRequest_routed,healthRequest_routed,healthRequest_routed,healthRequest_routed,
    healthRequest_routed,healthRequest_routed,healthRequest_routed,decide_eq_false h1,
    decide_eq_false h2,decide_eq_false h3,decide_eq_false h4,decide_eq_false h5,
    decide_eq_false h6,decide_eq_true h7]
  rfl

theorem health_status (environment : Environment) (context : ApiContext) (request : HttpRequest)
    (response : HttpResponse) :
    (routeRequest environment context (healthRequest request) response).2.statusCode=200 := by
  rw [routeRequest_health]
  show (measureBody (handleHealthCheck (setJsonHeaders response))).statusCode=200
  rw [measureBody_status]
  rfl

theorem within_storeResponse (response : HttpResponse) (hroom : pointer b+responseSize ≤ b.stop) :
    Within h (storeResponse h (pointer b) response) (payload b) := by
  have hheaders := response.headers.size
  have hbody := response.body.size
  rw [responseSize] at hroom
  have hword (h : HeapState) (v : Nat) :
      Within h {h with mem := storeWord h.mem (pointer b) v} (payload b) :=
    within_storeWord le_rfl (by omega)
  have hheaders' (h : HeapState) :
      Within h (setBytes h (pointer b+4) response.headers.bytes) (payload b) :=
    within_setBytes (by omega) (by omega)
  have hbody' (h : HeapState) :
      Within h (setBytes h (pointer b+4+1024) response.body.bytes) (payload b) :=
    within_setBytes (by omega) (by omega)
  have hlength (h : HeapState) (v : Nat) : Within h
      {h with mem := storeWord h.mem (pointer b+4+1024+httpResponseBodySize) v} (payload b) := by
    generalize httpResponseBodySize=n at hroom
    exact within_storeWord (by omega) (by omega)
  unfold storeResponse
  dsimp only
  exact (hword _ _).trans ((hheaders' _).trans ((hbody' _).trans (hlength _ _)))

/-- A request and a response are freed in the order in which they were allocated. -/
theorem free_both (hP : P.Sound) (ha : P.Takes a Q) (hb : Q.Takes b R)
    (hR : Represents arena h R) :
    ∃ h1 h2,free h (pointer a)=some h1 ∧ free h1 (pointer b)=some h2 ∧ Represents arena h2 P ∧
      Within h h2 (Extent.covered P.free) := by
  have hQ := ha.sound hP
  have haQ : a∈Q.live := by
    rw [ha.mem]
    exact .head _
  have haR : a∈R.live := by
    rw [hb.mem]
    exact .tail _ haQ
  have hbR : b∈R.live := by
    rw [hb.mem]
    exact .head _
  have hne : a.start≠b.start := by
    have hapart := hR.sound.live_apart
    rw [hb.mem,List.pairwise_cons] at hapart
    exact (hapart.1 a haQ).symm.start_ne
  have hback : (R.release a).release b=P := by
    rw [Pool.release_comm hR.sound haR hbR hne,hb.release hQ,ha.release hP]
  have hbRa : b∈(R.release a).live := List.mem_filter.mpr ⟨hbR,by simpa using hne.symm⟩
  obtain ⟨h1,hfree1,hR1,hw1⟩ := free_spec hR haR
  obtain ⟨h2,hfree2,hR2,hw2⟩ := free_spec hR1 hbRa
  rw [hback] at hR2
  refine ⟨h1,h2,hfree1,hfree2,hR2,?_⟩
  -- what both calls write to was free before
  have hcover : Extent.covered P.free=a.range∪(b.range∪Extent.covered R.free) := by
    rw [← ha.covered_free,← hb.covered_free]
  have hrelease : Extent.covered (R.release a).free=a.range∪Extent.covered R.free := by
    show Extent.covered (Extent.coalesce (Extent.place a R.free))=_
    rw [Extent.covered_coalesce,Extent.covered_perm (Extent.place_perm a R.free),
      Extent.covered_cons]
  rw [hrelease] at hw2
  rw [hcover]
  refine (hw1.mono ?_).trans (hw2.mono ?_)
  · exact Set.union_subset_union_right _ Set.subset_union_right
  · rw [Set.union_left_comm]

/-- What the health test comes to: it passes if both blocks are there; if just one is, that one
stays in use. -/
theorem testHealth_spec (hR : Represents arena h P) (environment : Environment)
    (context : ApiContext) (request : HttpRequest) (response : HttpResponse) :
    ∃ h' p q,testHealth arena environment context h request response=
        some (h',decide (p≠0 ∧ q≠0)) ∧
      (∀ live,Machine.outputs (step arena) ⟨h,live⟩
        [.malloc requestSize,.malloc responseSize]=[.returned p,.returned q]) ∧
      Within h h' (Extent.covered P.free) ∧
      ((p=0 ↔ q=0) ∧ Represents arena h' P ∨
        ¬(p=0 ↔ q=0) ∧ ∃ e Q,P.Takes e Q ∧ Represents arena h' Q) := by
  have houts {h1 h2 : HeapState} {p q : Nat} (hm1 : malloc arena h requestSize=some (h1,p))
      (hm2 : malloc arena h1 responseSize=some (h2,q)) (live : List Nat) :
      Machine.outputs (step arena) ⟨h,live⟩ [.malloc requestSize,.malloc responseSize]=
        [.returned p,.returned q] := by
    simp only [Machine.outputs_cons,Machine.outputs_nil,step,hm1,hm2,List.append_nil,
      List.singleton_append]
  have hfails {h1 h2 : HeapState} {p q : Nat} (hm1 : malloc arena h requestSize=some (h1,p))
      (hm2 : malloc arena h1 responseSize=some (h2,q)) (hzero : p=0 ∨ q=0) :
      testHealth arena environment context h request response=
        some (h2,decide (p≠0 ∧ q≠0)) := by
    have hno : ¬(p≠0 ∧ q≠0) := by tauto
    rw [testHealth,hm1,Option.bind_some]
    dsimp only
    rw [hm2,Option.bind_some]
    dsimp only
    rw [if_pos hzero,decide_eq_false hno]
  rcases malloc_lends hR (by decide : requestSize≠0) with
    ⟨hm1,-⟩|⟨h1,a,Q,hm1,ha,-,hp,hR1,hw1,hroom1⟩
  · rcases malloc_lends hR (by decide : responseSize≠0) with
      ⟨hm2,-⟩|⟨h2,b,R,hm2,hb,-,hq,hR2,hw2,-⟩
    · exact ⟨h,0,0,hfails hm1 hm2 (.inl rfl),houts hm1 hm2,within_refl,.inl ⟨Iff.rfl,hR⟩⟩
    · exact ⟨h2,0,pointer b,hfails hm1 hm2 (.inl rfl),houts hm1 hm2,hw2,
        .inr ⟨by simp [hq],b,R,hb,hR2⟩⟩
  · rcases malloc_lends hR1 (by decide : responseSize≠0) with
      ⟨hm2,-⟩|⟨h2,b,R,hm2,hb,hbR,hq,hR2,hw2,hroom2⟩
    · exact ⟨h1,pointer a,0,hfails hm1 hm2 (.inr rfl),houts hm1 hm2,hw1,
        .inr ⟨by simp [hp],a,Q,ha,hR1⟩⟩
    · have haR : a∈R.live := by
        rw [hb.mem,ha.mem]
        exact .tail _ (.head _)
      have halign1 : alignSize requestSize=9576 := by decide
      have halign2 : alignSize responseSize=17416 := by decide
      have hsize : responseSize=17416 := rfl
      have hpath : (padded 256 (cstr "/health")).length=256 :=
        padded_length health_fits
      have hmethod : (padded 16 (cstr "GET")).length=16 := padded_length get_fits
      have hw3 : Within h2 (setBytes h2 (pointer a+16) (padded 256 (cstr "/health")))
          (payload a) := within_setBytes (Nat.le_add_right _ _) (by omega)
      have hR3 := hR2.write haR hw3 rfl
      have hw4 : Within _ (setBytes (setBytes h2 (pointer a+16) (padded 256 (cstr "/health")))
          (pointer a) (padded 16 (cstr "GET"))) (payload a) :=
        within_setBytes le_rfl (by omega)
      have hR4 := hR3.write haR hw4 rfl
      generalize hh4 : setBytes (setBytes h2 (pointer a+16) (padded 256 (cstr "/health"))) (pointer a)
        (padded 16 (cstr "GET"))=h4 at hw4 hR4
      have hw5 := within_storeResponse (h := h4)
        (routeRequest environment context (healthRequest request) response).2
        (by omega : pointer b+responseSize ≤ b.stop)
      have hR5 := hR4.write hbR hw5 rfl
      obtain ⟨h6,h7,hfree6,hfree7,hR7,hw7⟩ := free_both hR.sound ha hb hR5
      have hw : Within h h7 (Extent.covered P.free) :=
        hw1.trans ((within_taken ha hw2).trans ((within_payload ha hw3).trans
          ((within_payload ha hw4).trans ((within_taken ha (within_payload hb hw5)).trans hw7))))
      refine ⟨h7,pointer a,pointer b,?_,houts hm1 hm2,hw,.inl ⟨by simp [hp,hq],hR7⟩⟩
      have hboth : ¬(pointer a=0 ∨ pointer b=0) := not_or.mpr ⟨hp,hq⟩
      rw [testHealth,hm1,Option.bind_some]
      dsimp only
      rw [hm2,Option.bind_some]
      dsimp only
      rw [if_neg hboth,hh4,hfree6,Option.bind_some,hfree7,Option.map_some,health_status]
      simp [hp,hq]

end Health

theorem valid_model : cValidateEmbeddedModel=true := by decide

section SelfTests

variable (arena : Arena) (mem : Memory) (environment : Environment) (context : ApiContext)
  (request : HttpRequest) (response : HttpResponse)

/-- The free list is that of the pool, whoever holds the rest. -/
theorem freeBlocks_represents {arena : Arena} {h : HeapState} {P : Pool Nat}
    (hR : Represents arena h P) (live : List Nat) :
    State.freeBlocks ⟨h,live⟩=some (P.free.map Extent.start) :=
  freeBlocks_chain hR.freeList.linked hR.freeList.length_lt
    fun e he => (hR.freeList.inArena e he).start_pos

theorem runSelfTests_spec {arena : Arena} {s : State} {P : Pool Nat} (hs : Stands arena s P) :
    ∃ h' passed b p q,
      runSelfTests arena environment context s.heap request response=some (h',passed) ∧
      Machine.outputs (step arena) s [.malloc 64]=[.returned b] ∧
      Machine.outputs (step arena) s [.malloc requestSize,.malloc responseSize]=
        [.returned p,.returned q] ∧
      (passed=true ↔ b≠0 ∧ p≠0 ∧ q≠0) ∧ (∀ x∈s.live,Preserved s ⟨h',s.live⟩ x) ∧
      (State.freeBlocks ⟨h',s.live⟩=s.freeBlocks ↔ (p=0 ↔ q=0)) := by
  obtain ⟨h1,b,htest,hR1,hw1,hout1⟩ := testAllocator_spec hs.heap
  obtain ⟨h2,p,q,hhealth,hout2,hw2,hend⟩ :=
    testHealth_spec hR1 environment context request response
  -- the second test finds the heap as the first one did
  have hagain := (unnoticed hs hR1 hw1).2.2 [.malloc requestSize,.malloc responseSize]
    ⟨⟨trivial,by decide⟩,⟨trivial,by decide⟩,trivial⟩
  refine ⟨h2,decide (b≠0) && decide (p≠0 ∧ q≠0) && cValidateEmbeddedModel,b,p,q,?_,
    hout1 s.live,hagain.symm.trans (hout2 s.live),?_,fun x hx => ?_,?_⟩
  · rw [runSelfTests,htest,Option.bind_some]
    dsimp only
    rw [hhealth,Option.map_some]
  · rw [valid_model]
    simp
  · obtain ⟨e,he,rfl⟩ := hs.mem_live.mp hx
    exact preserved_of_untouched hs he fun y hy => (hw1.trans hw2).mem y
      (Set.disjoint_left.mp (hs.heap.free_disjoint_live he) hy)
  · rw [hs.freeBlocks]
    rcases hend with ⟨hiff,hR2⟩|⟨hno,e,Q,htakes,hR2⟩
    · rw [freeBlocks_represents hR2]
      exact iff_of_true rfl hiff
    · rw [freeBlocks_represents hR2,Option.some_inj]
      exact iff_of_false htakes.starts_ne hno

/-- In every state of the heap run_self_tests returns 0 exactly when the allocator would have
served its three requests. No block of anybody is touched. The free list is the same afterwards
exactly when the request and the response were both served or both refused: of just one of them
the self-tests never give back the block. -/
theorem runSelfTests_reports (calls : List Heap.Call)
    (h : Machine.Along (step arena) Regular (initial arena mem) calls) :
    let s := run arena mem calls
    ∃ h' passed b p q,
      runSelfTests arena environment context s.heap request response=some (h',passed) ∧
      Machine.outputs (step arena) s [.malloc 64]=[.returned b] ∧
      Machine.outputs (step arena) s [.malloc requestSize,.malloc responseSize]=
        [.returned p,.returned q] ∧
      (passed=true ↔ b≠0 ∧ p≠0 ∧ q≠0) ∧ (∀ x∈s.live,Preserved s ⟨h',s.live⟩ x) ∧
      (State.freeBlocks ⟨h',s.live⟩=s.freeBlocks ↔ (p=0 ↔ q=0)) := by
  intro s
  obtain ⟨P,hs⟩ := run_stands (h.mono _ fun _ _ => Regular.sizable)
  exact runSelfTests_spec environment context request response hs

theorem runSelfTests_reports_taken :
    let s := run lowArena zeros [.malloc 100]
    ∃ h' passed b p q,
      runSelfTests lowArena anyEnvironment ⟨false,0,0⟩ s.heap .init Tcp.badRequest=
        some (h',passed) ∧
      Machine.outputs (step lowArena) s [.malloc 64]=[.returned b] ∧
      Machine.outputs (step lowArena) s [.malloc requestSize,.malloc responseSize]=
        [.returned p,.returned q] ∧
      (passed=true ↔ b≠0 ∧ p≠0 ∧ q≠0) ∧ (∀ x∈s.live,Preserved s ⟨h',s.live⟩ x) ∧
      (State.freeBlocks ⟨h',s.live⟩=s.freeBlocks ↔ (p=0 ↔ q=0)) :=
  runSelfTests_reports lowArena zeros anyEnvironment ⟨false,0,0⟩ .init Tcp.badRequest [.malloc 100]
    (by decide)

/-- A heap that is one free block has room for the self-tests. -/
theorem outputs_boot : ∃ b p q,
    Machine.outputs (step arena) (initial arena mem) [.malloc 64]=[.returned b] ∧ b≠0 ∧
    Machine.outputs (step arena) (initial arena mem) [.malloc requestSize,.malloc responseSize]=
      [.returned p,.returned q] ∧ p≠0 ∧ q≠0 := by
  have hpool (cs : List Heap.Call) (hcs : Machine.Along (step arena) Regular (initial arena mem) cs) :
      Machine.outputs (step arena) (initial arena mem) cs=
        Machine.outputs poolStep (poolInit arena) cs :=
    (Machine.lockstep (step arena) poolStep (Stands arena) (fun _ _ _ hs hc => refines_step hs hc)
      (stands_initial arena mem) hcs).1
  have hp : pointer (wholeArena arena)≠0 := by
    have hpos := arena.base_pos
    show arena.base+headerSize≠0
    omega
  have hstop : (wholeArena arena).stop=arena.base+heapSize := rfl
  have hstart : pointer (wholeArena arena)=arena.base+headerSize := rfl
  have hheap : heapSize=4194304 := rfl
  have hheader := headerSize_eq
  have h64 : alignSize 64=64 := by decide
  have hrequest : alignSize requestSize=9576 := by decide
  have hresponse : alignSize responseSize=17416 := by decide
  obtain ⟨a,e,hm,-,-⟩ := poolMalloc_front _ [] (by decide : 64≠0)
    (by omega : pointer (wholeArena arena)+alignSize 64+headerSize+headerSize+8 ≤ _)
  obtain ⟨b,f,hm1,hf,hfstop⟩ := poolMalloc_front _ [] (by decide : requestSize≠0)
    (by omega :
      pointer (wholeArena arena)+alignSize requestSize+headerSize+headerSize+8 ≤ _)
  obtain ⟨c,g,hm2,-,-⟩ := poolMalloc_front f [b] (by decide : responseSize≠0)
    (by rw [pointer]; omega)
  refine ⟨pointer (wholeArena arena),pointer (wholeArena arena),pointer f,?_,hp,?_,hp,?_⟩
  · rw [hpool [.malloc 64] ⟨⟨trivial,by decide⟩,trivial⟩]
    simp only [Machine.outputs_cons,Machine.outputs_nil,poolStep,poolInit,hm,List.append_nil]
  · rw [hpool [.malloc requestSize,.malloc responseSize]
      ⟨⟨trivial,by decide⟩,⟨trivial,by decide⟩,trivial⟩]
    simp only [Machine.outputs_cons,Machine.outputs_nil,poolStep,poolInit,hm1,hm2,
      List.append_nil,List.singleton_append]
  · rw [pointer]
    omega

/-- At boot run_self_tests returns 0, whatever was in memory, and leaves the heap in one piece. -/
theorem boot_passes : ∃ h',
    runSelfTests arena environment context (initialHeap arena mem) request response=
      some (h',true) ∧
    State.freeBlocks ⟨h',[]⟩=some [arena.base] := by
  have hs : Stands arena (initial arena mem) (poolInit arena) := stands_initial arena mem
  obtain ⟨h',passed,b,p,q,htests,hb,hpq,hpassed,-,hblocks⟩ :=
    runSelfTests_spec environment context request response hs
  obtain ⟨b',p',q',hb',hb0,hpq',hp0,hq0⟩ := outputs_boot arena mem
  obtain rfl : b=b' := by simpa using hb.symm.trans hb'
  obtain ⟨rfl,rfl⟩ : p=p' ∧ q=q' := by simpa using hpq.symm.trans hpq'
  obtain rfl : passed=true := hpassed.mpr ⟨hb0,hp0,hq0⟩
  refine ⟨h',htests,?_⟩
  have hsame := hblocks.mpr (iff_of_false hp0 hq0)
  rw [hs.freeBlocks] at hsame
  exact hsame

end SelfTests

end Cllm.Unikernel
