import Cllm.Framework.FirstFit
import Cllm.Heap.Runs

namespace Cllm.Heap

open ByteMemory HeapState

/-- A free block does if it has the bytes that are asked for behind its header. It is cut behind
them when what would be left has room for a header and 24 bytes. -/
def cut (n : Nat) : Pool.Cut Nat := fun e =>
  if h : pointer e+alignSize n≤e.stop then
    if pointer e+alignSize n+headerSize+headerSize+8≤e.stop then
      some ⟨pointer e+alignSize n,by have := alignSize_pos n; rw [pointer]; omega,h⟩
    else some ⟨e.stop,e.proper,le_rfl⟩
  else none

/-- The block behind a pointer. -/
def held (P : Pool Nat) (p : Nat) : Option Block := P.live.find? fun e => pointer e=p

def poolMalloc (P : Pool Nat) (n : Nat) : Pool Nat × Nat :=
  if n=0 then (P,0)
  else
    match Pool.firstFit (cut n) P.free with
    | none => (P,0)
    | some (a,fs) => (⟨fs,a::P.live⟩,pointer a)

def poolFree (P : Pool Nat) (p : Nat) : Pool Nat :=
  match held P p with
  | none => P
  | some e => P.release e

/-- A block that is to be larger than it is goes where first fit puts it. -/
def poolMove (P : Pool Nat) (e : Block) (n : Nat) : Pool Nat × Nat :=
  match Pool.firstFit (cut n) P.free with
  | none => (P,0)
  | some (a,fs) => (Pool.release ⟨fs,a::P.live⟩ e,pointer a)

def poolRealloc (P : Pool Nat) (p n : Nat) : Pool Nat × Nat :=
  if p=0 then poolMalloc P n
  else if hn : n=0 then (poolFree P p,0)
  else
    match held P p with
    | none => (P,0)
    | some e =>
      if pointer e+n≤e.stop then (P.trim e (pointer e+n) (by rw [pointer]; omega),p)
      else poolMove P e n

/-- A call as first fit answers it. -/
def poolStep (P : Pool Nat) : Call → Pool Nat × List Outcome
  | .malloc n => ((poolMalloc P n).1,[.returned (poolMalloc P n).2])
  | .free p => (poolFree P p,[])
  | .realloc p n => ((poolRealloc P p n).1,[.returned (poolRealloc P p n).2])
  | .write _ _ => (P,[])

/-- The pool of a heap without clients. -/
def poolInit (arena : Arena) : Pool Nat := ⟨[wholeArena arena],[]⟩

section Cuts

variable {e : Block} {n x : Nat}

theorem cut_none : cut n e=none ↔ e.stop<pointer e+alignSize n := by
  rw [cut]
  split_ifs with hfit hlarge
  · simpa using hfit
  · simpa using hfit
  · simpa using hfit

theorem cut_some {hx : e.start<x ∧ x≤e.stop} (h : cut n e=some ⟨x,hx⟩) :
    pointer e+alignSize n≤e.stop ∧
      x=if pointer e+alignSize n+headerSize+headerSize+8≤e.stop then pointer e+alignSize n
        else e.stop := by
  rw [cut] at h
  split_ifs at h with hfit hlarge
  · simp only [Option.some.injEq,Subtype.mk.injEq] at h
    exact ⟨hfit,by rw [if_pos hlarge,h]⟩
  · simp only [Option.some.injEq,Subtype.mk.injEq] at h
    exact ⟨hfit,by rw [if_neg hlarge,h]⟩

end Cuts

section Code

variable {arena : Arena} {h h' : HeapState} {P : Pool Nat} {e : Block} {n size : Nat}

/-- The loop of malloc passes over the blocks that are too small. -/
theorem firstFit_first {pre post : List Block} {fuel prev p : Nat}
    (hc : Chain h p (pre++e::post) 0) (hf : pre.length<fuel) (hpos : ∀ f∈pre++e::post,f.start≠0)
    (hh : ∀ f∈pre++e::post,Header h f true) (hpre : ∀ f∈pre,h.size f.start<size)
    (hfit : size≤h.size e.start) :
    ∃ last,linkOf last=linkAfter (linkOf prev) pre ∧
      firstFit h size fuel prev p=some (some (last,e.start)) := by
  induction pre generalizing fuel prev p with
  | nil =>
    obtain ⟨fuel,rfl⟩ : ∃ k,fuel=k+1 := ⟨fuel-1,by simp at hf; omega⟩
    rw [List.nil_append,List.forall_mem_cons] at hpos hh
    obtain ⟨rfl,-⟩ := hc
    have hfree : h.isFree e.start≠0 := by
      rw [hh.1.flag]
      decide
    refine ⟨prev,rfl,?_⟩
    rw [firstFit,if_neg hpos.1,if_pos ⟨hfree,hfit⟩]
  | cons f fs ih =>
    obtain ⟨fuel,rfl⟩ : ∃ k,fuel=k+1 := ⟨fuel-1,by omega⟩
    rw [List.cons_append,List.forall_mem_cons] at hpos hh
    rw [List.forall_mem_cons] at hpre
    obtain ⟨rfl,hc⟩ := hc
    obtain ⟨last,hlast,hfirst⟩ :=
      @ih fuel f.start _ hc (by simpa using hf) hpos.2 hh.2 hpre.2
    refine ⟨last,?_,?_⟩
    · rw [hlast,linkAfter,linkOf,if_neg hpos.1]
    · rw [firstFit,if_neg hpos.1,if_neg fun hno => hno.2.not_gt hpre.1,hfirst]

/-- The size that split leaves in the block. -/
theorem split_size (hin : InArena arena e) (hes : e.start+headerSize+h.size e.start=e.stop)
    (hfit : size≤h.size e.start) (hs : split h e.start size=some h') :
    h'.size e.start=
      if size+headerSize+headerSize+8≤h.size e.start then size else h.size e.start := by
  have hlt := size_lt h e.start
  by_cases hlarge : size+headerSize+headerSize+8≤h.size e.start
  · rw [split_eq hin hes hlarge,Option.map_eq_some_iff] at hs
    obtain ⟨h1,-,rfl⟩ := hs
    rw [if_pos hlarge,size_setSize (by omega)]
  · rw [split_small hin hes hfit hlarge] at hs
    obtain rfl := Option.some.inj hs
    rw [if_neg hlarge]

/-- What malloc computes once its loop has found a block. -/
theorem malloc_found (hR : Represents arena h P) (hn : n≠0) {last current : Nat}
    (hloop : firstFit h (alignSize n) rounds 0 h.freeListHead=some (some (last,current))) :
    malloc arena h n=(split (unlink h last current) current (alignSize n)).map fun h =>
      (markUsed h current,wrap (current+headerSize)) := by
  have hinit : memoryInitHeap arena h=h := if_pos hR.initialized
  rw [malloc,if_neg hn,hinit]
  simp only [hloop]
  rfl

/-- The block that malloc returns is the one that first fit takes. -/
theorem malloc_takes {P' : Pool Nat} {a : Block} {fs : List Block} (hR : Represents arena h P)
    (hn : n≠0) (hfirst : Pool.firstFit (cut n) P.free=some (a,fs)) (he : e∈P'.live)
    (hR' : Represents arena h' P') (hm : malloc arena h n=some (h',pointer e)) : e=a := by
  obtain ⟨pre,f,post,x,hx,hfree,hpre,hf,rfl,-⟩ := Pool.firstFit_some hfirst
  obtain ⟨hfit,hstop⟩ := cut_some hf
  have hl := hR.freeList
  rw [hfree] at hl
  have hlen := hl.length_lt
  rw [List.length_append] at hlen
  have hsize {g : Block} (hg : g∈pre++f::post) := (hl.headers g hg).size
  have hfsize := hsize (g := f) (by simp)
  have hsmall (g : Block) (hg : g∈pre) : h.size g.start<alignSize n := by
    have hs := hsize (List.mem_append_left _ hg)
    have hc := cut_none.mp (hpre g hg)
    rw [pointer] at hc
    omega
  rw [pointer] at hfit hstop
  obtain ⟨last,hlast,hloop⟩ : ∃ last,linkOf last=linkAfter (linkOf 0) pre ∧
      firstFit h (alignSize n) rounds 0 h.freeListHead=some (some (last,f.start)) :=
    firstFit_first hl.linked (by omega) (fun g hg => (hl.inArena g hg).start_pos) hl.headers
      hsmall (by omega)
  -- what it computes with the block that it finds
  rw [malloc_found hR hn hloop,Option.map_eq_some_iff] at hm
  obtain ⟨h2,hsplit,heq⟩ := hm
  obtain ⟨rfl,hptr⟩ := Prod.mk.inj heq
  obtain ⟨-,hf1,-⟩ := hl.unlink hlast
  have hf1size := hf1.size
  have hin := hl.inArena f (by simp)
  have hsz := split_size hin hf1size (by omega) hsplit
  have hroom : f.start+headerSize<f.stop := hin.roomy
  have hstart : e.start=f.start := by
    have hw : wrap (f.start+headerSize)=f.start+headerSize :=
      wrap_of_lt (by have := hin.stop_lt; omega)
    rw [hw,pointer] at hptr
    omega
  have hesize := (hR'.headers e he).size
  rw [hstart,markUsed,size_setNext,size_setIsFree,hsz] at hesize
  refine Extent.ext hstart ?_
  show e.stop=x
  split_ifs at hesize hstop <;> omega

/-- malloc is first fit. -/
theorem malloc_firstFit (hR : Represents arena h P) (hn : n≠0) :
    Pool.firstFit (cut n) P.free=none ∧ malloc arena h n=some (h,0) ∨
      ∃ a fs h',Pool.firstFit (cut n) P.free=some (a,fs) ∧
        malloc arena h n=some (h',pointer a) ∧ Represents arena h' ⟨fs,a::P.live⟩ ∧
        pointer a+alignSize n≤a.stop := by
  rcases malloc_spec hR hn with ⟨hm,hfull⟩|⟨h',e,P',hm,htakes,hR',-,hroom⟩
  · refine .inl ⟨Pool.firstFit_none.mpr fun e he => cut_none.mpr ?_,hm⟩
    exact hfull e he
  · right
    cases hfirst : Pool.firstFit (cut n) P.free with
    | none =>
      -- the block that is taken is in one that does
      obtain ⟨f,hf,hstart,hstop⟩ := takes_from htakes
      have hno := cut_none.mp (Pool.firstFit_none.mp hfirst f hf)
      rw [pointer] at hno
      omega
    | some taken =>
      obtain ⟨a,fs⟩ := taken
      have he : e∈P'.live := by
        rw [htakes.mem]
        exact .head _
      obtain rfl := malloc_takes hR hn hfirst he hR' hm
      have htakes' : P.Takes e ⟨fs,e::P.live⟩ := Pool.firstFit_takes hfirst
      obtain rfl := htakes.unique htakes' hR.sound
      exact ⟨e,fs,h',rfl,hm,hR',hroom⟩

end Code

section Steps

variable {arena : Arena} {s : State} {P : Pool Nat} {e : Block} {n : Nat}

theorem held_pointer (hP : P.Sound) (he : e∈P.live) : held P (pointer e)=some e := by
  have hsome : (held P (pointer e)).isSome := by
    rw [held,List.find?_isSome]
    exact ⟨e,he,by simp⟩
  obtain ⟨f,hf⟩ := Option.isSome_iff_exists.mp hsome
  have hfe : pointer f=pointer e := by simpa using List.find?_some hf
  rw [hf,Pool.start_inj hP.live_apart he (List.mem_of_find?_eq_some hf)
    (Nat.add_right_cancel hfe)]

theorem held_none (hs : Stands arena s P) : held P 0=none := by
  rw [held,List.find?_eq_none]
  intro e he
  simpa using pointer_ne_zero hs he

theorem poolFree_held (hP : P.Sound) (he : e∈P.live) : poolFree P (pointer e)=P.release e := by
  rw [poolFree,held_pointer hP he]

theorem refines_malloc (hs : Stands arena s P) (n : Nat) :
    (step arena s (.malloc n)).2=(poolStep P (.malloc n)).2 ∧
      Stands arena (step arena s (.malloc n)).1 (poolStep P (.malloc n)).1 := by
  rw [step,poolStep,poolMalloc]
  by_cases hn : n=0
  · subst hn
    exact ⟨rfl,hs⟩
  · rw [if_neg hn]
    rcases malloc_firstFit hs.heap hn with ⟨hfirst,hm⟩|⟨a,fs,h',hfirst,hm,hR',-⟩
    · rw [hfirst,hm]
      exact ⟨rfl,hs⟩
    · have hptr : obtain s.live (pointer a)=pointer a::s.live :=
        if_neg (pointer_block (hR'.inArena a (.head _))).1
      rw [hfirst,hm]
      refine ⟨rfl,hR',?_⟩
      show obtain s.live (pointer a)=_
      rw [hptr,hs.live]
      rfl

theorem refines_free (hs : Stands arena s P) {p : Nat} (hv : Valid s (.free p)) :
    (step arena s (.free p)).2=(poolStep P (.free p)).2 ∧
      Stands arena (step arena s (.free p)).1 (poolStep P (.free p)).1 := by
  rcases hv with rfl|hp
  · have hfree : free s.heap 0=some s.heap := if_pos rfl
    have hdrop : s.drop 0=s.live := by
      refine List.filter_eq_self.mpr fun p hp => ?_
      simpa using hs.live_ne_zero hp
    rw [step,hfree,poolStep,poolFree,held_none hs]
    refine ⟨rfl,hs.heap,?_⟩
    show s.drop 0=_
    rw [hdrop,hs.live]
  · obtain ⟨e,he,rfl⟩ := hs.mem_live.mp hp
    obtain ⟨h',hfree,hs',-⟩ := serves_free hs he
    rw [step,hfree,poolStep,poolFree_held hs.heap.sound he]
    exact ⟨rfl,hs'⟩

theorem start_lt_pointer (e : Block) (hn : 0 < n) : e.start < pointer e+n := by
  rw [pointer]
  omega

theorem refines_shrink (hs : Stands arena s P) (he : e∈P.live) (hn : 0<n)
    (hle : pointer e+n≤e.stop) :
    (step arena s (.realloc (pointer e) n)).2=[.returned (pointer e)] ∧
      Stands arena (step arena s (.realloc (pointer e) n)).1
        (P.trim e (pointer e+n) (start_lt_pointer e hn)) := by
  have hsize := hs.pointer_size he
  rw [header_pointer] at hsize
  obtain ⟨hR,-⟩ := shrink_spec hs.heap he hn hle
  have hre : realloc arena s.heap (pointer e) n=some (s.heap.setSize e.start n,pointer e) := by
    rw [realloc_eq (hs.heap.inArena e he) s.heap hn.ne',if_pos (by omega)]
  have hstep : step arena s (.realloc (pointer e) n)=
      (⟨s.heap.setSize e.start n,s.live⟩,[.returned (pointer e)]) := by
    rw [step,hre]
    simp only [if_neg (pointer_ne_zero hs he),if_neg hn.ne',or_true,if_true]
  rw [hstep]
  refine ⟨rfl,hR,?_⟩
  rw [hs.live,Pool.trim,List.map_map]
  refine List.map_congr_left fun f _ => ?_
  simp only [Function.comp]
  split_ifs with hfe
  · simp only [pointer,hfe]
  · rfl

theorem refines_move (hs : Stands arena s P) (he : e∈P.live) (hn : 0<n) (hm : n≤2^32-8)
    (hlt : e.stop<pointer e+n) :
    (step arena s (.realloc (pointer e) n)).2=[.returned (poolMove P e n).2] ∧
      Stands arena (step arena s (.realloc (pointer e) n)).1 (poolMove P e n).1 := by
  have hin := hs.heap.inArena e he
  have hsize := hs.pointer_size he
  rw [header_pointer] at hsize
  have hp0 := pointer_ne_zero hs he
  have hre := realloc_eq hin s.heap hn.ne'
  rw [if_neg (by omega)] at hre
  rw [poolMove]
  rcases malloc_firstFit hs.heap hn.ne' with ⟨hfirst,hmal⟩|⟨a,fs,h1,hfirst,hmal,hR1,hroom⟩
  · have hstep : step arena s (.realloc (pointer e) n)=(s,[.returned 0]) := by
      rw [step,hre,hmal]
      simp [hp0,hn.ne']
    rw [hstep,hfirst]
    exact ⟨rfl,hs⟩
  · have hle := le_alignSize hm
    have he1 : e∈(⟨fs,a::P.live⟩ : Pool Nat).live := .tail _ he
    have ha1 : a∈(⟨fs,a::P.live⟩ : Pool Nat).live := .head _
    have hae : Extent.Apart a e := (List.pairwise_cons.mp hR1.sound.live_apart).1 e he
    have hpa : pointer a≠0 := (pointer_block (hR1.inArena a ha1)).1
    have hpae : pointer a≠pointer e := fun hno => hae.start_ne (Nat.add_right_cancel hno)
    -- the bytes are copied before the old block goes
    have hw : Within h1 {h1 with
        mem := copyBytes h1.mem (pointer a) (pointer e) (s.heap.size e.start)} (payload a) :=
      within_copyBytes le_rfl (by rw [pointer] at *; omega)
    have hR2 := hR1.write ha1 hw rfl
    obtain ⟨h3,hfree,hR3,-⟩ := free_spec hR2 he1
    have hr : realloc arena s.heap (pointer e) n=some (h3,pointer a) :=
      realloc_moves hin hn.ne' (by omega) hmal hpa hfree
    have hstep : step arena s (.realloc (pointer e) n)=
        (⟨h3,pointer a::s.drop (pointer e)⟩,[.returned (pointer a)]) := by
      rw [step,hr]
      simp only [if_neg hp0,if_neg hn.ne',or_self,hpa,hpae,if_false]
    rw [hstep,hfirst]
    refine ⟨rfl,hR3,?_⟩
    show pointer a::s.drop (pointer e)=((a::P.live).filter fun f => f.start≠e.start).map pointer
    rw [hs.drop,List.filter_cons_of_pos]
    · rfl
    · simpa using hae.start_ne

/-- What the code does with a call, first fit does. -/
theorem refines_step (hs : Stands arena s P) {c : Call} (hc : Regular s c) :
    (step arena s c).2=(poolStep P c).2 ∧ Stands arena (step arena s c).1 (poolStep P c).1 := by
  cases c with
  | malloc n => exact refines_malloc hs n
  | free p => exact refines_free hs hc.1
  | realloc p n =>
    rcases hc.1 with rfl|hp
    · rw [step_realloc_null]
      exact refines_malloc hs n
    · obtain ⟨e,he,rfl⟩ := hs.mem_live.mp hp
      have hp0 := pointer_ne_zero hs he
      rw [poolStep,poolRealloc,if_neg hp0]
      by_cases hn : n=0
      · subst hn
        obtain ⟨h',hfree,hs',-⟩ := serves_free hs he
        have hre : realloc arena s.heap (pointer e) 0=some (h',0) := by
          rw [realloc,if_neg hp0,if_pos rfl]
          simp only [pointer] at hfree ⊢
          rw [hfree,Option.map_some]
        rw [dif_pos rfl,poolFree_held hs.heap.sound he,step,hre]
        simpa [hp0] using hs'
      · rw [dif_neg hn,held_pointer hs.heap.sound he]
        by_cases hle : pointer e+n≤e.stop
        · simp only [if_pos hle]
          exact refines_shrink hs he (Nat.pos_of_ne_zero hn) hle
        · simp only [if_neg hle]
          exact refines_move hs he (Nat.pos_of_ne_zero hn) hc.2 (not_le.mp hle)
  | write address byte =>
    obtain ⟨P',hserved,hs'⟩ := (Regular.sizable hc).served hs
    generalize hstep : step arena s (.write address byte)=r at hserved hs' ⊢
    obtain ⟨s',outs⟩ := r
    cases hserved with
    | nothing hr => rcases hr with h|h <;> cases h
    | exhausted hr => rcases hr with h|h <;> cases h
    | allocated hr => rcases hr with h|h <;> cases h
    | freed hr => rcases hr with ⟨h,-⟩|⟨h,-⟩ <;> cases h
    | written he ha => exact ⟨rfl,hs'⟩

end Steps

end Cllm.Heap
