import Cllm.Framework.Pool
import Cllm.Heap.Walk

namespace Cllm.Heap

open ByteMemory HeapState

/-- The free list in memory, as a list. -/
structure FreeList (arena : Arena) (h : HeapState) (es : List Block) : Prop where
  linked : Chain h h.freeListHead es 0
  headers : ∀ e∈es,Header h e true
  inArena : ∀ e∈es,InArena arena e
  separated : es.Pairwise Extent.Before

/-- The heap in memory stands for a pool: its free list and the blocks of the clients. -/
structure Represents (arena : Arena) (h : HeapState) (P : Pool Nat) : Prop where
  initialized : h.heapInitialized=true
  freeList : FreeList arena h P.free
  headers : ∀ e∈P.live,Header h e false
  inArena : ∀ e∈P.live,InArena arena e
  sound : P.Sound

theorem alignSize_cases (n : Nat) :
    wrap (n+7)/8*8=0 ∧ alignSize n=8 ∨ wrap (n+7)/8*8≠0 ∧ alignSize n=wrap (n+7)/8*8 := by
  by_cases h : wrap (n+7)/8*8=0
  · exact .inl ⟨h,if_pos h⟩
  · exact .inr ⟨h,if_neg h⟩

theorem alignSize_dvd (n : Nat) : 8∣alignSize n := by
  rcases alignSize_cases n with ⟨-,h⟩|⟨-,h⟩
  · rw [h]
  · rw [h]
    exact Nat.dvd_mul_left 8 _

theorem alignSize_pos (n : Nat) : 8≤alignSize n := by
  rcases alignSize_cases n with ⟨-,h⟩|⟨hne,h⟩
  · rw [h]
  · rw [h]
    omega

theorem le_alignSize {n : Nat} (h : n≤2^32-8) : n≤alignSize n := by
  have hw : wrap (n+7)=n+7 := wrap_of_lt (by omega)
  rcases alignSize_cases n with ⟨hz,he⟩|⟨-,he⟩
  · rw [he]
    omega
  · rw [he,hw]
    omega

/-- Blocks in a row need room for each. -/
theorem length_le_of_upto {es : List Block} (hs : es.Pairwise Extent.Upto) {low high : Nat}
    (hb : ∀ e∈es,low≤e.start ∧ e.stop≤high) : es.length≤high-low := by
  induction es generalizing low with
  | nil => exact Nat.zero_le _
  | cons e es ih =>
    rw [List.pairwise_cons] at hs
    rw [List.forall_mem_cons] at hb
    have hrest := ih hs.2 fun f hf => ⟨hs.1 f hf,(hb.2 f hf).2⟩
    have hp := e.proper
    rw [List.length_cons]
    omega

theorem length_lt_rounds {arena : Arena} {es : List Block} (hs : es.Pairwise Extent.Upto)
    (hin : ∀ e∈es,InArena arena e) : es.length<rounds := by
  cases es with
  | nil => decide
  | cons e es =>
    rw [List.pairwise_cons] at hs
    rw [List.forall_mem_cons] at hin
    have hrest := length_le_of_upto hs.2 fun f hf => ⟨hs.1 f hf,(hin.2 f hf).high⟩
    have hlow := hin.1.low
    have hhigh := hin.1.high
    have hroom : e.start+16<e.stop := hin.1.roomy
    have hr : rounds=4194304 := rfl
    have hsz : heapSize=4194304 := rfl
    rw [List.length_cons]
    omega

section FreeLists

variable {arena : Arena} {h h' : HeapState} {es : List Block}

theorem FreeList.frame {S : Set Nat} (hl : FreeList arena h es) (hw : Within h h' S)
    (hh : h'.freeListHead=h.freeListHead) (hd : ∀ e∈es,Disjoint e.range S) :
    FreeList arena h' es :=
  ⟨hh.symm ▸ hl.linked.frame hw (fun e he => (hl.inArena e he).roomy) hd,
    fun e he => (hl.headers e he).frame hw (hl.inArena e he).roomy (hd e he),
    hl.inArena,hl.separated⟩

theorem FreeList.length_lt (hl : FreeList arena h es) : es.length<rounds :=
  length_lt_rounds (hl.separated.imp le_of_lt) hl.inArena

/-- Redirecting the link in front of a block takes it out of the list. -/
theorem FreeList.unlink {pre post : List Block} {e : Block} {prev : Nat}
    (hl : FreeList arena h (pre++e::post)) (hprev : linkOf prev=linkAfter .head pre) :
    FreeList arena (unlink h prev e.start) (pre++post) ∧
      Header (Heap.unlink h prev e.start) e true ∧
      Within h (Heap.unlink h prev e.start) (Extent.covered pre) := by
  have hroomy (f : Block) (hf : f∈pre++e::post) : Roomy f := (hl.inArena f hf).roomy
  have hpre (f : Block) (hf : f∈pre) : f∈pre++e::post := List.mem_append_left _ hf
  have hpost (f : Block) (hf : f∈post) : f∈pre++e::post := List.mem_append_right _ (.tail _ hf)
  obtain ⟨hs1,hs2,hcross⟩ := List.pairwise_append.mp (hl.separated.imp Extent.Before.apart)
  obtain ⟨r,hc1,rfl,hc2⟩ := chain_append.mp hl.linked
  have hcell : (linkAfter .head pre).cell⊆Extent.covered pre := by
    have hsub := @linkAfter_cell .head pre fun f hf => hroomy f (hpre f hf)
    rwa [Link.cell,Set.empty_union] at hsub
  have hw : Within h (Heap.unlink h prev e.start) (Extent.covered pre) := by
    rw [unlink_eq,hprev]
    exact (within_store h _ _).mono hcell
  have hbehind (f : Block) (hf : f∈e::post) : Disjoint f.range (Extent.covered pre) :=
    Extent.forall_apart_iff.mp fun g hg => (hcross g hg f hf).symm
  have hkept (f : Block) (hf : f∈pre++e::post) : Header (Heap.unlink h prev e.start) f true := by
    rw [unlink_eq,hprev]
    refine (hl.headers f hf).store (hroomy f hf) _ _ ?_
    rcases linkAfter_mem .head pre with hlink|⟨g,hg,hlink⟩
    · rw [hlink]
      exact .inr disjoint_bot_right
    · rw [hlink]
      rcases Extent.separated_mem hl.separated hf (hpre g hg) with rfl|hb|hb
      · exact .inl rfl
      · exact .inr ((Extent.apart_iff_disjoint.mp hb.apart).mono_right
          (hroomy g (hpre g hg)).header)
      · exact .inr ((Extent.apart_iff_disjoint.mp hb.apart.symm).mono_right
          (hroomy g (hpre g hg)).header)
  have hsub (f : Block) (hf : f∈pre++post) : f∈pre++e::post := by
    rcases List.mem_append.mp hf with hf|hf
    · exact hpre f hf
    · exact hpost f hf
  refine ⟨⟨?_,fun f hf => hkept f (hsub f hf),fun f hf => hl.inArena f (hsub f hf),?_⟩,
    hkept e (by simp),hw⟩
  · rw [chain_append]
    refine ⟨h.next e.start,?_,?_⟩
    · rw [unlink_eq,hprev]
      exact Chain.store .head hc1 (next_lt h _) (fun f hf => hroomy f (hpre f hf)) hs1
        disjoint_bot_left
    · exact hc2.frame hw (fun f hf => hroomy f (hpost f hf)) fun f hf => hbehind f (.tail _ hf)
  · exact hl.separated.sublist (List.Sublist.append_left (List.sublist_cons_self e post) pre)

end FreeLists

section Malloc

variable {arena : Arena} {h h' : HeapState} {pre post : List Block} {e : Block} {size : Nat}

/-- What is behind the front of a block is a block of its own. -/
theorem InArena.rest (hin : InArena arena e) (hd : 8∣size)
    (hfit : e.start+headerSize+size+headerSize<e.stop) :
    ∃ front rest : Block,∃ hj : front.stop=rest.start,e=front.join rest hj ∧
      front.stop=e.start+headerSize+size ∧ InArena arena rest ∧
      (0<size → InArena arena front) := by
  have hsize := headerSize_eq
  refine ⟨⟨e.start,e.start+headerSize+size,by omega⟩,⟨e.start+headerSize+size,e.stop,by omega⟩,
    rfl,rfl,rfl,⟨?_,hin.high,?_,hfit⟩,fun hpos => ⟨hin.low,?_,hin.aligned,?_⟩⟩
  · have hl := hin.low
    show arena.base≤e.start+headerSize+size
    omega
  · have hl := hin.low
    have ha := hin.aligned
    show 8∣e.start+headerSize+size-arena.base
    omega
  · have hh := hin.high
    show e.start+headerSize+size≤_
    omega
  · show e.start+headerSize<e.start+headerSize+size
    omega

/-- The blocks in front of a block and behind it do not meet it. -/
theorem disjoint_of_before (hpre : ∀ f∈pre,Extent.Before f e) (hpost : ∀ f∈post,Extent.Before e f)
    {f : Block} (hf : f∈pre++post) : Disjoint f.range e.range := by
  rcases List.mem_append.mp hf with hf|hf
  · exact Extent.apart_iff_disjoint.mp (hpre f hf).apart
  · exact (Extent.apart_iff_disjoint.mp (hpost f hf).apart).symm

/-- The header split writes for what is left over. -/
def writeRest (h : HeapState) (rest v : Nat) : HeapState :=
  ((h.setSize rest v).setIsFree rest 1).setNext rest 0

theorem within_writeRest {rest : Block} (hr : Roomy rest) (v : Nat) :
    Within h (writeRest h rest.start v) rest.range :=
  ((within_setSize hr.header).trans (within_setIsFree hr.header)).trans (within_setNext hr.header)

theorem header_writeRest {rest : Block} {v : Nat} (hv : v<2^32)
    (hstop : rest.start+headerSize+v=rest.stop) :
    Header (writeRest h rest.start v) rest true := by
  refine ⟨?_,?_⟩
  · rw [writeRest,size_setNext,size_setIsFree,size_setSize hv]
    exact hstop
  · rw [writeRest,isFree_setNext]
    exact isFree_setIsFree (by decide)

section Parts

variable {front rest : Block} {hj : front.stop=rest.start}

/-- What is left over takes the place of the block in the list. -/
theorem place_rest (hpre : ∀ f∈pre,Extent.Before f (front.join rest hj))
    (hpost : ∀ f∈post,Extent.Before (front.join rest hj) f)
    (hsep : (pre++post).Pairwise Extent.Before) :
    Extent.place rest (pre++post)=pre++rest::post ∧ (pre++rest::post).Pairwise Extent.Before := by
  have hfront := front.proper
  have hrest := rest.proper
  have hbefore (f : Block) (hf : f∈pre) : f.stop<rest.start := by
    have hb : f.stop<front.start := hpre f hf
    omega
  have hbehind (f : Block) (hf : f∈post) : rest.stop<f.start := hpost f hf
  obtain ⟨hs1,hs2,hs12⟩ := List.pairwise_append.mp hsep
  constructor
  · refine Extent.place_append (fun f hf => ?_) fun f hf => ?_
    · have hb := hbefore f hf
      have hp := f.proper
      omega
    · have hb := hbehind f hf
      omega
  · refine List.pairwise_append.mpr ⟨hs1,List.pairwise_cons.mpr ⟨hpost,hs2⟩,?_⟩
    intro f hf g hg
    rcases List.mem_cons.mp hg with rfl|hg
    · exact hbefore f hf
    · exact hs12 f hf g hg

/-- insert_free puts it there. -/
theorem FreeList.insert_rest (hl : FreeList arena h (pre++post)) (hrest : InArena arena rest)
    (hh : Header h rest true) (hdisj : ∀ f∈pre++post,Disjoint f.range rest.range)
    (hpre : ∀ f∈pre,Extent.Before f (front.join rest hj))
    (hpost : ∀ f∈post,Extent.Before (front.join rest hj) f) :
    ∃ h',insertFree h rest.start=some h' ∧ FreeList arena h' (pre++rest::post) ∧
      Within h h' (Extent.covered (rest::(pre++post))) := by
  obtain ⟨hplace,hsep⟩ := place_rest hpre hpost hl.separated
  have hin := List.forall_mem_cons.mpr ⟨hrest,hl.inArena⟩
  obtain ⟨h',he,hc,hheaders,hw⟩ := insertFree_spec rest hl.linked hin hl.separated
    (fun f hf => Extent.apart_iff_disjoint.mpr (hdisj f hf).symm) hl.length_lt
    (List.forall_mem_cons.mpr ⟨hh,hl.headers⟩)
  rw [hplace] at hc
  have hmem {f : Block} (hf : f∈pre++rest::post) : f∈rest::(pre++post) := by
    simpa [or_left_comm] using hf
  exact ⟨h',he,⟨hc,fun f hf => hheaders f (hmem hf),fun f hf => hin f (hmem hf),hsep⟩,hw⟩

end Parts

/-- For a size within a block the sums of split do not wrap. -/
theorem split_sums (hin : InArena arena e) (hes : e.start+headerSize+h.size e.start=e.stop)
    (hfit : size≤h.size e.start) :
    wrap (size+headerSize)=size+headerSize ∧
      wrap (size+headerSize+headerSize)=size+headerSize+headerSize ∧
      wrap (size+headerSize+headerSize+8)=size+headerSize+headerSize+8 := by
  have hsize := headerSize_eq
  have hlow := hin.low
  have hhigh := hin.high
  have harena := arena.fits
  have hheap : heapSize=4194304 := rfl
  refine ⟨wrap_of_lt ?_,wrap_of_lt ?_,wrap_of_lt ?_⟩ <;> omega

/-- What split computes when it cuts a block. -/
theorem split_eq (hin : InArena arena e) (hes : e.start+headerSize+h.size e.start=e.stop)
    (hlarge : size+headerSize+headerSize+8 ≤ h.size e.start) :
    split h e.start size=
      (insertFree (writeRest h (e.start+headerSize+size) (h.size e.start-(size+headerSize)))
        (e.start+headerSize+size)).map fun h => h.setSize e.start size := by
  have hlt := hin.stop_lt
  have hfit : size≤h.size e.start := by omega
  obtain ⟨htotal,hmore,htest⟩ := split_sums hin hes hfit
  have hblock : wrap (e.start+(size+headerSize))=e.start+headerSize+size := by
    rw [wrap_of_lt (by omega)]
    omega
  have hleft : wrapSub (h.size e.start) (size+headerSize)=h.size e.start-(size+headerSize) :=
    wrapSub_of_le (by omega) (size_lt h _)
  simp only [split,htotal,hmore,htest,if_pos hlarge,hblock,hleft]
  rfl

theorem split_small (hin : InArena arena e) (hes : e.start+headerSize+h.size e.start=e.stop)
    (hfit : size≤h.size e.start) (hsmall : ¬size+headerSize+headerSize+8 ≤ h.size e.start) :
    split h e.start size=some h := by
  obtain ⟨htotal,hmore,htest⟩ := split_sums hin hes hfit
  simp only [split,htotal,hmore,htest]
  exact if_neg hsmall

/-- Splitting leaves a block that is large enough, and what remains of a larger one is free. -/
theorem split_spec (hl : FreeList arena h (pre++post)) (hin : InArena arena e)
    (hh : Header h e true) (hpre : ∀ f∈pre,Extent.Before f e) (hpost : ∀ f∈post,Extent.Before e f)
    (hd : 8∣size) (hpos : 8 ≤ size) (hfit : size≤h.size e.start) :
    ∃ h' a fs,split h e.start size=some h' ∧ a.start=e.start ∧ e.start+headerSize+size≤a.stop ∧
      InArena arena a ∧ Header h' a true ∧ FreeList arena h' fs ∧
      (∀ live,Pool.Takes ⟨pre++e::post,live⟩ a ⟨fs,a::live⟩) ∧
      (∀ f∈fs,Disjoint f.range a.range) ∧
      Within h h' (Extent.covered (pre++e::post)) := by
  have hsize := headerSize_eq
  have hes := hh.size
  have hdisj (f : Block) (hf : f∈pre++post) : Disjoint f.range e.range :=
    disjoint_of_before hpre hpost hf
  by_cases hlarge : size+headerSize+headerSize+8 ≤ h.size e.start
  · rw [split_eq hin hes hlarge]
    obtain ⟨front,rest,hj,rfl,hstop,hrest,hfront⟩ := hin.rest hd (by omega)
    have hrange := Extent.range_join hj
    have hfr : Disjoint front.range rest.range :=
      Extent.apart_iff_disjoint.mp (.inl hj.le)
    have hfrest (f : Block) (hf : f∈pre++post) : Disjoint f.range rest.range :=
      (hdisj f hf).mono_right (hrange ▸ Set.subset_union_right)
    have hffront (f : Block) (hf : f∈pre++post) : Disjoint f.range front.range :=
      (hdisj f hf).mono_right (hrange ▸ Set.subset_union_left)
    have hfrontIn := hfront (by omega)
    have hes' : front.start+headerSize+h.size front.start=rest.stop := hes
    have hstart : (front.join rest hj).start=front.start := rfl
    rw [hstart] at hstop hlarge ⊢
    rw [← hstop,hj]
    have hleft := size_lt h front.start
    -- the header of the remainder, and its place in the list
    have hw1 := within_writeRest (h := h) hrest.roomy (h.size front.start-(size+headerSize))
    have hrh : Header (writeRest h rest.start (h.size front.start-(size+headerSize))) rest true :=
      header_writeRest (by omega) (by omega)
    obtain ⟨h2,he2,hl2,hw2⟩ :=
      (hl.frame hw1 rfl hfrest).insert_rest hrest hrh hfrest hpre hpost
    -- the size of the front
    let h3 := h2.setSize front.start size
    have hw3 : Within h2 h3 front.range := within_setSize hfrontIn.roomy.header
    have hfrontDisj : Disjoint front.range (Extent.covered (rest::(pre++post))) := by
      rw [Extent.covered_cons,Set.disjoint_union_right]
      refine ⟨hfr,Extent.forall_apart_iff.mp fun f hf => ?_⟩
      exact Extent.apart_iff_disjoint.mpr (hffront f hf).symm
    have hdisj3 (f : Block) (hf : f∈pre++rest::post) : Disjoint f.range front.range := by
      have hmem : f=rest ∨ f∈pre++post := by simpa [or_left_comm] using hf
      rcases hmem with rfl|hf
      · exact hfr.symm
      · exact hffront f hf
    refine ⟨h3,front,pre++rest::post,?_,rfl,hj ▸ le_rfl,hfrontIn,⟨?_,?_⟩,
      hl2.frame hw3 rfl hdisj3,fun live => .part pre front rest hj post live,hdisj3,?_⟩
    · rw [he2,Option.map_some]
    · rw [size_setSize (by omega)]
      exact hstop.symm
    · rw [isFree_setSize,(hw2.fields (hfrontDisj.mono_left hfrontIn.roomy.header)).2.1,
        (hw1.fields (hfr.mono_left hfrontIn.roomy.header)).2.1]
      exact hh.flag
    · rw [Extent.covered_append,Extent.covered_cons,hrange]
      rw [Extent.covered_cons,Extent.covered_append] at hw2
      refine (hw1.mono ?_).trans ((hw2.mono ?_).trans (hw3.mono ?_))
      · exact fun x hx => .inr (.inl (.inr hx))
      · rintro x (hx|hx|hx)
        · exact .inr (.inl (.inr hx))
        · exact .inl hx
        · exact .inr (.inr hx)
      · exact fun x hx => .inr (.inl (.inl hx))
  · rw [split_small hin hes hfit hlarge]
    exact ⟨h,e,pre++post,rfl,rfl,by omega,hin,hh,hl,fun live => .whole pre e post live,hdisj,
      within_refl⟩

/-- The marks malloc leaves in the block that it returns. -/
def markUsed (h : HeapState) (current : Nat) : HeapState :=
  (h.setIsFree current 0).setNext current 0

theorem header_markUsed (hh : Header h e true) : Header (markUsed h e.start) e false :=
  ⟨by rw [markUsed,size_setNext,size_setIsFree]; exact hh.size,by
    rw [markUsed,isFree_setNext]
    exact isFree_setIsFree (by decide)⟩

theorem within_markUsed (hr : Roomy e) : Within h (markUsed h e.start) e.range :=
  (within_setIsFree hr.header).trans (within_setNext hr.header)

variable {P : Pool Nat}

theorem Represents.free_disjoint_live (hR : Represents arena h P) {f : Block} (hf : f∈P.live) :
    Disjoint f.range (Extent.covered P.free) :=
  Extent.forall_apart_iff.mp fun _ hg => (hR.sound.free_live hg hf).symm

/-- malloc takes a block that is large enough out of the pool, or changes nothing when there is
none; it writes to nothing but free blocks. -/
theorem malloc_spec (hR : Represents arena h P) {n : Nat} (hn : n≠0) :
    malloc arena h n=some (h,0) ∧ (∀ e∈P.free,e.stop<e.start+headerSize+alignSize n) ∨
    ∃ h' e P',malloc arena h n=some (h',e.start+headerSize) ∧ P.Takes e P' ∧
      Represents arena h' P' ∧ Within h h' (Extent.covered P.free) ∧
      e.start+headerSize+alignSize n≤e.stop := by
  obtain ⟨free,live⟩ := P
  have hl : FreeList arena h free := hR.freeList
  have hinit : memoryInitHeap arena h=h := if_pos hR.initialized
  rcases @firstFit_spec h free (alignSize n) rounds 0 _ hl.linked hl.length_lt
      (fun e he => (hl.inArena e he).start_pos) hl.headers with
    ⟨hnone,hall⟩|⟨pre,e,post,last,rfl,hfit,hlast,hsome⟩
  · left
    refine ⟨?_,fun e he => ?_⟩
    · rw [malloc,if_neg hn,hinit]
      simp only [hnone]
    · have hs := (hl.headers e he).size
      have hlt := hall e he
      omega
  · right
    obtain ⟨-,hbehind,hcross⟩ := List.pairwise_append.mp hl.separated
    have hpost := (List.pairwise_cons.mp hbehind).1
    have hin := hl.inArena e (by simp)
    obtain ⟨hl1,he1,hw1⟩ := hl.unlink hlast
    have hfit1 : alignSize n≤(unlink h last e.start).size e.start := by
      have hs := (hl.headers e (by simp)).size
      have hs1 := he1.size
      omega
    obtain ⟨h2,a,fs,hsplit,hstart,hroom,ha,hh2,hl2,htakes,hdisj,hw2⟩ := split_spec hl1 hin he1
      (fun f hf => hcross f hf e (.head _)) hpost (alignSize_dvd n) (alignSize_pos n) hfit1
    have hw3 := @within_markUsed h2 a ha.roomy
    have hsub : a.range⊆Extent.covered (pre++e::post) := by
      have hc := (htakes []).covered_all
      intro x hx
      have hx' : x∈Extent.covered (Pool.all ⟨fs,[a]⟩) := ⟨a,by simp [Pool.all],hx⟩
      rw [hc] at hx'
      simpa [Pool.all] using hx'
    have hw : Within h (markUsed h2 a.start) (Extent.covered (pre++e::post)) :=
      (hw1.mono (by rw [Extent.covered_append]; exact Set.subset_union_left)).trans
        (hw2.trans (hw3.mono hsub))
    refine ⟨markUsed h2 a.start,a,⟨fs,a::live⟩,?_,htakes live,⟨?_,?_,?_,?_,?_⟩,hw,?_⟩
    · have hlt := ha.stop_lt
      have hr : a.start+headerSize<a.stop := ha.roomy
      have hptr : wrap (e.start+headerSize)=e.start+headerSize := wrap_of_lt (by omega)
      rw [malloc,if_neg hn,hinit]
      simp only [hsome,hsplit,Option.map_some,hstart,hptr,markUsed]
    · rw [hw.initialized]
      exact hR.initialized
    · exact hl2.frame hw3 rfl hdisj
    · rw [List.forall_mem_cons]
      refine ⟨header_markUsed hh2,fun f hf => ?_⟩
      exact (hR.headers f hf).frame hw (hR.inArena f hf).roomy (hR.free_disjoint_live hf)
    · exact List.forall_mem_cons.mpr ⟨ha,hR.inArena⟩
    · exact (htakes live).sound hR.sound
    · rw [hstart]
      exact hroom

end Malloc

section Free

variable {arena : Arena} {h : HeapState} {P : Pool Nat} {e : Block}

theorem pointer_block (hin : InArena arena e) :
    e.start+headerSize≠0 ∧ wrapSub (e.start+headerSize) headerSize=e.start := by
  have hr : e.start+headerSize<e.stop := hin.roomy
  have hlt := hin.stop_lt
  have hpos := hin.start_pos
  refine ⟨by omega,?_⟩
  rw [wrapSub_of_le (Nat.le_add_left _ _) (by omega),Nat.add_sub_cancel]

theorem InArena.coalesce {es : List Block} (hin : ∀ f∈es,InArena arena f)
    (he : e∈Extent.coalesce es) : InArena arena e := by
  obtain ⟨⟨f,hf,hstart,hlong⟩,⟨g,hg,hstop⟩⟩ := Extent.mem_coalesce he
  have hroom : f.start+headerSize<f.stop := (hin f hf).roomy
  refine ⟨hstart ▸ (hin f hf).low,hstop ▸ (hin g hg).high,hstart ▸ (hin f hf).aligned,?_⟩
  show e.start+headerSize<e.stop
  omega

/-- The marks that free puts on a block. -/
def markFree (h : HeapState) (block : Nat) : HeapState := (h.setIsFree block 1).setNext block 0

theorem within_markFree (hr : Roomy e) : Within h (markFree h e.start) e.range :=
  (within_setIsFree hr.header).trans (within_setNext hr.header)

/-- The header of the block is then that of a free one. -/
theorem header_markFree (hh : Header h e false) : Header (markFree h e.start) e true := by
  refine ⟨?_,?_⟩
  · simp only [markFree,size_setNext,size_setIsFree]
    exact hh.size
  · simp only [markFree,isFree_setNext]
    exact isFree_setIsFree (by decide)

theorem Represents.markFree (hR : Represents arena h P) (he : e∈P.live) :
    FreeList arena (markFree h e.start) P.free :=
  hR.freeList.frame (within_markFree (hR.inArena e he).roomy) rfl fun _ hf =>
    Extent.apart_iff_disjoint.mp (hR.sound.free_live hf he)

/-- A block in use passes the guard of free. -/
theorem free_eq (hR : Represents arena h P) (he : e∈P.live) : free h (e.start+headerSize)=
    (insertFree (Heap.markFree h e.start) e.start).bind fun h => coalesce rounds h h.freeListHead := by
  obtain ⟨hne,hblock⟩ := pointer_block (hR.inArena e he)
  have hused : ¬h.isFree e.start≠0 := by
    rw [(hR.headers e he).flag]
    decide
  rw [free,if_neg hne,hblock]
  exact if_neg hused

/-- free gives a block in use back to the pool; it writes to nothing but that block and free
ones. -/
theorem free_spec (hR : Represents arena h P) (he : e∈P.live) :
    ∃ h',free h (e.start+headerSize)=some h' ∧ Represents arena h' (P.release e) ∧
      Within h h' (e.range∪Extent.covered P.free) := by
  have hl := hR.freeList
  have hin := hR.inArena e he
  have hapart (f : Block) (hf : f∈P.free) : Extent.Apart f e := hR.sound.free_live hf he
  have hw1 := @within_markFree h e hin.roomy
  have he1 := header_markFree (hR.headers e he)
  have hl1 := hR.markFree he
  obtain ⟨h2,hins,hc2,hh2,hw2⟩ := insertFree_spec e hl1.linked
    (List.forall_mem_cons.mpr ⟨hin,hl1.inArena⟩) hl1.separated (fun f hf => (hapart f hf).symm)
    hl1.length_lt (List.forall_mem_cons.mpr ⟨he1,hl1.headers⟩)
  have hupto := hR.sound.place_upto he
  have hall {f : Block} (hf : f∈Extent.place e P.free) : f∈e::P.free := by
    rw [List.mem_cons]
    exact Extent.mem_place.mp hf
  have hin2 (f : Block) (hf : f∈Extent.place e P.free) : InArena arena f :=
    List.forall_mem_cons.mpr ⟨hin,hl.inArena⟩ f (hall hf)
  obtain ⟨h3,hjoin,hc3,hh3,hw3,hhead⟩ := coalesce_spec hc2 (length_lt_rounds hupto hin2) hin2
    hupto fun f hf => hh2 f (hall hf)
  have hcover : Extent.covered (Extent.place e P.free)=e.range∪Extent.covered P.free := by
    rw [Extent.covered_perm (Extent.place_perm e P.free),Extent.covered_cons]
  rw [Extent.covered_cons] at hw2
  rw [hcover] at hw3
  have hw : Within h h3 (e.range∪Extent.covered P.free) :=
    (hw1.mono Set.subset_union_left).trans (hw2.trans hw3)
  refine ⟨h3,?_,⟨?_,⟨?_,hh3,fun f hf => .coalesce hin2 hf,Extent.coalesce_separated hupto⟩,
    fun f hf => ?_,fun f hf => hR.inArena f (List.mem_filter.mp hf).1,
    Pool.release_sound hR.sound he⟩,hw⟩
  · rw [free_eq hR he,hins,Option.bind_some,hjoin]
  · rw [hw.initialized]
    exact hR.initialized
  · rw [hhead]
    exact hc3
  · obtain ⟨hf,hne'⟩ := List.mem_filter.mp hf
    have hfe : Extent.Apart f e := hR.sound.apart_of_start_ne he hf (by simpa using hne')
    refine (hR.headers f hf).frame hw (hR.inArena f hf).roomy ?_
    rw [Set.disjoint_union_right]
    exact ⟨Extent.apart_iff_disjoint.mp hfe,hR.free_disjoint_live hf⟩

end Free

section Realloc

variable {arena : Arena} {h h' : HeapState} {P : Pool Nat} {e : Block} {n : Nat}

/-- Writes that spare the free blocks and all headers do not matter. -/
theorem Represents.frame {S : Set Nat} (hR : Represents arena h P) (hw : Within h h' S)
    (hh : h'.freeListHead=h.freeListHead) (hfree : Disjoint (Extent.covered P.free) S)
    (hlive : ∀ e∈P.live,Disjoint (Set.Ico e.start (e.start+headerSize)) S) :
    Represents arena h' P := by
  refine ⟨hw.initialized.trans hR.initialized,hR.freeList.frame hw hh fun e he =>
    hfree.mono_left (Extent.range_subset_covered he),fun e he => ?_,hR.inArena,hR.sound⟩
  obtain ⟨hs,hf,-⟩ := hw.fields (hlive e he)
  exact ⟨hs ▸ (hR.headers e he).size,hf.trans (hR.headers e he).flag⟩

/-- The payload of a block. -/
def payload (e : Block) : Set Nat := Set.Ico (e.start+headerSize) e.stop

theorem payload_subset (e : Block) : payload e⊆e.range :=
  Set.Ico_subset_Ico_left (Nat.le_add_right _ _)

theorem header_disjoint_payload (hR : Represents arena h P) {f : Block} (he : e∈P.live)
    (hf : f∈P.live) : Disjoint (Set.Ico f.start (f.start+headerSize)) (payload e) := by
  by_cases hs : f.start=e.start
  · rw [hs]
    exact Set.disjoint_left.mpr fun x hx hx' => absurd hx.2 hx'.1.not_gt
  · have hd := Extent.apart_iff_disjoint.mp (hR.sound.apart_of_start_ne he hf hs)
    exact hd.mono (hR.inArena f hf).roomy.header (payload_subset e)

/-- Writes in the payload of a block in use do not matter to the allocator. -/
theorem Represents.write (hR : Represents arena h P) (he : e∈P.live)
    (hw : Within h h' (payload e)) (hh : h'.freeListHead=h.freeListHead) :
    Represents arena h' P :=
  hR.frame hw hh (((hR.free_disjoint_live he).mono_left (payload_subset e)).symm)
    fun _ hf => header_disjoint_payload hR he hf

theorem within_copyBytes {dst src len : Nat} (hs : e.start+headerSize≤dst)
    (hl : dst+len≤e.stop) : Within h {h with mem := copyBytes h.mem dst src len} (payload e) := by
  refine ⟨fun x hx => copyBytes_of_ne ?_,rfl⟩
  have hno : ¬(e.start+headerSize≤x ∧ x<e.stop) := hx
  omega

theorem shrink_spec (hR : Represents arena h P) (he : e∈P.live) (hn : 0<n)
    (hle : e.start+headerSize+n≤e.stop) :
    Represents arena (h.setSize e.start n)
        (P.trim e (e.start+headerSize+n) (by omega)) ∧
      Within h (h.setSize e.start n) (Set.Ico e.start (e.start+headerSize)) := by
  have hin := hR.inArena e he
  have hlt := hin.stop_lt
  have hw : Within h (h.setSize e.start n) (Set.Ico e.start (e.start+headerSize)) :=
    within_setSize subset_rfl
  have hsub := hin.roomy.header
  refine ⟨⟨hw.initialized.trans hR.initialized,?_,?_,?_,Pool.trim_sound _ hR.sound he hle⟩,hw⟩
  · refine hR.freeList.frame hw rfl fun f hf => ?_
    exact (Extent.apart_iff_disjoint.mp (hR.sound.free_live hf he)).mono_right hsub
  · intro f hf
    obtain ⟨g,hg,rfl⟩ := List.mem_map.mp hf
    split_ifs with hs
    · refine ⟨?_,?_⟩
      · show e.start+headerSize+(h.setSize e.start n).size e.start=e.start+headerSize+n
        rw [size_setSize (by omega)]
      · show (h.setSize e.start n).isFree e.start=_
        rw [isFree_setSize]
        exact (hR.headers e he).flag
    · refine (hR.headers g hg).frame hw (hR.inArena g hg).roomy ?_
      exact (Extent.apart_iff_disjoint.mp (hR.sound.apart_of_start_ne he hg hs)).mono_right hsub
  · intro f hf
    obtain ⟨g,hg,rfl⟩ := List.mem_map.mp hf
    split_ifs with hs
    · refine ⟨hin.low,?_,hin.aligned,?_⟩
      · have hh := hin.high
        show e.start+headerSize+n≤_
        omega
      · show e.start+headerSize<e.start+headerSize+n
        omega
    · exact hR.inArena g hg

end Realloc

end Cllm.Heap
