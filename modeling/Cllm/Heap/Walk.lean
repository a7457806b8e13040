import Cllm.Heap.Chain

namespace Cllm.Heap

open ByteMemory HeapState

theorem headerSize_eq : headerSize=16 := rfl

theorem wrap_of_lt {n : Nat} (h : n<2^32) : wrap n=n := Nat.mod_eq_of_lt h

theorem wrapSub_of_le {a b : Nat} (h : b≤a) (ha : a<2^32) : wrapSub a b=a-b := by
  rw [wrapSub]
  omega

/-- The header says how long the block is and whether it is free. -/
structure Header (h : HeapState) (e : Block) (free : Bool) : Prop where
  size : e.start+headerSize+h.size e.start=e.stop
  flag : h.isFree e.start=free.toNat

/-- What the allocator may take for granted about a block in the arena. -/
structure InArena (arena : Arena) (e : Block) : Prop where
  low : arena.base≤e.start
  high : e.stop≤arena.base+heapSize
  aligned : 8∣e.start-arena.base
  roomy : Roomy e

section Headers

variable {h h' : HeapState} {e : Block} {free : Bool}

theorem Header.frame {S : Set Nat} (hh : Header h e free) (hw : Within h h' S) (hr : Roomy e)
    (hd : Disjoint e.range S) : Header h' e free := by
  obtain ⟨hs,hf,-⟩ := hw.fields (hd.mono_left hr.header)
  exact ⟨hs ▸ hh.size,hf.trans hh.flag⟩

/-- Links are not what a header is about. -/
theorem Header.store (hh : Header h e free) (hr : Roomy e) (pos : Link) (v : Nat)
    (hd : pos=.next e.start ∨ Disjoint e.range pos.cell) : Header (h.store pos v) e free := by
  rcases hd with rfl|hd
  · exact ⟨by rw [HeapState.store,size_setNext]; exact hh.size,
      by rw [HeapState.store,isFree_setNext]; exact hh.flag⟩
  · exact hh.frame (within_store h pos v) hr hd

end Headers

theorem InArena.start_pos {arena : Arena} {e : Block} (h : InArena arena e) : e.start≠0 := by
  have hb := arena.base_pos
  have hl := h.low
  omega

theorem InArena.stop_lt {arena : Arena} {e : Block} (h : InArena arena e) : e.stop<2^32 := by
  have hf := arena.fits
  have hh := h.high
  omega

/-- The link in the block before, or the head. -/
def linkOf (prev : Nat) : Link := if prev=0 then .head else .next prev

theorem unlink_eq (h : HeapState) (prev current : Nat) :
    unlink h prev current=h.store (linkOf prev) (h.next current) := by
  rw [unlink,linkOf]
  by_cases hp : prev=0
  · rw [if_neg (by simpa using hp),if_pos hp]
    rfl
  · rw [if_pos hp,if_neg hp]
    rfl

section Walks

variable {h : HeapState} {es : List Block} {size : Nat}

/-- The loop of malloc ends at the first block that is large enough, or finds none. -/
theorem firstFit_spec {fuel prev p : Nat} (hc : Chain h p es 0) (hf : es.length<fuel)
    (hpos : ∀ e∈es,e.start≠0) (hh : ∀ e∈es,Header h e true) :
    firstFit h size fuel prev p=some none ∧ (∀ e∈es,h.size e.start<size) ∨
    ∃ pre e post last,es=pre++e::post ∧ size≤h.size e.start ∧
      linkOf last=linkAfter (linkOf prev) pre ∧
      firstFit h size fuel prev p=some (some (last,e.start)) := by
  induction es generalizing fuel prev p with
  | nil =>
    obtain ⟨fuel,rfl⟩ : ∃ k,fuel=k+1 := ⟨fuel-1,by simp at hf; omega⟩
    have hp : p=0 := hc
    exact .inl ⟨by rw [firstFit,if_pos hp],by simp⟩
  | cons e es ih =>
    obtain ⟨fuel,rfl⟩ : ∃ k,fuel=k+1 := ⟨fuel-1,by omega⟩
    rw [List.forall_mem_cons] at hpos hh
    obtain ⟨rfl,hc⟩ := hc
    have hfree : h.isFree e.start≠0 := by
      rw [hh.1.flag]
      decide
    rw [firstFit,if_neg hpos.1]
    by_cases hs : h.size e.start≥size
    · right
      exact ⟨[],e,es,prev,rfl,hs,rfl,by rw [if_pos ⟨hfree,hs⟩]⟩
    · rw [if_neg fun hno => hs hno.2]
      rcases @ih fuel e.start _ hc (by simpa using hf) hpos.2 hh.2 with
        ⟨he,hall⟩|⟨pre,f,post,last,rfl,hfit,hl,he⟩
      · exact .inl ⟨he,List.forall_mem_cons.mpr ⟨Nat.lt_of_not_le hs,hall⟩⟩
      · refine .inr ⟨e::pre,f,post,last,rfl,hfit,?_,he⟩
        rw [hl,linkAfter,linkOf,if_neg hpos.1]

theorem position_spec {pre post : List Block} {fuel block : Nat} {pos : Link}
    (hc : Chain h (h.load pos) (pre++post) 0) (hf : pre.length<fuel)
    (hpos : ∀ e∈pre++post,e.start≠0) (hpre : ∀ e∈pre,e.start<block)
    (hpost : ∀ e∈post,block≤e.start) :
    position h block fuel pos=some (linkAfter pos pre) := by
  induction pre generalizing fuel pos with
  | nil =>
    obtain ⟨fuel,rfl⟩ : ∃ k,fuel=k+1 := ⟨fuel-1,by simp at hf; omega⟩
    rw [position,if_neg]
    · rfl
    · rintro ⟨hne,hlt⟩
      cases post with
      | nil => exact hne hc
      | cons e es =>
        have hs : h.load pos=e.start := hc.1
        have hle := hpost e (.head _)
        omega
  | cons e es ih =>
    obtain ⟨fuel,rfl⟩ : ∃ k,fuel=k+1 := ⟨fuel-1,by omega⟩
    rw [List.cons_append,List.forall_mem_cons] at hpos
    rw [List.forall_mem_cons] at hpre
    obtain ⟨hs,hc⟩ := hc
    rw [position,if_pos ⟨hs ▸ hpos.1,hs ▸ hpre.1⟩,hs]
    exact @ih fuel (.next e.start) hc (by simpa using hf) hpos.2 hpre.2

end Walks

theorem linkAfter_mem (pos : Link) (es : List Block) :
    linkAfter pos es=pos ∨ ∃ e∈es,linkAfter pos es=.next e.start := by
  induction es generalizing pos with
  | nil => exact .inl rfl
  | cons e es ih =>
    rcases ih (.next e.start) with he|⟨f,hf,he⟩
    · exact .inr ⟨e,.head _,he⟩
    · exact .inr ⟨f,.tail _ hf,he⟩

theorem Chain.start_lt {h : HeapState} {arena : Arena} {p : Nat} {es : List Block}
    (hc : Chain h p es 0) (ha : ∀ e∈es,InArena arena e) : p<2^32 := by
  cases es with
  | nil =>
    have hp : p=0 := hc
    omega
  | cons e es =>
    have hp : p=e.start := hc.1
    have hlt := (ha e (.head _)).stop_lt
    have hproper := e.proper
    omega

section Insert

variable {arena : Arena} {h : HeapState} {es : List Block}

/-- Insertion stores two links: that of the new block, and the one behind the blocks before it. -/
theorem insertFree_stores (new : Block) (hc : Chain h h.freeListHead es 0)
    (hpos : ∀ e∈es,e.start≠0) (hs : es.Pairwise Extent.Before) (hlen : es.length<rounds) :
    ∃ pre post,es=pre++post ∧ Extent.place new es=pre++new::post ∧
      insertFree h new.start=some ((h.setNext new.start (h.load (linkAfter .head pre))).store
        (linkAfter .head pre) new.start) := by
  obtain ⟨pre,post,rfl,hins,hpre,hpost⟩ := Extent.place_split new (hs.imp le_of_lt)
  have hposition : position h new.start rounds .head=some (linkAfter .head pre) :=
    position_spec hc (by rw [List.length_append] at hlen; omega) hpos hpre hpost
  refine ⟨pre,post,rfl,hins,?_⟩
  rw [insertFree,hposition,Option.map_some]

/-- The link behind a few blocks is the head or in one of their headers. -/
theorem linkAfter_apart {e : Block} {pre : List Block} (hr : ∀ f∈pre,Roomy f)
    (ha : ∀ f∈pre,e=f ∨ Extent.Apart e f) :
    linkAfter .head pre=.next e.start ∨ Disjoint e.range (linkAfter .head pre).cell := by
  rcases linkAfter_mem .head pre with hl|⟨f,hf,hl⟩
  · rw [hl]
    exact .inr disjoint_bot_right
  · rw [hl]
    rcases ha f hf with rfl|haf
    · exact .inl rfl
    · exact .inr ((Extent.apart_iff_disjoint.mp haf).mono_right (hr f hf).header)

/-- Insertion into the free list links the block in where it belongs. -/
theorem insertFree_spec (new : Block) (hc : Chain h h.freeListHead es 0)
    (hin : ∀ e∈new::es,InArena arena e)
    (hs : es.Pairwise Extent.Before) (ha : ∀ e∈es,Extent.Apart new e) (hlen : es.length<rounds)
    (hh : ∀ e∈new::es,Header h e true) :
    ∃ h',insertFree h new.start=some h' ∧
      Chain h' h'.freeListHead (Extent.place new es) 0 ∧ (∀ e∈new::es,Header h' e true) ∧
      Within h h' (Extent.covered (new::es)) := by
  rw [List.forall_mem_cons] at hin
  obtain ⟨pre,post,rfl,hins,hstores⟩ :=
    insertFree_stores new hc (fun e he => (hin.2 e he).start_pos) hs hlen
  have hroomy (e : Block) (he : e∈pre++post) : Roomy e := (hin.2 e he).roomy
  obtain ⟨r,hc1,hc2⟩ := chain_append.mp hc
  have hload : h.load (linkAfter .head pre)=r := Chain.load_linkAfter .head hc1
  have hr : r<2^32 := hc2.start_lt fun e he => hin.2 e (List.mem_append_right _ he)
  have hnew : new.start<2^32 := new.proper.trans hin.1.stop_lt
  -- the new block, the blocks before it and those behind it do not meet
  have hapart := (hs.imp Extent.Before.apart)
  obtain ⟨hpre_apart,-,hcross⟩ := List.pairwise_append.mp hapart
  have hnew_range (e : Block) (he : e∈pre++post) : Disjoint e.range new.range :=
    (Extent.apart_iff_disjoint.mp (ha e he)).symm
  have hpost_range (e : Block) (he : e∈post) : Disjoint e.range (Extent.covered pre) :=
    Extent.forall_apart_iff.mp fun f hf => (hcross f hf e he).symm
  have hpre_new : Disjoint new.range (Extent.covered pre) :=
    Extent.forall_apart_iff.mp fun f hf => ha f (List.mem_append_left _ hf)
  have hcell : (linkAfter .head pre).cell⊆Extent.covered pre := by
    have hsub := @linkAfter_cell .head pre fun e he => hroomy e (List.mem_append_left _ he)
    rwa [Link.cell,Set.empty_union] at hsub
  let h1 := h.setNext new.start r
  let h2 := h1.store (linkAfter .head pre) new.start
  have hw1 : Within h h1 new.range := within_setNext hin.1.roomy.header
  have hw2 : Within h1 h2 (Extent.covered pre) := (within_store h1 _ _).mono hcell
  refine ⟨h2,?_,?_,?_,?_⟩
  · rw [hstores,hload]
  · have hc1' : Chain h1 h1.freeListHead pre r := hc1.frame hw1
      (fun e he => hroomy e (List.mem_append_left _ he))
      (fun e he => hnew_range e (List.mem_append_left _ he))
    have hfront : Chain h2 h2.freeListHead pre new.start :=
      Chain.store .head hc1' hnew (fun e he => hroomy e (List.mem_append_left _ he))
        hpre_apart disjoint_bot_left
    have hnext : h2.next new.start=r := by
      rw [(hw2.fields (hpre_new.mono_left hin.1.roomy.header)).2.2]
      exact next_setNext hr
    have hback : Chain h2 r post 0 :=
      (hc2.frame hw1 (fun e he => hroomy e (List.mem_append_right _ he))
        (fun e he => hnew_range e (List.mem_append_right _ he))).frame hw2
        (fun e he => hroomy e (List.mem_append_right _ he)) hpost_range
    rw [hins,chain_append]
    exact ⟨new.start,hfront,rfl,hnext.symm ▸ hback⟩
  · intro e he
    have hre : Roomy e := by
      rcases List.mem_cons.mp he with rfl|he
      · exact hin.1.roomy
      · exact hroomy e he
    have h1e : Header h1 e true := by
      refine (hh e he).store hre (.next new.start) r ?_
      rcases List.mem_cons.mp he with rfl|he
      · exact .inl rfl
      · exact .inr ((hnew_range e he).mono_right hin.1.roomy.header)
    refine h1e.store hre _ new.start (linkAfter_apart (fun f hf =>
      hroomy f (List.mem_append_left _ hf)) fun f hf => ?_)
    rcases List.mem_cons.mp he with rfl|he
    · exact .inr (ha f (List.mem_append_left _ hf))
    · rcases Extent.separated_mem hs he (List.mem_append_left _ hf) with hef|hb|hb
      · exact .inl hef
      · exact .inr hb.apart
      · exact .inr hb.apart.symm
  · rw [Extent.covered_cons,Extent.covered_append]
    exact (hw1.mono Set.subset_union_left).trans
      (hw2.mono (Set.subset_union_left.trans Set.subset_union_right))

end Insert

theorem InArena.wrap_stop {arena : Arena} {h : HeapState} {e : Block} {free : Bool}
    (hin : InArena arena e) (hh : Header h e free) :
    wrap (wrap (e.start+headerSize)+h.size e.start)=e.stop := by
  have hr : e.start+headerSize<e.stop := hin.roomy
  have hs := hh.size
  have hl := hin.stop_lt
  have hw : wrap (e.start+headerSize)=e.start+headerSize := wrap_of_lt (by omega)
  rw [hw,wrap_of_lt (by omega)]
  omega

theorem InArena.join {arena : Arena} {e f : Block} (he : InArena arena e) (hf : InArena arena f)
    (h : e.stop=f.start) : InArena arena (e.join f h) := by
  have hr : f.start+headerSize<f.stop := hf.roomy
  have hp := e.proper
  refine ⟨he.low,hf.high,he.aligned,?_⟩
  show e.start+headerSize<f.stop
  omega

/-- A block that touches the next one of the list takes it over. -/
theorem coalesce_touching {arena : Arena} {h : HeapState} {e f : Block} (fuel : Nat)
    (hef : e.stop=f.start) (hine : InArena arena e) (hinf : InArena arena f)
    (hhe : Header h e true) (hhf : Header h f true) (hnext : h.next e.start=f.start) :
    ∃ h',coalesce (fuel+1) h e.start=coalesce fuel h' e.start ∧
      Header h' (e.join f hef) true ∧ h'.next e.start=h.next f.start ∧ Within h h' e.range ∧
      h'.freeListHead=h.freeListHead := by
  have hes := hhe.size
  have hfs := hhf.size
  have hlt := hinf.stop_lt
  have hsum : wrap (h.size e.start+wrap (headerSize+h.size f.start))=
      h.size e.start+(headerSize+h.size f.start) := by
    have hw : wrap (headerSize+h.size f.start)=headerSize+h.size f.start :=
      wrap_of_lt (by omega)
    rw [hw,wrap_of_lt (by omega)]
  let v := h.size e.start+(headerSize+h.size f.start)
  have hv : v<2^32 := by omega
  let h1 := h.setSize e.start v
  let h2 := h1.setNext e.start (h.next f.start)
  have hw1 : Within h h1 e.range := within_setSize hine.roomy.header
  have hd : Disjoint f.range e.range :=
    (Extent.apart_iff_disjoint.mp (.inl (le_of_eq hef))).symm
  refine ⟨h2,?_,⟨?_,?_⟩,next_setNext (next_lt h f.start),
    hw1.trans (within_setNext hine.roomy.header),rfl⟩
  · have h1e : h1.next e.start=f.start := next_setSize.trans hnext
    have h1f : h1.next f.start=h.next f.start :=
      (hw1.fields (hd.mono_left hinf.roomy.header)).2.2
    rw [coalesce,hnext,if_pos ⟨hine.start_pos,hinf.start_pos⟩,hine.wrap_stop hhe,if_pos hef,hsum]
    show coalesce fuel (h1.setNext e.start (h1.next (h1.next e.start))) e.start=_
    rw [h1e,h1f]
  · show e.start+headerSize+h2.size e.start=f.stop
    rw [size_setNext,size_setSize hv]
    omega
  · show h2.isFree e.start=_
    rw [isFree_setNext,isFree_setSize]
    exact hhe.flag

/-- The loop of free joins what touches, in one pass. -/
theorem coalesce_spec {arena : Arena} {es : List Block} {h : HeapState} {p fuel : Nat}
    (hc : Chain h p es 0) (hf : es.length<fuel) (hin : ∀ e∈es,InArena arena e)
    (hs : es.Pairwise Extent.Upto) (hh : ∀ e∈es,Header h e true) :
    ∃ h',coalesce fuel h p=some h' ∧ Chain h' p (Extent.coalesce es) 0 ∧
      (∀ e∈Extent.coalesce es,Header h' e true) ∧ Within h h' (Extent.covered es) ∧
      h'.freeListHead=h.freeListHead := by
  obtain ⟨fuel,rfl⟩ : ∃ k,fuel=k+1 := ⟨fuel-1,by omega⟩
  fun_induction Extent.coalesce es generalizing h p fuel with
  | case1 =>
    have hp : p=0 := hc
    refine ⟨h,?_,hc,hh,within_refl,rfl⟩
    rw [coalesce,if_neg fun hno => hno.1 hp]
  | case2 e =>
    have hn : h.next e.start=0 := hc.2
    refine ⟨h,?_,hc,hh,within_refl,rfl⟩
    rw [coalesce,hc.1,if_neg fun hno => hno.2 hn]
  | case3 e f fs hef ih =>
    obtain ⟨rfl,hnext,hrest⟩ := hc
    rw [List.forall_mem_cons,List.forall_mem_cons] at hin hh
    rw [List.pairwise_cons,List.pairwise_cons] at hs
    obtain ⟨fuel,rfl⟩ : ∃ k,fuel=k+1 := ⟨fuel-1,by simp at hf; omega⟩
    obtain ⟨h2,hstep,hjoin,hnext2,hw2,hhead2⟩ :=
      coalesce_touching (fuel+1) hef hin.1 hin.2.1 hh.1 hh.2.1 hnext
    have hapart {g : Block} (hg : g∈fs) : Disjoint g.range e.range :=
      (Extent.apart_iff_disjoint.mp (.inl (hs.1 g (.tail _ hg)))).symm
    have hchain : Chain h2 e.start (e.join f hef::fs) 0 := by
      refine ⟨rfl,?_⟩
      show Chain h2 (h2.next e.start) fs 0
      rw [hnext2]
      exact hrest.frame hw2 (fun g hg => (hin.2.2 g hg).roomy) fun g hg => hapart hg
    have hheader : ∀ g∈e.join f hef::fs,Header h2 g true :=
      List.forall_mem_cons.mpr
        ⟨hjoin,fun g hg => (hh.2.2 g hg).frame hw2 (hin.2.2 g hg).roomy (hapart hg)⟩
    obtain ⟨h',he,hc',hh',hw',hhead⟩ := ih hchain
      (List.forall_mem_cons.mpr ⟨hin.1.join hin.2.1 hef,hin.2.2⟩)
      (List.pairwise_cons.mpr ⟨hs.2.1,hs.2.2⟩) hheader fuel (by simpa using hf)
    refine ⟨h',hstep.trans he,hc',hh',?_,hhead.trans hhead2⟩
    rw [Extent.covered_cons,Extent.range_join] at hw'
    rw [Extent.covered_cons,Extent.covered_cons,← Set.union_assoc]
    exact (hw2.mono (Set.subset_union_left.trans Set.subset_union_left)).trans hw'
  | case4 e f fs hef ih =>
    obtain ⟨rfl,hnext,hrest⟩ := hc
    rw [List.forall_mem_cons] at hin hh
    rw [List.pairwise_cons] at hs
    obtain ⟨fuel,rfl⟩ : ∃ k,fuel=k+1 := ⟨fuel-1,by simp at hf; omega⟩
    have hf0 := (hin.2 f (.head _)).start_pos
    have hstep : coalesce (fuel+2) h e.start=coalesce (fuel+1) h f.start := by
      rw [coalesce,hnext,if_pos ⟨hin.1.start_pos,hf0⟩,hin.1.wrap_stop hh.1,if_neg hef]
    obtain ⟨h',he,hc',hh',hw',hhead⟩ := ih ⟨rfl,hrest⟩ hin.2 hs.2 hh.2 fuel (by simpa using hf)
    have hd : Disjoint e.range (Extent.covered (f::fs)) :=
      Extent.forall_apart_iff.mp fun g hg => .inl (hs.1 g hg)
    refine ⟨h',hstep.trans he,⟨rfl,?_⟩,?_,?_,hhead⟩
    · rw [(hw'.fields (hd.mono_left hin.1.roomy.header)).2.2,hnext]
      exact hc'
    · exact List.forall_mem_cons.mpr ⟨hh.1.frame hw' hin.1.roomy hd,hh'⟩
    · rw [Extent.covered_cons]
      exact hw'.mono Set.subset_union_right

end Cllm.Heap
