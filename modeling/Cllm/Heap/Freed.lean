import Cllm.Heap.Runs

namespace Cllm.Heap

open ByteMemory HeapState

/-- No header address loses a mark that its block is free. -/
def MarksKept (arena : Arena) (h h' : HeapState) : Prop :=
  ∀ b,arena.base≤b → 8∣b-arena.base → h.isFree b≠0 → h'.isFree b≠0

section Marks

variable {arena : Arena} {h h' h'' : HeapState} {c v : Nat}

theorem marksKept_refl : MarksKept arena h h := fun _ _ _ hb => hb

theorem MarksKept.trans (hk : MarksKept arena h h') (hk' : MarksKept arena h' h'') :
    MarksKept arena h h'' := fun b hlow hb hmark => hk' b hlow hb (hk b hlow hb hmark)

section Aligned

variable (hc : arena.base≤c) (ha : 8∣c-arena.base)

include hc ha

-- the marks are the second words of the eights, the other fields the first ones

theorem marksKept_setSize : MarksKept arena h (h.setSize c v) := by
  intro b hlow hb hmark
  have hword : (h.setSize c v).isFree b=h.isFree b := by
    apply loadWord_storeWord_ne
    omega
  rwa [hword]

theorem marksKept_setNext : MarksKept arena h (h.setNext c v) := by
  intro b hlow hb hmark
  have hword : (h.setNext c v).isFree b=h.isFree b := by
    apply loadWord_storeWord_ne
    omega
  rwa [hword]

theorem marksKept_setIsFree : MarksKept arena h (h.setIsFree c 1) := by
  intro b hlow hb hmark
  by_cases hbc : b=c
  · rw [hbc,isFree_setIsFree (by decide)]
    decide
  · have hword : (h.setIsFree c 1).isFree b=h.isFree b := by
      apply loadWord_storeWord_ne
      omega
    rwa [hword]

theorem marksKept_markFree : MarksKept arena h (markFree h c) :=
  (marksKept_setIsFree hc ha).trans (marksKept_setNext hc ha)

end Aligned

/-- The blocks of a list, as addresses among which the next fields lead. -/
structure Nodes (arena : Arena) (h : HeapState) (N : Set Nat) : Prop where
  low : ∀ b∈N,arena.base≤b
  aligned : ∀ b∈N,8∣b-arena.base
  apart : ∀ b∈N,∀ c∈N,b≠c → b+headerSize≤c ∨ c+headerSize≤b
  closed : ∀ b∈N,h.next b=0 ∨ h.next b∈N

/-- Joining a block with the next one, as the loop of free does it. -/
theorem Nodes.join {N : Set Nat} (hN : Nodes arena h N) {p : Nat} (hp : p∈N)
    (hq : h.next p∈N) (v : Nat) :
    Nodes arena ((h.setSize p v).setNext p ((h.setSize p v).next ((h.setSize p v).next p))) N := by
  have other {b : Nat} (hb : b∈N) (hbp : b≠p) {h : HeapState} {v w : Nat} :
      ((h.setSize p v).setNext p w).next b=h.next b ∧ (h.setSize p v).next b=h.next b := by
    have hdisj := hN.apart b hb p hp hbp
    have hsize := headerSize_eq
    have hfirst : (h.setSize p v).next b=h.next b := by
      apply loadWord_storeWord_ne
      omega
    refine ⟨Eq.trans ?_ hfirst,hfirst⟩
    apply loadWord_storeWord_ne
    omega
  have hnext : (h.setSize p v).next ((h.setSize p v).next p)=h.next (h.next p) := by
    rw [next_setSize]
    by_cases hpp : h.next p=p
    · rw [hpp,next_setSize]
    · exact (@other _ hq hpp h v 0).2
  refine ⟨hN.low,hN.aligned,hN.apart,fun b hb => ?_⟩
  rw [hnext]
  by_cases hbp : b=p
  · rw [hbp,next_setNext (next_lt h _)]
    exact hN.closed _ hq
  · rw [(other hb hbp).1]
    exact hN.closed b hb

/-- The loop of free writes sizes and links alone. -/
theorem coalesce_marksKept {N : Set Nat} {fuel p : Nat} (hN : Nodes arena h N) (hp : p=0 ∨ p∈N)
    (he : coalesce fuel h p=some h') : MarksKept arena h h' := by
  induction fuel generalizing h p with
  | zero => cases he
  | succ fuel ih =>
    rw [coalesce] at he
    by_cases hmore : p≠0 ∧ h.next p≠0
    · have hp := hp.resolve_left hmore.1
      have hq := (hN.closed p hp).resolve_left hmore.2
      rw [if_pos hmore] at he
      by_cases hjoin : wrap (wrap (p+headerSize)+h.size p)=h.next p
      · have hlow := hN.low p hp
        have haligned := hN.aligned p hp
        have hrest := ih (hN.join hp hq _) (Or.inr hp) ((if_pos hjoin).symm.trans he)
        refine MarksKept.trans ?_ hrest
        exact (marksKept_setSize hlow haligned).trans (marksKept_setNext hlow haligned)
      · exact ih hN (hN.closed p hp) ((if_neg hjoin).symm.trans he)
    · rw [if_neg hmore] at he
      injection he with he
      rw [he]
      exact marksKept_refl

/-- The links of a list lead to its blocks. -/
theorem Chain.closed {p : Nat} {es : List Block} (hc : Chain h p es 0) :
    (p=0 ∨ ∃ e∈es,e.start=p) ∧ ∀ e∈es,h.next e.start=0 ∨ ∃ f∈es,f.start=h.next e.start := by
  induction es generalizing p with
  | nil => exact ⟨Or.inl hc,fun e he => (by cases he)⟩
  | cons e es ih =>
    obtain ⟨hp,hrest⟩ := hc
    obtain ⟨hfirst,hothers⟩ := ih hrest
    refine ⟨Or.inr ⟨e,.head _,hp.symm⟩,?_⟩
    rw [List.forall_mem_cons]
    refine ⟨?_,fun f hf => ?_⟩
    · apply hfirst.imp_right
      rintro ⟨f,hf,hstart⟩
      exact ⟨f,.tail _ hf,hstart⟩
    · apply (hothers f hf).imp_right
      rintro ⟨g,hg,hstart⟩
      exact ⟨g,.tail _ hg,hstart⟩

theorem Chain.nodes {p : Nat} {es : List Block} (hc : Chain h p es 0)
    (hin : ∀ e∈es,InArena arena e) (hs : es.Pairwise Extent.Upto) :
    Nodes arena h {b | ∃ e∈es,e.start=b} := by
  refine ⟨?_,?_,?_,?_⟩
  · rintro b ⟨e,he,rfl⟩
    exact (hin e he).low
  · rintro b ⟨e,he,rfl⟩
    exact (hin e he).aligned
  · rintro b ⟨e,he,rfl⟩ c ⟨f,hf,rfl⟩ hne
    have hapart : es.Pairwise Extent.Apart := hs.imp Or.inl
    have hre : e.start+headerSize<e.stop := (hin e he).roomy
    have hrf : f.start+headerSize<f.stop := (hin f hf).roomy
    rcases (Pool.apart_or_eq hapart he hf) with rfl | h | h
    · exact absurd rfl hne
    · exact Or.inl (hre.le.trans h)
    · exact Or.inr (hrf.le.trans h)
  · rintro b ⟨e,he,rfl⟩
    exact hc.closed.2 e he

end Marks

section Free

variable {arena : Arena} {h h' : HeapState} {P : Pool Nat} {e : Block}

theorem insertFree_marksKept {es : List Block} (hl : FreeList arena h es)
    (hin : InArena arena e) (he : insertFree h e.start=some h') : MarksKept arena h h' := by
  have hpos (f : Block) (hf : f∈es) : f.start≠0 := (hl.inArena f hf).start_pos
  obtain ⟨pre,post,rfl,-,hstores⟩ :=
    insertFree_stores e hl.linked hpos hl.separated hl.length_lt
  rw [hstores] at he
  injection he with he
  have hfirst : MarksKept arena h (h.setNext e.start (h.load (linkAfter .head pre))) :=
    marksKept_setNext hin.low hin.aligned
  rw [← he]
  apply hfirst.trans
  rcases linkAfter_mem .head pre with hlink | ⟨f,hf,hlink⟩
  · rw [hlink]
    exact marksKept_refl
  · rw [hlink]
    have hinf := hl.inArena f (List.mem_append_left _ hf)
    exact marksKept_setNext hinf.low hinf.aligned

/-- free marks its block and unmarks none, whatever it joins. -/
theorem free_marksKept (hR : Represents arena h P) (he : e∈P.live)
    (hfree : free h (e.start+headerSize)=some h') :
    MarksKept arena h h' ∧ h'.isFree e.start≠0 := by
  have hin := hR.inArena e he
  have hl := hR.markFree he
  have hhead := header_markFree (hR.headers e he)
  obtain ⟨h2,hins,hchain,-⟩ := insertFree_spec e hl.linked
    (List.forall_mem_cons.mpr ⟨hin,hl.inArena⟩) hl.separated
    (fun f hf => (hR.sound.free_live hf he).symm) hl.length_lt
    (List.forall_mem_cons.mpr ⟨hhead,hl.headers⟩)
  have hplace : ∀ f∈Extent.place e P.free,InArena arena f := by
    intro f hf
    rcases Extent.mem_place.mp hf with rfl | hf
    · exact hin
    · exact hl.inArena f hf
  have hnodes := hchain.nodes hplace (hR.sound.place_upto he)
  rw [free_eq hR he,hins,Option.bind_some] at hfree
  have hkept := (insertFree_marksKept hl hin hins).trans
    (coalesce_marksKept hnodes hchain.closed.1 hfree)
  refine ⟨(marksKept_markFree hin.low hin.aligned).trans hkept,?_⟩
  apply hkept e.start hin.low hin.aligned
  rw [hhead.flag]
  decide

end Free

/-- The block has been given back: its bytes are in free blocks, and its header says so still. -/
structure Gone (arena : Arena) (h : HeapState) (P : Pool Nat) (e : Block) : Prop where
  inArena : InArena arena e
  free : e.range⊆Extent.covered P.free
  marked : h.isFree e.start≠0

/-- Each of these pointers is held still, or has been given back. -/
def HeldOrGone (arena : Arena) (held : List Nat) (s : State) (P : Pool Nat) : Prop :=
  ∀ p∈held,p∈s.live ∨ ∃ e,pointer e=p ∧ Gone arena s.heap P e

/-- What clients that hold these pointers may do without asking for memory: give back what they
hold or have held, and write to the blocks that they hold. -/
def Releases (held : List Nat) (s : State) : Call → Prop
  | .free p => p=0 ∨ p∈held
  | .write address byte => Valid s (.write address byte)
  | _ => False

instance (held : List Nat) (s : State) : (c : Call) → Decidable (Releases held s c)
  | .malloc _ => inferInstanceAs (Decidable False)
  | .free p => inferInstanceAs (Decidable (p=0 ∨ p∈held))
  | .realloc _ _ => inferInstanceAs (Decidable False)
  | .write address byte => inferInstanceAs (Decidable (Valid s (.write address byte)))

section Released

variable {arena : Arena} {s : State} {P : Pool Nat} {e : Block} {held : List Nat}

theorem step_free_unchanged {p : Nat} (hfree : Heap.free s.heap p=some s.heap) (hp : p∉s.live) :
    step arena s (.free p)=(s,[]) := by
  have hdrop : s.drop p=s.live := by
    apply List.filter_eq_self.mpr
    intro q hq
    rw [decide_eq_true_eq]
    rintro rfl
    exact hp hq
  rw [step,hfree]
  simp only [hdrop]

theorem step_free_null (hs : Stands arena s P) : step arena s (.free 0)=(s,[]) :=
  step_free_unchanged (if_pos rfl) fun h => hs.live_ne_zero h rfl

/-- A second free of the block stops at the guard. -/
theorem Gone.free_again (hg : Gone arena s.heap P e) :
    Heap.free s.heap (pointer e)=some s.heap := by
  obtain ⟨hne,hblock⟩ := pointer_block hg.inArena
  rw [pointer,Heap.free,if_neg hne,hblock]
  exact if_pos hg.marked

theorem Gone.not_live (hg : Gone arena s.heap P e) (hs : Stands arena s P) :
    pointer e∉s.live := by
  intro hlive
  obtain ⟨f,hf,hfe⟩ := hs.mem_live.mp hlive
  have hstart : f.start=e.start := Nat.add_right_cancel hfe
  have hin : e.start∈f.range := ⟨hstart.le,hstart ▸ f.proper⟩
  have hfree := hg.free ⟨le_rfl,e.proper⟩
  exact Set.disjoint_left.mp (hs.heap.free_disjoint_live hf) hin hfree

/-- And changes nothing at all. -/
theorem Gone.step_again (hg : Gone arena s.heap P e) (hs : Stands arena s P) :
    step arena s (.free (pointer e))=(s,[]) := step_free_unchanged hg.free_again (hg.not_live hs)

theorem Gone.release {h' : HeapState} {f : Block} (hg : Gone arena s.heap P e)
    (hk : MarksKept arena s.heap h') : Gone arena h' (P.release f) e := by
  refine ⟨hg.inArena,?_,hk e.start hg.inArena.low hg.inArena.aligned hg.marked⟩
  rw [Pool.covered_release_free]
  exact hg.free.trans Set.subset_union_right

/-- What a call may do to the pointers that the clients hold: no new one, and not one that it
frees. -/
def Lets (s : State) (c : Call) (s' : State) : Prop :=
  s'.live⊆s.live ∧ ∀ p,c=.free p → p∉s'.live

/-- Giving back a block that is held. -/
theorem HeldOrGone.free (hh : HeldOrGone arena held s P) (hs : Stands arena s P) (he : e∈P.live) :
    ∃ s' P',step arena s (.free (pointer e))=(s',[]) ∧ Stands arena s' P' ∧
      HeldOrGone arena held s' P' ∧ Lets s (.free (pointer e)) s' := by
  obtain ⟨h',hfree,hs',-⟩ := serves_free hs he
  obtain ⟨hkept,hmarked⟩ := free_marksKept hs.heap he hfree
  refine ⟨⟨h',s.drop (pointer e)⟩,P.release e,?_,hs',fun p hp => ?_,?_,?_⟩
  · rw [step,hfree]
  · by_cases hpe : p=pointer e
    · refine Or.inr ⟨e,hpe.symm,hs.heap.inArena e he,?_,hmarked⟩
      rw [Pool.covered_release_free]
      exact Set.subset_union_left
    · rcases hh p hp with hlive | ⟨f,hf,hg⟩
      · exact Or.inl (List.mem_filter.mpr ⟨hlive,decide_eq_true hpe⟩)
      · exact Or.inr ⟨f,hf,hg.release hkept⟩
  · exact List.filter_subset_self _
  · rintro p hp hmem
    injection hp with hp
    rw [← hp] at hmem
    have hne := (List.mem_filter.mp hmem).2
    exact absurd rfl (of_decide_eq_true hne)

/-- A write to a block that is held does not reach those that are gone. -/
theorem HeldOrGone.write {address : Nat} {byte : UInt8} (hh : HeldOrGone arena held s P)
    (hs : Stands arena s P) (hv : Valid s (.write address byte)) :
    Stands arena (step arena s (.write address byte)).1 P ∧
      HeldOrGone arena held (step arena s (.write address byte)).1 P := by
  obtain ⟨e,he,-,hw⟩ := hs.written hv
  refine ⟨⟨hs.heap.write he hw rfl,hs.live⟩,fun p hp => ?_⟩
  apply (hh p hp).imp_right
  rintro ⟨f,hf,hg⟩
  have hdisj : Disjoint f.range (payload e) :=
    ((hs.heap.free_disjoint_live he).mono (payload_subset e) hg.free).symm
  refine ⟨f,hf,hg.inArena,hg.free,?_⟩
  have hfields := hw.fields (hdisj.mono_left hg.inArena.roomy.header)
  exact fun h0 => hg.marked (hfields.2.1.symm.trans h0)

theorem step_releases {c : Call} (hh : HeldOrGone arena held s P) (hs : Stands arena s P)
    (hc : Releases held s c) :
    ∃ P',Stands arena (step arena s c).1 P' ∧ HeldOrGone arena held (step arena s c).1 P' ∧
      Lets s c (step arena s c).1 := by
  -- a free that stops at once
  have unchanged {p : Nat} (hp : p∉s.live) : Lets s (.free p) s := by
    refine ⟨List.Subset.refl _,fun q hq => ?_⟩
    injection hq with hq
    exact hq ▸ hp
  cases c with
  | malloc n => exact hc.elim
  | realloc p n => exact hc.elim
  | write address byte =>
    obtain ⟨hs',hh'⟩ := hh.write hs hc
    exact ⟨P,hs',hh',List.Subset.refl _,fun p hp => (by cases hp)⟩
  | free p =>
    rcases hc with rfl | hp
    · rw [step_free_null hs]
      exact ⟨P,hs,hh,unchanged fun h => hs.live_ne_zero h rfl⟩
    · rcases hh p hp with hlive | ⟨e,rfl,hg⟩
      · obtain ⟨e,he,rfl⟩ := hs.mem_live.mp hlive
        obtain ⟨s',P',hstep,hs',hh',hl⟩ := hh.free hs he
        rw [hstep]
        exact ⟨P',hs',hh',hl⟩
      · rw [hg.step_again hs]
        exact ⟨P,hs,hh,unchanged (hg.not_live hs)⟩

/-- What has been freed in a run of such calls is not held. -/
theorem releases_run {calls : List Call} (hh : HeldOrGone arena held s P) (hs : Stands arena s P)
    (hc : Machine.Along (step arena) (Releases held) s calls) :
    ∃ P',Stands arena (Machine.runState (step arena) s calls) P' ∧
      HeldOrGone arena held (Machine.runState (step arena) s calls) P' ∧
      (Machine.runState (step arena) s calls).live⊆s.live ∧
      ∀ p,.free p∈calls → p∉(Machine.runState (step arena) s calls).live := by
  induction calls generalizing s P with
  | nil => exact ⟨P,hs,hh,List.Subset.refl _,fun p hp => (by cases hp)⟩
  | cons c calls ih =>
    obtain ⟨P',hs',hh',hfewer,hfreed⟩ := step_releases hh hs hc.1
    obtain ⟨P'',hs'',hh'',hfewer',hfreed'⟩ := ih hh' hs' hc.2
    refine ⟨P'',hs'',hh'',List.Subset.trans hfewer' hfewer,fun p hp => ?_⟩
    rcases List.mem_cons.mp hp with hpc | hp
    · exact fun hlive => hfreed p hpc.symm (hfewer' hlive)
    · exact hfreed' p hp

/-- A pointer that is freed in such a run can be freed again without effect. -/
theorem freed_again {calls : List Call} (hs : Stands arena s P)
    (hc : Machine.Along (step arena) (Releases s.live) s calls) {p : Nat} (hp : .free p∈calls) :
    step arena (Machine.runState (step arena) s calls) (.free p)=
      (Machine.runState (step arena) s calls,[]) := by
  have hh : HeldOrGone arena s.live s P := fun q hq => Or.inl hq
  obtain ⟨P',hs',hh',-,hfreed⟩ := releases_run hh hs hc
  obtain ⟨s₀,hnull | hheld⟩ := hc.mem _ hp
  · rw [hnull]
    exact step_free_null hs'
  · rcases hh' p hheld with hlive | ⟨e,rfl,hg⟩
    · exact absurd hlive (hfreed p hp)
    · exact hg.step_again hs'

end Released

/-- Calls by the rules, where a realloc of a block asks for a size_t of at most 2^32 - 8, or for
more when there is no room anyway. -/
def Unwrapped (s : State) (c : Call) : Prop :=
  Valid s c ∧ ∀ p n,c=.realloc p n → p≠0 → n<2^32 ∧ (n≤2^32-8 ∨ NoRoom s)

section Unwrapped

variable {arena : Arena} {s : State} {P : Pool Nat} {c : Call}

theorem Regular.unwrapped (h : Regular s c) : Unwrapped s c := by
  refine ⟨h.1,?_⟩
  rintro p n rfl -
  have hmodest : n≤2^32-8 := h.2
  exact ⟨by omega,Or.inl hmodest⟩

theorem Unwrapped.stands (hc : Unwrapped s c) (hs : Stands arena s P) :
    ∃ P',Stands arena (step arena s c).1 P' := by
  by_cases hnull : ∃ n,c=.realloc 0 n
  · obtain ⟨n,rfl⟩ := hnull
    obtain ⟨P',-,hs'⟩ := serves_malloc hs (Or.inr rfl)
    exact ⟨P',hs'⟩
  · have hfits (p n : Nat) (he : c=.realloc p n) : n≤2^32-8 ∨ Full P n := by
      have hp : p≠0 := fun h0 => hnull ⟨n,h0 ▸ he⟩
      obtain ⟨hn,hroom⟩ := hc.2 p n he hp
      by_cases hle : n≤2^32-8
      · exact Or.inl hle
      · exact Or.inr ((hs.full_iff_noRoom (Nat.lt_of_not_le hle) hn).mpr (hroom.resolve_left hle))
    obtain ⟨P',-,hs'⟩ := step_served hs hc.1 hfits
    exact ⟨P',hs'⟩

end Unwrapped

/-- After a run of such calls, and further frees and writes, a pointer that was freed among these
can be freed again: nothing in the memory changes, whatever has been joined. -/
theorem run_freed_again (arena : Arena) (mem : Memory) (calls since : List Call) (p : Nat)
    (h : Machine.Along (step arena) Unwrapped (initial arena mem) calls)
    (hs : Machine.Along (step arena) (Releases (run arena mem calls).live) (run arena mem calls)
      since) (hp : .free p∈since) :
    step arena (run arena mem (calls++since)) (.free p)=(run arena mem (calls++since),[]) := by
  obtain ⟨P,hstands⟩ := Machine.invariant_along (step arena) (fun s => ∃ P,Stands arena s P)
    (fun _ _ ⟨_,hs⟩ hc => hc.stands hs) ⟨_,stands_initial arena mem⟩ h
  have hrun : run arena mem (calls++since)=
      Machine.runState (step arena) (run arena mem calls) since := Machine.runState_append ..
  rw [hrun]
  exact freed_again hstands hs hp

/-- Three neighbours, -/
def neighbours : List Call := [.malloc 16,.malloc 16,.malloc 16]

/-- of which the middle one is freed before it is joined with the others. -/
def joined : List Call := [.free 4144,.free 4112,.write 4180 9,.free 4176]

theorem run_freed_again_joined : step lowArena (run lowArena zeros (neighbours++joined))
    (.free 4144)=(run lowArena zeros (neighbours++joined),[]) := by
  have hregular : Machine.Along (step lowArena) Regular (initial lowArena zeros) neighbours := by
    decide +kernel
  exact run_freed_again lowArena zeros neighbours joined 4144
    (hregular.mono _ fun _ _ => Regular.unwrapped) (by decide +kernel) (by decide)

/-- The bytes that a client writes from an address on. -/
def writes (address : Nat) : List UInt8 → List Call
  | [] => []
  | byte::bytes => .write address byte::writes (address+1) bytes

/-- A realloc of 2^32 - 1 bytes is given 8, copies 80, and leaves a free list of the client's own
making. The next block, at 4232, is followed by one at 4236, whose size is the mark of the first. -/
def overrun : List Call :=
  .malloc 80::(writes 4128 [0xB0,0x10]++writes 4136 [88]++writes 4140 [2]++
    writes 4144 [0x8C,0x10]++writes 4148 [0x9D,0x10]++writes 4157 [0xEF,0xFF,0xFF,0xFF]++
    writes 4184 [0x88,0x10]++[.realloc 4112 0xFFFFFFFF,.malloc 88])

theorem overrun_counterexample : ¬∀ (arena : Arena) (mem : Memory) (calls since : List Call)
    (p : Nat),Machine.Along (step arena) Valid (initial arena mem) calls →
    Machine.Along (step arena) (Releases (run arena mem calls).live) (run arena mem calls) since →
    .free p∈since →
    step arena (run arena mem (calls++since)) (.free p)=(run arena mem (calls++since),[]) := by
  intro h
  have hsame := h lowArena zeros overrun [.free 4248] 4248 (by decide +kernel) (by decide +kernel)
    (by decide)
  have hlink := congrArg (fun r => r.1.heap.next 4216) hsame
  have hbefore : (run lowArena zeros (overrun++[.free 4248])).heap.next 4216=4272 := by
    decide +kernel
  have hafter : (step lowArena (run lowArena zeros (overrun++[.free 4248]))
      (.free 4248)).1.heap.next 4216=4232 := by decide +kernel
  rw [hbefore,hafter] at hlink
  exact absurd hlink (by decide)

end Cllm.Heap
