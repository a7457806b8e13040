import Cllm.Framework.FirstFit
import Cllm.Heap.Tiling

namespace Cllm.Heap

open ByteMemory HeapState

/-- The bytes of the blocks that the clients hold before a step and not after it. -/
def GivenUp (s s' : State) : Set Nat :=
  {x | ∃ p∈s.live,p∉s'.live ∧ header p≤x ∧ x<header p+headerSize+s.heap.size (header p)}

/-- Free after a call is what was free or is given up by it, and is in no client's block now. -/
def freeAfter (arena : Arena) (s : State) (c : Call) (free : Set Nat) : Set Nat :=
  {x | (x∈free ∨ x∈GivenUp s (step arena s c).1) ∧ ¬InLive (step arena s c).1 x}

/-- The free bytes at the end of some calls, as these alone tell. -/
def freeBytes (arena : Arena) (s : State) (free : Set Nat) : List Call → Set Nat
  | [] => free
  | c::calls => freeBytes arena (step arena s c).1 (freeAfter arena s c free) calls

/-- The bytes of the blocks with these headers. -/
def blockBytes (s : State) (bs : List Nat) : Set Nat :=
  {x | ∃ b∈bs,b≤x ∧ x<b+headerSize+s.heap.size b}

section Bytes

variable {arena : Arena} {s s' : State} {P P' : Pool Nat} {x : Nat}

theorem Stands.blockBytes (hs : Stands arena s P) :
    blockBytes s (P.free.map Extent.start)=Extent.covered P.free := by
  ext x
  constructor
  · rintro ⟨b,hb,hlow,hhigh⟩
    obtain ⟨e,he,rfl⟩ := List.mem_map.mp hb
    exact ⟨e,he,hlow,hs.size (List.mem_append_left P.live he) ▸ hhigh⟩
  · rintro ⟨e,he,hlow,hhigh⟩
    refine ⟨e.start,List.mem_map_of_mem he,hlow,?_⟩
    rwa [hs.size (List.mem_append_left P.live he)]

theorem Stands.givenUp (hs : Stands arena s P) :
    x∈GivenUp s s' ↔ ∃ e∈P.live,pointer e∉s'.live ∧ x∈e.range := by
  constructor
  · rintro ⟨p,hp,hgone,hlow,hhigh⟩
    obtain ⟨e,he,rfl⟩ := hs.mem_live.mp hp
    have hsize := hs.size (List.mem_append_right P.free he)
    rw [header_pointer] at hlow hhigh
    exact ⟨e,he,hgone,hlow,hsize ▸ hhigh⟩
  · rintro ⟨e,he,hgone,hlow,hhigh⟩
    have hsize := hs.size (List.mem_append_right P.free he)
    refine ⟨pointer e,hs.mem_live.mpr ⟨e,he,rfl⟩,hgone,?_⟩
    rw [header_pointer,hsize]
    exact ⟨hlow,hhigh⟩

/-- Nothing is given up when all pointers are kept. -/
theorem givenUp_of_subset (h : s.live⊆s'.live) : x∉GivenUp s s' := by
  rintro ⟨p,hp,hgone,-⟩
  exact hgone (h hp)

/-- Given up is the block whose pointer is dropped. -/
theorem Stands.givenUp_drop (hs : Stands arena s P) {e : Block} (he : e∈P.live)
    (hgone : pointer e∉s'.live) (hkept : ∀ p∈s.drop (pointer e),p∈s'.live) :
    x∈GivenUp s s' ↔ x∈e.range := by
  rw [hs.givenUp]
  constructor
  · rintro ⟨f,hf,hfgone,hx⟩
    by_cases hfe : f.start=e.start
    · rwa [Pool.start_inj hs.heap.sound.live_apart he hf hfe] at hx
    · refine absurd (hkept _ (List.mem_filter.mpr ⟨hs.mem_live.mpr ⟨f,hf,rfl⟩,?_⟩)) hfgone
      simpa [pointer] using hfe
  · exact fun hx => ⟨e,he,hgone,hx⟩

/-- A call adds to the free bytes no others than are given up, and loses none of these and the
free ones but to the clients. -/
theorem Served.free_bytes {c : Call} {outs : List Outcome} (h : Served s P c s' outs P')
    (hs : Stands arena s P) (hs' : Stands arena s' P') :
    (x∈Extent.covered P'.free → x∈Extent.covered P.free ∨ x∈GivenUp s s') ∧
      (x∈Extent.covered P.free ∨ x∈GivenUp s s' →
        x∈Extent.covered P'.free ∨ x∈Extent.covered P'.live) := by
  have same (hl : s.live⊆s'.live) (hf : P'.free=P.free) :
      (x∈Extent.covered P'.free → x∈Extent.covered P.free ∨ x∈GivenUp s s') ∧
        (x∈Extent.covered P.free ∨ x∈GivenUp s s' →
          x∈Extent.covered P'.free ∨ x∈Extent.covered P'.live) := by
    rw [hf]
    exact ⟨.inl,fun hx => .inl (hx.resolve_right (givenUp_of_subset hl))⟩
  cases h with
  | nothing => exact same (List.Subset.refl _) rfl
  | exhausted => exact same (List.Subset.refl _) rfl
  | freeNull => exact same (List.Subset.refl _) rfl
  | refused => exact same (List.Subset.refl _) rfl
  | written => exact same (List.Subset.refl _) rfl
  | resized => exact same (List.Subset.refl _) rfl
  | @allocated _ n a h' _ hr hn htakes =>
    have hfree := htakes.covered_free
    rw [← hfree,htakes.mem,Extent.covered_cons]
    refine ⟨fun hx => .inl (.inr hx),fun hx => ?_⟩
    rcases hx.resolve_right (givenUp_of_subset (List.subset_cons_self _ _)) with hx|hx
    · exact .inr (.inl hx)
    · exact .inl hx
  | @freed _ _ e h' hr he =>
    have hgone : pointer e∉s.drop (pointer e) := by simp [State.drop]
    rw [hs.givenUp_drop he hgone fun p hp => hp,Pool.covered_release_free]
    exact ⟨Or.symm,fun hx => .inl hx.symm⟩
  | @moved n e a h' Q he hlt htakes =>
    have hapart := (htakes.sound hs.heap.sound).live_apart
    rw [htakes.mem] at hapart
    have hne := ((List.pairwise_cons.mp hapart).1 e he).start_ne
    have hgone : pointer e∉pointer a::s.drop (pointer e) := by
      simpa [State.drop,pointer] using hne.symm
    rw [hs.givenUp_drop he hgone fun p hp => .tail _ hp,Pool.covered_release_free,
      ← htakes.covered_free]
    have ha : a∈(Q.release e).live := by
      refine List.mem_filter.mpr ⟨?_,by simpa using hne⟩
      rw [htakes.mem]
      exact .head _
    refine ⟨fun hx => hx.symm.imp .inr id,?_⟩
    rintro ((hx|hx)|hx)
    · exact .inr ⟨a,ha,hx⟩
    · exact .inl (.inr hx)
    · exact .inl (.inl hx)

/-- The free blocks after a call have just the bytes that are free. -/
theorem Served.covered_free {c : Call} {outs : List Outcome}
    (h : Served s P c (step arena s c).1 outs P') (hs : Stands arena s P)
    (hs' : Stands arena (step arena s c).1 P') :
    Extent.covered P'.free=freeAfter arena s c (Extent.covered P.free) := by
  ext x
  obtain ⟨hnew,hold⟩ := h.free_bytes (x := x) hs hs'
  rw [freeAfter,Set.mem_ofPred_eq,hs'.inLive]
  refine ⟨fun hx => ⟨hnew hx,?_⟩,fun hx => (hold hx.1).resolve_right hx.2⟩
  rintro ⟨e,he,hxe⟩
  exact Set.disjoint_left.mp (hs'.heap.free_disjoint_live he) hxe hx

theorem freeBytes_run {calls : List Call} (hs : Stands arena s P)
    (h : Machine.Along (step arena) Regular s calls) :
    ∃ P',Stands arena (Machine.runState (step arena) s calls) P' ∧
      Extent.covered P'.free=freeBytes arena s (Extent.covered P.free) calls := by
  induction calls generalizing s P with
  | nil => exact ⟨P,hs,rfl⟩
  | cons c calls ih =>
    obtain ⟨P1,hserved,hs1⟩ := (Regular.sizable h.1).served hs
    obtain ⟨P',hs',hfree⟩ := ih hs1 h.2
    refine ⟨P',hs',?_⟩
    rw [hfree,hserved.covered_free hs hs1]
    rfl

end Bytes

/-- After every call the heap is well kept, the blocks of the free list have just the bytes that
are free, and every call returns. -/
theorem run_wellKept (arena : Arena) (mem : Memory) (calls : List Call)
    (h : Machine.Along (step arena) Regular (initial arena mem) calls) :
    (∃ bs,WellKept arena (run arena mem calls) bs ∧
      blockBytes (run arena mem calls) bs=
        freeBytes arena (initial arena mem) (region arena) calls) ∧
      .hangs∉outcomes arena mem calls := by
  refine ⟨?_,?_⟩
  · obtain ⟨P,hs,hfree⟩ := freeBytes_run (stands_initial arena mem) h
    refine ⟨_,hs.wellKept,hs.blockBytes.trans (hfree.trans ?_)⟩
    have hwhole : Extent.covered [wholeArena arena]=region arena := covered_initial arena
    rw [hwhole]
  · have hinv := Machine.history_along (step arena)
      (fun s _ outs => (∃ P,Stands arena s P) ∧ .hangs∉outs)
      (fun s _ outs c ⟨⟨P,hs⟩,ho⟩ hc => by
        obtain ⟨P',hserved,hs'⟩ := (Regular.sizable hc).served hs
        refine ⟨⟨P',hs'⟩,?_⟩
        rw [List.mem_append,not_or]
        exact ⟨ho,hserved.returns⟩)
      (h := []) (o := []) ⟨⟨_,stands_initial arena mem⟩,by simp⟩ h
    simpa using hinv.2

theorem run_wellKept_session :
    (∃ bs,WellKept lowArena (run lowArena zeros session) bs ∧
      blockBytes (run lowArena zeros session) bs=
        freeBytes lowArena (initial lowArena zeros) (region lowArena) session) ∧
      .hangs∉outcomes lowArena zeros session :=
  run_wellKept lowArena zeros session (by decide)

end Cllm.Heap
