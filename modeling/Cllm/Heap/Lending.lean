import Cllm.Heap.Canonical
import Cllm.Heap.Contents

namespace Cllm.Heap

open ByteMemory HeapState

/-- malloc has a block of so many bytes. -/
def fits (arena : Arena) (h : HeapState) (n : Nat) : Bool :=
  match malloc arena h n with
  | some (_,p) => p≠0
  | none => false

section Lending

variable {arena : Arena} {h h' : HeapState} {P P' : Pool Nat} {e : Block} {m n : Nat}

/-- malloc takes a block that is large enough, if there is one. -/
theorem malloc_lends (hR : Represents arena h P) (hn : n≠0) :
    malloc arena h n=some (h,0) ∧ Full P n ∨
    ∃ h' e P',malloc arena h n=some (h',pointer e) ∧ P.Takes e P' ∧ e∈P'.live ∧ pointer e≠0 ∧
      Represents arena h' P' ∧ Within h h' (Extent.covered P.free) ∧
      pointer e+alignSize n ≤ e.stop := by
  rcases malloc_spec hR hn with ⟨hm,hfull⟩|⟨h',e,P',hm,htakes,hR',hw,hroom⟩
  · exact .inl ⟨hm,hfull⟩
  · have he : e∈P'.live := by
      rw [htakes.mem]
      exact .head _
    exact .inr ⟨h',e,P',hm,htakes,he,(pointer_block (hR'.inArena e he)).1,hR',hw,hroom⟩

theorem not_full_of_takes (htakes : P.Takes e P') (hroom : pointer e+alignSize n ≤ e.stop) :
    ¬Full P n := by
  intro hfull
  obtain ⟨f,hf,hstart,hstop⟩ := takes_from htakes
  have hlt := hfull f hf
  rw [pointer] at hroom
  omega

theorem fits_iff (hR : Represents arena h P) (hn : n≠0) : fits arena h n=true ↔ ¬Full P n := by
  rw [fits]
  rcases malloc_lends hR hn with ⟨hm,hfull⟩|⟨h',e,P',hm,htakes,-,hp,-,-,hroom⟩
  · rw [hm]
    have hno : ¬¬Full P n := not_not.mpr hfull
    simpa using hno
  · rw [hm]
    have hno := not_full_of_takes htakes hroom
    simpa [hp] using hno

theorem alignSize_mono (hmn : m ≤ n) (hn : n ≤ 2^32-8) : alignSize m ≤ alignSize n := by
  unfold alignSize wrap
  dsimp only
  split <;> split <;> omega

/-- A heap that has no room for a request has none for a larger one. -/
theorem Full.mono (hfull : Full P m) (hmn : m ≤ n) (hn : n ≤ 2^32-8) : Full P n := by
  intro e he
  have hlt := hfull e he
  have hle := alignSize_mono hmn hn
  omega

/-- A block that was taken and goes back leaves no trace. -/
theorem free_returns (hP : P.Sound) (htakes : P.Takes e P') (hR : Represents arena h P') :
    ∃ h',free h (pointer e)=some h' ∧ Represents arena h' P ∧
      Within h h' (Extent.covered P.free) := by
  have he : e∈P'.live := by
    rw [htakes.mem]
    exact .head _
  obtain ⟨h',hfree,hR',hw⟩ := free_spec hR he
  rw [htakes.release hP] at hR'
  rw [htakes.covered_free] at hw
  exact ⟨h',hfree,hR',hw⟩

/-- What a client does to its block is done to free memory, for everybody else. -/
theorem within_payload (htakes : P.Takes e P') (hw : Within h h' (payload e)) :
    Within h h' (Extent.covered P.free) := by
  refine hw.mono ?_
  rw [← htakes.covered_free]
  exact (payload_subset e).trans Set.subset_union_left

/-- What is free with the block in use was free before. -/
theorem within_taken (htakes : P.Takes e P') (hw : Within h h' (Extent.covered P'.free)) :
    Within h h' (Extent.covered P.free) := by
  refine hw.mono ?_
  rw [← htakes.covered_free]
  exact Set.subset_union_right

/-- A word is written in a block in use. -/
theorem within_storeWord {a v : Nat} (ha : pointer e ≤ a) (ha' : a+4 ≤ e.stop) :
    Within h {h with mem := storeWord h.mem a v} (payload e) := by
  refine ⟨fun x hx => storeWord_of_ne ?_,rfl⟩
  have hno : ¬(e.start+headerSize≤x ∧ x<e.stop) := hx
  rw [pointer] at ha
  omega

theorem within_storeWords {vs : List Nat} (hroom : pointer e+4*vs.length ≤ e.stop) :
    Within h {h with mem := storeWords h.mem (pointer e) vs} (payload e) := by
  refine ⟨fun x hx => storeWords_of_ne ?_,rfl⟩
  have hno : ¬(e.start+headerSize≤x ∧ x<e.stop) := hx
  rw [pointer] at *
  omega

/-- First fit takes the front of a first block that is large. -/
theorem poolMalloc_front (e : Block) (live : List Block) (hn : n≠0)
    (hlarge : pointer e+alignSize n+headerSize+headerSize+8 ≤ e.stop) :
    ∃ a rest,poolMalloc ⟨[e],live⟩ n=(⟨[rest],a::live⟩,pointer e) ∧
      rest.start=pointer e+alignSize n ∧ rest.stop=e.stop := by
  have hfit : pointer e+alignSize n ≤ e.stop := by omega
  have hstop : pointer e+alignSize n < e.stop := by
    have hheader := headerSize_eq
    omega
  have hstart : e.start < pointer e+alignSize n := by
    have hpos := alignSize_pos n
    rw [pointer]
    omega
  refine ⟨⟨e.start,pointer e+alignSize n,hstart⟩,⟨pointer e+alignSize n,e.stop,hstop⟩,?_,rfl,rfl⟩
  have hcut : cut n e=some ⟨pointer e+alignSize n,hstart,hfit⟩ := by
    rw [cut,dif_pos hfit,if_pos hlarge]
  rw [poolMalloc,if_neg hn,Pool.firstFit,hcut]
  dsimp only
  rw [Pool.remnant,dif_pos hstop]
  rfl

end Lending

section Session

variable {arena : Arena} {s : State} {h' : HeapState} {P : Pool Nat}

/-- The others notice nothing of a session that returns what it took: their blocks are as they
were, and the allocator answers them as if it had not been. -/
theorem unnoticed (hs : Stands arena s P) (hR' : Represents arena h' P)
    (hw : Within s.heap h' (Extent.covered P.free)) :
    State.freeBlocks ⟨h',s.live⟩=s.freeBlocks ∧ (∀ p∈s.live,Preserved s ⟨h',s.live⟩ p) ∧
      ∀ cs,Machine.Along (step arena) Regular s cs →
        Machine.outputs (step arena) ⟨h',s.live⟩ cs=Machine.outputs (step arena) s cs := by
  have hs' : Stands arena ⟨h',s.live⟩ P := ⟨hR',hs.live⟩
  refine ⟨?_,fun p hp => ?_,fun cs hcs => ?_⟩
  · rw [hs'.freeBlocks,hs.freeBlocks]
  · obtain ⟨e,he,rfl⟩ := hs.mem_live.mp hp
    exact preserved_of_untouched hs he fun x hx =>
      hw.mem x (Set.disjoint_left.mp (hs.heap.free_disjoint_live he) hx)
  · have htwins : Twins arena s ⟨h',s.live⟩ := ⟨P,P,hs,hs',rfl,.refl _⟩
    exact (Machine.lockstep (step arena) (step arena) (Twins arena)
      (fun _ _ _ h hc => h.step hc) htwins hcs).1.symm

end Session

end Cllm.Heap
