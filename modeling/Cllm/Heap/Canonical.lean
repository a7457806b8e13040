import Cllm.Framework.Dispatch
import Cllm.Framework.Refinement
import Cllm.Heap.FirstFit
import Cllm.Heap.Tiling

namespace Cllm.Heap

open ByteMemory HeapState

/-- In every run of regular calls the allocator gives the answers of first fit on extents, and the
heap in memory stands for the pool that first fit leaves, whatever was in memory before. -/
theorem run_firstFit (arena : Arena) (mem : Memory) (calls : List Call)
    (h : Machine.Along (step arena) Regular (initial arena mem) calls) :
    outcomes arena mem calls=Machine.outputs poolStep (poolInit arena) calls ∧
      Stands arena (run arena mem calls) (Machine.runState poolStep (poolInit arena) calls) :=
  Machine.lockstep (step arena) poolStep (Stands arena) (fun _ _ _ hs hc => refines_step hs hc)
    (stands_initial arena mem) h

theorem run_firstFit_session :
    outcomes lowArena zeros session=Machine.outputs poolStep (poolInit lowArena) session ∧
      Stands lowArena (run lowArena zeros session)
        (Machine.runState poolStep (poolInit lowArena) session) :=
  run_firstFit lowArena zeros session (by decide)

/-- Pools that differ in the order of what is in use. -/
structure Alike (P Q : Pool Nat) : Prop where
  sameFree : P.free=Q.free
  sameLive : P.live.Perm Q.live

section Pools

variable {P Q : Pool Nat} {e : Block}

theorem exclusive_pointer (hP : P.Sound) (p : Nat) :
    Dispatch.Exclusive (fun e => decide (pointer e=p)) P.live := by
  refine hP.live_apart.imp fun {e f} hapart hboth => ?_
  rw [decide_eq_true_eq,decide_eq_true_eq] at hboth
  exact hapart.start_ne (Nat.add_right_cancel (hboth.1.trans hboth.2.symm))

theorem Alike.held (h : Alike P Q) (hP : P.Sound) (p : Nat) : held P p=held Q p :=
  Dispatch.find?_perm h.sameLive (exclusive_pointer hP p)

theorem Alike.release (h : Alike P Q) (e : Block) : Alike (P.release e) (Q.release e) :=
  ⟨by rw [Pool.release,Pool.release,h.sameFree],h.sameLive.filter _⟩

theorem Alike.trim (h : Alike P Q) {stop : Nat} (he : e.start<stop) :
    Alike (P.trim e stop he) (Q.trim e stop he) :=
  ⟨h.sameFree,h.sameLive.map _⟩

theorem Alike.malloc (h : Alike P Q) (n : Nat) :
    Alike (poolMalloc P n).1 (poolMalloc Q n).1 ∧ (poolMalloc P n).2=(poolMalloc Q n).2 := by
  rw [poolMalloc,poolMalloc,← h.sameFree]
  by_cases hn : n=0
  · rw [if_pos hn,if_pos hn]
    exact ⟨h,rfl⟩
  · rw [if_neg hn,if_neg hn]
    cases Pool.firstFit (cut n) P.free with
    | none => exact ⟨h,rfl⟩
    | some taken => exact ⟨⟨rfl,h.sameLive.cons taken.1⟩,rfl⟩

theorem Alike.free (h : Alike P Q) (hP : P.Sound) (p : Nat) :
    Alike (poolFree P p) (poolFree Q p) := by
  rw [poolFree,poolFree,← h.held hP]
  cases Heap.held P p with
  | none => exact h
  | some e => exact h.release e

theorem Alike.move (h : Alike P Q) (e : Block) (n : Nat) :
    Alike (poolMove P e n).1 (poolMove Q e n).1 ∧ (poolMove P e n).2=(poolMove Q e n).2 := by
  rw [poolMove,poolMove,← h.sameFree]
  cases Pool.firstFit (cut n) P.free with
  | none => exact ⟨h,rfl⟩
  | some taken =>
    have htaken : Alike ⟨taken.2,taken.1::P.live⟩ ⟨taken.2,taken.1::Q.live⟩ :=
      ⟨rfl,h.sameLive.cons taken.1⟩
    exact ⟨htaken.release e,rfl⟩

theorem Alike.realloc (h : Alike P Q) (hP : P.Sound) (p n : Nat) :
    Alike (poolRealloc P p n).1 (poolRealloc Q p n).1 ∧
      (poolRealloc P p n).2=(poolRealloc Q p n).2 := by
  rw [poolRealloc,poolRealloc,← h.held hP]
  by_cases hp : p=0
  · rw [if_pos hp,if_pos hp]
    exact h.malloc n
  · rw [if_neg hp,if_neg hp]
    by_cases hn : n=0
    · rw [dif_pos hn,dif_pos hn]
      exact ⟨h.free hP p,rfl⟩
    · rw [dif_neg hn,dif_neg hn]
      cases Heap.held P p with
      | none => exact ⟨h,rfl⟩
      | some e =>
        by_cases hle : pointer e+n≤e.stop
        · simp only [if_pos hle,and_true]
          exact h.trim _
        · simp only [if_neg hle]
          exact h.move e n

/-- The order of what is in use does not matter to first fit. -/
theorem Alike.step (h : Alike P Q) (hP : P.Sound) (c : Call) :
    (poolStep P c).2=(poolStep Q c).2 ∧ Alike (poolStep P c).1 (poolStep Q c).1 := by
  cases c with
  | malloc n =>
    obtain ⟨halike,hptr⟩ := h.malloc n
    exact ⟨by rw [poolStep,poolStep,hptr],halike⟩
  | free p => exact ⟨rfl,h.free hP p⟩
  | realloc p n =>
    obtain ⟨halike,hptr⟩ := h.realloc hP p n
    exact ⟨by rw [poolStep,poolStep,hptr],halike⟩
  | write address byte => exact ⟨rfl,h⟩

end Pools

/-- Clients hold the same blocks in both states. -/
structure SameHoldings (s t : State) : Prop where
  live : ∀ p,p∈s.live ↔ p∈t.live
  size : ∀ p∈s.live,s.heap.size (header p)=t.heap.size (header p)

section States

variable {arena : Arena} {s t : State} {P Q : Pool Nat}

theorem Stands.nodup (hs : Stands arena s P) : P.live.Nodup := by
  refine hs.heap.sound.live_apart.imp ?_
  rintro e f hapart rfl
  exact hapart.start_ne rfl

/-- Holding the same blocks, in the pools of both. -/
theorem SameHoldings.live_perm (h : SameHoldings s t) (hs : Stands arena s P)
    (ht : Stands arena t Q) : P.live.Perm Q.live := by
  refine (List.perm_ext_iff_of_nodup hs.nodup ht.nodup).mpr fun e => ?_
  -- a block is known from its pointer and its size
  have moved {s t : State} {P Q : Pool Nat} (h : SameHoldings s t) (hs : Stands arena s P)
      (ht : Stands arena t Q) (he : e∈P.live) : e∈Q.live := by
    have hp : pointer e∈s.live := hs.mem_live.mpr ⟨e,he,rfl⟩
    obtain ⟨f,hf,hfe⟩ := ht.mem_live.mp ((h.live _).mp hp)
    have hsize := h.size _ hp
    have hse := hs.pointer_size he
    have htf := ht.pointer_size hf
    rw [hfe] at htf
    have hstart : f.start=e.start := Nat.add_right_cancel hfe
    have hstop : f.stop=e.stop := by omega
    exact Extent.ext hstart hstop ▸ hf
  refine ⟨moved h hs ht,moved ⟨fun p => (h.live p).symm,fun p hp => ?_⟩ ht hs⟩
  exact (h.size p ((h.live p).mpr hp)).symm

theorem Alike.same (h : Alike P Q) (hs : Stands arena s P) (ht : Stands arena t Q) :
    SameHoldings s t := by
  refine ⟨fun p => ?_,fun p hp => ?_⟩
  · rw [hs.mem_live,ht.mem_live]
    simp only [h.sameLive.mem_iff]
  · obtain ⟨e,he,rfl⟩ := hs.mem_live.mp hp
    have hse := hs.pointer_size he
    have hte := ht.pointer_size (h.sameLive.mem_iff.mp he)
    omega

theorem SameHoldings.regular (h : SameHoldings s t) {c : Call} (hc : Regular s c) :
    Regular t c := by
  refine ⟨?_,hc.2⟩
  cases c with
  | malloc n => trivial
  | free p => exact hc.1.imp_right (h.live p).mp
  | realloc p n => exact hc.1.imp_right (h.live p).mp
  | write address byte =>
    obtain ⟨p,hp,hlow,hhigh⟩ := hc.1
    exact ⟨p,(h.live p).mp hp,hlow,h.size p hp ▸ hhigh⟩

/-- Two heaps with the same free blocks and the same holdings. -/
def Twins (arena : Arena) (s t : State) : Prop :=
  ∃ P Q,Stands arena s P ∧ Stands arena t Q ∧ Alike P Q

theorem Twins.step (h : Twins arena s t) {c : Call} (hc : Regular s c) :
    (step arena s c).2=(step arena t c).2 ∧
      Twins arena (Heap.step arena s c).1 (Heap.step arena t c).1 := by
  obtain ⟨P,Q,hs,ht,halike⟩ := h
  obtain ⟨hsout,hs'⟩ := refines_step hs hc
  obtain ⟨htout,ht'⟩ := refines_step ht ((halike.same hs ht).regular hc)
  obtain ⟨hout,halike'⟩ := halike.step hs.heap.sound c
  exact ⟨hsout.trans (hout.trans htout.symm),_,_,hs',ht',halike'⟩

theorem Twins.freeBlocks (h : Twins arena s t) : s.freeBlocks=t.freeBlocks := by
  obtain ⟨P,Q,hs,ht,halike⟩ := h
  rw [hs.freeBlocks,ht.freeBlocks,halike.sameFree]

/-- The heap after a run without a shrinking realloc, and all of it is in blocks. -/
theorem run_covered {mem : Memory} {calls : List Call}
    (h : Machine.Along (step arena) (fun s c => Regular s c ∧ ¬Shrinks s c)
      (initial arena mem) calls) :
    ∃ P,Stands arena (run arena mem calls) P ∧ Extent.covered P.all=region arena := by
  obtain ⟨P,hs,-,hiff⟩ := covered_run (stands_initial arena mem) (h.mono _ fun _ _ h => h.1)
  refine ⟨P,hs,?_⟩
  rw [hiff.mpr (h.mono _ fun _ _ h => h.2),covered_initial]

end States

/-- The heap has no memory of how it came about: after two runs without a shrinking realloc that
leave clients with the same blocks, the free blocks are the same, and so is every answer from
then on. -/
theorem run_canonical (arena : Arena) (mem mem' : Memory) (as bs cs : List Call)
    (ha : Machine.Along (step arena) (fun s c => Regular s c ∧ ¬Shrinks s c)
      (initial arena mem) as)
    (hb : Machine.Along (step arena) (fun s c => Regular s c ∧ ¬Shrinks s c)
      (initial arena mem') bs)
    (hsame : SameHoldings (run arena mem as) (run arena mem' bs))
    (hc : Machine.Along (step arena) Regular (run arena mem as) cs) :
    (run arena mem (as++cs)).freeBlocks=(run arena mem' (bs++cs)).freeBlocks ∧
      Machine.outputs (step arena) (run arena mem as) cs=
        Machine.outputs (step arena) (run arena mem' bs) cs := by
  obtain ⟨P,hs,hP⟩ := run_covered ha
  obtain ⟨Q,ht,hQ⟩ := run_covered hb
  have hlive := hsame.live_perm hs ht
  have hfree : P.free=Q.free := Pool.free_eq hs.heap.sound ht.heap.sound (hP.trans hQ.symm)
    (Extent.covered_perm hlive)
  obtain ⟨houts,htwins⟩ := Machine.lockstep (step arena) (step arena) (Twins arena)
    (fun _ _ _ h hc => h.step hc) ⟨P,Q,hs,ht,hfree,hlive⟩ hc
  refine ⟨?_,houts⟩
  rw [run,run,Machine.runState_append,Machine.runState_append]
  exact htwins.freeBlocks

/-- Two ways to come to one block at 4112: directly, and after one that has gone. -/
theorem run_canonical_detour :
    (run lowArena zeros ([.malloc 100]++[.malloc 5])).freeBlocks=
        (run lowArena zeros ([.malloc 9,.free 4112,.malloc 100]++[.malloc 5])).freeBlocks ∧
      Machine.outputs (step lowArena) (run lowArena zeros [.malloc 100]) [.malloc 5]=
        Machine.outputs (step lowArena)
          (run lowArena zeros [.malloc 9,.free 4112,.malloc 100]) [.malloc 5] := by
  have hlive : (run lowArena zeros [.malloc 100]).live=[4112] := by decide
  have hlive' : (run lowArena zeros [.malloc 9,.free 4112,.malloc 100]).live=[4112] := by decide
  refine run_canonical lowArena zeros zeros [.malloc 100] [.malloc 9,.free 4112,.malloc 100]
    [.malloc 5] (by decide) (by decide) ⟨fun p => by rw [hlive,hlive'],fun p hp => ?_⟩ (by decide)
  rw [hlive,List.mem_singleton] at hp
  subst hp
  decide

end Cllm.Heap
