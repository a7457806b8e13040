import Cllm.Heap.Runs

namespace Cllm.Heap

open ByteMemory HeapState

/-- The pointer that is handed back with a call. -/
def Call.target : Call → Option Nat
  | .free p => some p
  | .realloc p _ => some p
  | _ => none

/-- A call of the allocator, not a write of a client. -/
def Call.allocates : Call → Bool
  | .write _ _ => false
  | _ => true

/-- The block behind the pointer has the size it had and the bytes it had. -/
def Preserved (s s' : State) (p : Nat) : Prop :=
  s'.heap.size (header p)=s.heap.size (header p) ∧
    ∀ i < s.heap.size (header p),s'.heap.mem (p+i)=s.heap.mem (p+i)

section Contents

variable {arena : Arena} {s s' : State} {P P' : Pool Nat} {c : Call} {outs : List Outcome}

/-- A block that is not touched is preserved. -/
theorem preserved_of_untouched (hs : Stands arena s P) {f : Block} (hf : f∈P.live)
    (hu : Untouched s.heap s'.heap f) : Preserved s s' (pointer f) := by
  have hsize := hs.pointer_size hf
  have hroom : f.start+headerSize<f.stop := (hs.heap.inArena f hf).roomy
  have hw : Agree s.heap.mem s'.heap.mem f.start (f.start+4) := by
    intro x hx hx'
    have hheader := headerSize_eq
    exact hu x ⟨hx,by omega⟩
  refine ⟨?_,fun i hi => hu _ ⟨by rw [pointer]; omega,by omega⟩⟩
  rw [header_pointer]
  exact hw.loadWord

/-- Blocks other than the one that is handed back are preserved by calls of the allocator. -/
theorem Served.preserved (h : Served s P c s' outs P') (hs : Stands arena s P)
    (ha : c.allocates=true) {p : Nat} (hp : p∈s.live) (ht : c.target≠some p) :
    Preserved s s' p := by
  obtain ⟨f,hf,rfl⟩ := hs.mem_live.mp hp
  have other {e : Block} (hne : pointer e≠pointer f) : f.start≠e.start := fun hno =>
    hne (by rw [pointer,pointer,hno])
  refine preserved_of_untouched hs hf ?_
  cases h with
  | nothing => exact fun _ _ => rfl
  | exhausted => exact fun _ _ => rfl
  | allocated hr hn htakes hroom frame => exact frame f hf
  | freeNull => exact fun _ _ => rfl
  | freed hr he frame =>
    refine frame f hf (other fun hno => ?_)
    rcases hr with ⟨rfl,-⟩|⟨rfl,-⟩
    · exact ht (congrArg some hno)
    · exact ht (congrArg some hno)
  | @resized n e h' he hn hle head frame =>
    intro x hx
    have hd := Extent.apart_iff_disjoint.mp (hs.heap.sound.apart_of_start_ne he hf
      (other fun hno => ht (congrArg some hno)))
    refine frame.mem x fun hx' => Set.disjoint_left.mp hd hx ?_
    exact (hs.heap.inArena e he).roomy.header hx'
  | refused => exact fun _ _ => rfl
  | moved he hlt htakes hroom copied frame =>
    exact frame f hf (other fun hno => ht (congrArg some hno))
  | written => cases ha

/-- The block that a realloc returns begins with what was in the old one, as far as both go. -/
theorem Served.carries {p n q : Nat} (h : Served s P (.realloc p n) s' outs P')
    (hs : Stands arena s P) (hp : p∈s.live) (hn : 0<n) (ho : outs=[.returned q]) (hq : q≠0) :
    ∀ i < min (s.heap.size (header p)) n,s'.heap.mem (q+i)=s.heap.mem (p+i) := by
  have hp0 : p≠0 := hs.live_ne_zero hp
  cases h with
  | nothing hr => exact absurd hr.null hp0
  | exhausted hr => exact absurd hr.null hp0
  | allocated hr => exact absurd hr.null hp0
  | freed hr =>
    rcases hr with ⟨hr,-⟩|⟨hr,-⟩
    · cases hr
    · have hz := (Call.realloc.inj hr).2
      omega
  | @resized _ e h' he hn hle head frame =>
    cases ho
    intro i hi
    exact frame.mem _ fun hx => absurd hx.2 (Nat.le_add_right _ _).not_gt
  | refused => cases ho; exact absurd rfl hq
  | @moved _ e a h' Q he hlt htakes hroom copied frame =>
    cases ho
    intro i hi
    have hsize := hs.pointer_size he
    exact copied i (by omega)

/-- A realloc that fails changes nothing. -/
theorem Served.fails {p n : Nat} (h : Served s P (.realloc p n) s' outs P')
    (hs : Stands arena s P) (hs' : Stands arena s' P') (hp : p∈s.live) (hn : 0<n)
    (ho : outs=[.returned 0]) : s'=s := by
  have hp0 : p≠0 := hs.live_ne_zero hp
  cases h with
  | nothing hr => rfl
  | exhausted hr => rfl
  | allocated hr => exact absurd hr.null hp0
  | freed hr =>
    rcases hr with ⟨hr,-⟩|⟨hr,-⟩
    · cases hr
    · have hz := (Call.realloc.inj hr).2
      omega
  | @resized _ e h' he hn hle head frame =>
    simp only [List.cons.injEq,Outcome.returned.injEq] at ho
    exact absurd ho.1 hp0
  | refused => rfl
  | @moved _ e a h' Q he hlt htakes hroom copied frame =>
    simp only [List.cons.injEq,Outcome.returned.injEq] at ho
    have ha : pointer a∈pointer a::s.drop (pointer e) := .head _
    exact absurd ho.1 (hs'.live_ne_zero ha)

end Contents

/-- In every run of regular calls, in which clients write only to their own blocks, a further call
preserves all other blocks; a realloc that succeeds keeps the contents as far as they fit, and
one that fails changes nothing. -/
theorem run_contents (arena : Arena) (mem : Memory) (calls : List Call) (c : Call)
    (h : Machine.Along (step arena) Regular (initial arena mem) (calls++[c])) :
    (c.allocates=true → ∀ p∈(run arena mem calls).live,c.target≠some p →
      Preserved (run arena mem calls) (run arena mem (calls++[c])) p) ∧
      ∀ p n,c=.realloc p n → p∈(run arena mem calls).live → 0<n →
        (∀ q,(step arena (run arena mem calls) c).2=[.returned q] → q≠0 →
          ∀ i < min ((run arena mem calls).heap.size (header p)) n,
            (run arena mem (calls++[c])).heap.mem (q+i)=
              (run arena mem calls).heap.mem (p+i)) ∧
          ((step arena (run arena mem calls) c).2=[.returned 0] →
            run arena mem (calls++[c])=run arena mem calls) := by
  rw [Machine.along_append] at h
  obtain ⟨P,hs⟩ := run_stands (h.1.mono _ fun _ _ => Regular.sizable)
  obtain ⟨P',hserved,hs'⟩ := (Regular.sizable h.2.1).served hs
  have hrun : run arena mem (calls++[c])=(step arena (run arena mem calls) c).1 :=
    Machine.runState_append (step arena) _ calls [c]
  rw [hrun]
  refine ⟨fun ha p hp ht => hserved.preserved hs ha hp ht,?_⟩
  rintro p n rfl hp hn
  exact ⟨fun q ho hq => hserved.carries hs hp hn ho hq,fun ho => hserved.fails hs hs' hp hn ho⟩

/-- Two blocks, with a byte written to each. -/
def filled : List Call := [.malloc 100,.malloc 5,.write 4115 7,.write 4233 8]

/-- The second one is moved, with what was written to it. -/
theorem run_contents_moved :
    (run lowArena zeros (filled++[.realloc 4232 40])).heap.mem (4256+1)=
      (run lowArena zeros filled).heap.mem (4232+1) :=
  ((run_contents lowArena zeros filled (.realloc 4232 40) (by decide)).2 4232 40 rfl
    (by decide) (by decide)).1 4256 (by decide +kernel) (by decide) 1 (by decide +kernel)

end Cllm.Heap
