import Cllm.Heap.Runs

namespace Cllm.Heap

open ByteMemory HeapState

/-- The call cuts a block in place. -/
def Shrinks (s : State) : Call → Prop
  | .realloc p n => p≠0 ∧ 0<n ∧ n<s.heap.size (header p)
  | _ => False

instance (s : State) : (c : Call) → Decidable (Shrinks s c)
  | .realloc p n => inferInstanceAs (Decidable (p≠0 ∧ 0<n ∧ n<s.heap.size (header p)))
  | .malloc _ => inferInstanceAs (Decidable False)
  | .free _ => inferInstanceAs (Decidable False)
  | .write _ _ => inferInstanceAs (Decidable False)

/-- The bytes of the heap. -/
def region (arena : Arena) : Set Nat := Set.Ico arena.base (arena.base+heapSize)

/-- The byte is in a block of a client. -/
def InLive (s : State) (x : Nat) : Prop :=
  ∃ p∈s.live,header p≤x ∧ x<header p+headerSize+s.heap.size (header p)

/-- A stretch of the heap without a byte of the clients, and with one at either end. -/
structure MaximalGap (arena : Arena) (s : State) (a b : Nat) : Prop where
  low : arena.base≤a
  nonempty : a<b
  high : b≤arena.base+heapSize
  uncovered : ∀ x,a≤x → x<b → ¬InLive s x
  left : a=arena.base ∨ InLive s (a-1)
  right : b=arena.base+heapSize ∨ InLive s b

/-- The free blocks and those of the clients make up the heap, and no two free ones touch. -/
structure Tiled (arena : Arena) (s : State) (bs : List Nat) : Prop extends
    WellKept arena s bs where
  tile : ∀ x∈region arena,
    ∃! b,b∈bs++s.live.map header ∧ b≤x ∧ x<b+headerSize+s.heap.size b
  merged : ∀ b∈bs,∀ c∈bs,b+headerSize+s.heap.size b≠c

/-- All of the heap is one free block. -/
def Whole (arena : Arena) (s : State) : Prop :=
  s.freeBlocks=some [arena.base] ∧ s.heap.size arena.base=heapSize-headerSize

section Covered

variable {arena : Arena} {s : State} {P : Pool Nat}

/-- A call that does not shrink a block loses no byte, and one that does loses some. -/
theorem Served.covered {c : Call} {s' : State} {outs : List Outcome} {P' : Pool Nat}
    (h : Served s P c s' outs P') (hs : Stands arena s P) :
    Extent.covered P'.all⊆Extent.covered P.all ∧
      (Extent.covered P'.all=Extent.covered P.all ↔ ¬Shrinks s c) := by
  have kept {X : Set Nat} (he : X=Extent.covered P.all) (hno : ¬Shrinks s c) :
      X⊆Extent.covered P.all ∧ (X=Extent.covered P.all ↔ ¬Shrinks s c) :=
    ⟨he.subset,fun _ => hno,fun _ => he⟩
  have requests {n : Nat} (hr : Requests c n) : ¬Shrinks s c := by
    rcases hr with rfl|rfl
    · exact id
    · exact fun h => h.1 rfl
  have held {e : Block} (he : e∈P.live) : pointer e+s.heap.size (header (pointer e))=e.stop :=
    hs.pointer_size he
  cases h with
  | nothing hr => exact kept rfl (requests hr)
  | exhausted hr => exact kept rfl (requests hr)
  | allocated hr hn htakes => exact kept htakes.covered_all (requests hr)
  | freeNull => exact kept rfl id
  | freed hr he =>
    refine kept (Pool.covered_release hs.heap.sound he) ?_
    rcases hr with ⟨rfl,-⟩|⟨rfl,-⟩
    · exact id
    · exact fun h => absurd h.2.1 (lt_irrefl 0)
  | @resized n e h' he hn hle =>
    have hc := Pool.covered_trim (by rw [pointer]; omega : e.start<pointer e+n) hs.heap.sound he hle
    rw [hc]
    refine ⟨Set.sdiff_subset,?_⟩
    have hcut : Shrinks s (.realloc (pointer e) n) ↔ pointer e+n<e.stop := by
      constructor
      · rintro ⟨-,-,hlt⟩
        have := held he
        omega
      · intro hlt
        have := held he
        exact ⟨pointer_ne_zero hs he,hn,by omega⟩
    rw [hcut,sdiff_eq_left]
    constructor
    · intro hd hlt
      have hmem : pointer e+n∈Extent.covered P.all :=
        ⟨e,List.mem_append_right _ he,by rw [pointer]; omega,hlt⟩
      exact Set.disjoint_left.mp hd hmem ⟨le_rfl,hlt⟩
    · intro hno
      rw [Set.Ico_eq_empty (by omega)]
      exact Set.disjoint_empty _
  | refused he hn hlt =>
    refine kept rfl ?_
    rintro ⟨-,-,hm⟩
    have := held he
    omega
  | @moved n e a h' Q he hlt htakes =>
    have ha : e∈Q.live := by rw [htakes.mem]; exact .tail _ he
    refine kept ((Pool.covered_release (htakes.sound hs.heap.sound) ha).trans
      htakes.covered_all) ?_
    rintro ⟨-,-,hm⟩
    have := held he
    omega
  | written => exact kept rfl id

/-- In a run the bytes in blocks get no more, and stay the same just if nothing shrinks. -/
theorem covered_run {calls : List Call} (hs : Stands arena s P)
    (h : Machine.Along (step arena) Regular s calls) :
    ∃ P',Stands arena (Machine.runState (step arena) s calls) P' ∧
      Extent.covered P'.all⊆Extent.covered P.all ∧
      (Extent.covered P'.all=Extent.covered P.all ↔
        Machine.Along (step arena) (fun s c => ¬Shrinks s c) s calls) := by
  induction calls generalizing s P with
  | nil => exact ⟨P,hs,subset_rfl,fun _ => trivial,fun _ => rfl⟩
  | cons c calls ih =>
    obtain ⟨P1,hserved,hs1⟩ := (Regular.sizable h.1).served hs
    obtain ⟨hsub1,hiff1⟩ := hserved.covered hs
    obtain ⟨P',hs',hsub,hiff⟩ := ih hs1 h.2
    refine ⟨P',hs',hsub.trans hsub1,?_⟩
    rw [Machine.Along,← hiff1,← hiff]
    constructor
    · intro he
      have he1 : Extent.covered P1.all=Extent.covered P.all :=
        hsub1.antisymm (he ▸ hsub)
      exact ⟨he1,he.trans he1.symm⟩
    · rintro ⟨he1,he⟩
      exact he.trans he1

theorem covered_initial (arena : Arena) :
    Extent.covered (Pool.all ⟨[wholeArena arena],[]⟩)=region arena := by
  rw [Pool.all,List.append_nil,Extent.covered_cons,Extent.covered_nil,Set.union_empty]
  rfl

end Covered

section Tiles

variable {arena : Arena} {s : State} {P : Pool Nat}

theorem Stands.inLive (hs : Stands arena s P) {x : Nat} :
    InLive s x ↔ x∈Extent.covered P.live := by
  constructor
  · rintro ⟨p,hp,hlow,hhigh⟩
    obtain ⟨e,he,rfl⟩ := hs.mem_live.mp hp
    have hsize := hs.size (List.mem_append_right P.free he)
    rw [header_pointer] at hlow hhigh
    exact ⟨e,he,hlow,hsize ▸ hhigh⟩
  · rintro ⟨e,he,hlow,hhigh⟩
    have hsize := hs.size (List.mem_append_right P.free he)
    refine ⟨pointer e,hs.mem_live.mpr ⟨e,he,rfl⟩,?_⟩
    rw [header_pointer,hsize]
    exact ⟨hlow,hhigh⟩

/-- A byte of the heap that no client has is free. -/
theorem free_or_live (hc : Extent.covered P.all=region arena) {x : Nat} (hx : x∈region arena)
    (hno : x∉Extent.covered P.live) : x∈Extent.covered P.free := by
  rw [← hc,Pool.all,Extent.covered_append] at hx
  exact hx.resolve_right hno

/-- When no byte is lost, blocks tile the heap. -/
theorem Stands.tiled (hs : Stands arena s P) (hc : Extent.covered P.all=region arena) :
    Tiled arena s (P.free.map Extent.start) := by
  refine {toWellKept := hs.wellKept,tile := fun x hx => ?_,merged := ?_}
  · rw [hs.headers]
    rw [← hc] at hx
    obtain ⟨e,he,hlow,hhigh⟩ := hx
    refine ⟨e.start,⟨List.mem_map_of_mem he,hlow,hs.size he ▸ hhigh⟩,?_⟩
    rintro b ⟨hb,hblow,hbhigh⟩
    obtain ⟨f,hf,rfl⟩ := List.mem_map.mp hb
    rw [hs.size hf] at hbhigh
    by_contra hne
    rcases Pool.apart_or_eq hs.heap.sound.apart he hf with h|h
    · exact hne (h ▸ rfl)
    · exact Set.disjoint_left.mp (Extent.apart_iff_disjoint.mp h) ⟨hlow,hhigh⟩ ⟨hblow,hbhigh⟩
  · intro b hb c hc' hbc
    obtain ⟨e,he,rfl⟩ := List.mem_map.mp hb
    obtain ⟨f,hf,rfl⟩ := List.mem_map.mp hc'
    rw [hs.size (List.mem_append_left _ he)] at hbc
    have hp := e.proper
    have hp' := f.proper
    rcases Extent.separated_mem hs.heap.sound.separated he hf with rfl|hb|hb
    · omega
    · have hb' : e.stop<f.start := hb
      omega
    · have hb' : f.stop<e.start := hb
      omega

/-- A free block has bytes of clients on either side, or the end of the heap. -/
theorem Stands.maximalGap (hs : Stands arena s P) (hc : Extent.covered P.all=region arena)
    {e : Block} (he : e∈P.free) : MaximalGap arena s e.start e.stop := by
  have hin := hs.inArena (List.mem_append_left P.live he)
  have hlow := hin.low
  have hhigh := hin.high
  have hbase := arena.base_pos
  have hp := e.proper
  have hsep {f : Block} (hf : f∈P.free) := Extent.separated_mem hs.heap.sound.separated he hf
  refine ⟨hlow,hp,hhigh,fun x hx hx' hlive => ?_,?_,?_⟩
  · obtain ⟨f,hf,hxf⟩ := hs.inLive.mp hlive
    exact Set.disjoint_left.mp
      (Extent.apart_iff_disjoint.mp (hs.heap.sound.free_live he hf)) ⟨hx,hx'⟩ hxf
  · by_cases hb : e.start=arena.base
    · exact .inl hb
    · right
      rw [hs.inLive]
      by_contra hno
      obtain ⟨f,hf,hf1,hf2⟩ := free_or_live hc
        (⟨by omega,by omega⟩ : e.start-1∈region arena) hno
      have hpf := f.proper
      rcases hsep hf with rfl|hb|hb
      · omega
      · have hb' : e.stop<f.start := hb
        omega
      · have hb' : f.stop<e.start := hb
        omega
  · by_cases hb : e.stop=arena.base+heapSize
    · exact .inl hb
    · right
      rw [hs.inLive]
      by_contra hno
      obtain ⟨f,hf,hf1,hf2⟩ := free_or_live hc
        (⟨by omega,by omega⟩ : e.stop∈region arena) hno
      have hpf := f.proper
      rcases hsep hf with rfl|hb|hb
      · omega
      · have hb' : e.stop<f.start := hb
        omega
      · have hb' : f.stop<e.start := hb
        omega

/-- Nothing free is large enough just if no stretch without bytes of clients is. -/
theorem Stands.full_iff (hs : Stands arena s P) (hc : Extent.covered P.all=region arena)
    (n : Nat) : Full P n ↔ ∀ a b,MaximalGap arena s a b → b-a<headerSize+alignSize n := by
  constructor
  · intro hfull a b hgap
    have hsub : Set.Ico a b⊆Extent.covered P.free := by
      intro x hx
      have hl := hgap.low
      have hh := hgap.high
      refine free_or_live hc ⟨hl.trans hx.1,hx.2.trans_le hh⟩ fun hlive => ?_
      exact hgap.uncovered x hx.1 hx.2 (hs.inLive.mpr hlive)
    obtain ⟨e,he,hstart,hstop⟩ :=
      Extent.subset_range_of_separated hs.heap.sound.separated hgap.nonempty hsub
    have hlt := hfull e he
    have hab := hgap.nonempty
    omega
  · intro hall e he
    have hlt := hall _ _ (hs.maximalGap hc he)
    have hp := e.proper
    omega

theorem Stands.malloc_null (hs : Stands arena s P) {n : Nat} (hn : n≠0) :
    (step arena s (.malloc n)).2=[.returned 0] ↔ Full P n := by
  obtain ⟨P',hserved,hs'⟩ := serves_malloc hs (c := .malloc n) (.inl rfl)
  generalize (step arena s (.malloc n)).1=s' at hserved hs'
  generalize (step arena s (.malloc n)).2=outs at hserved
  have same {m : Nat} (hr : Requests (.malloc n) m) : m=n := hr.asks (.inl rfl)
  cases hserved with
  | nothing hr => exact absurd (same hr).symm hn
  | exhausted hr hm full => exact ⟨fun _ => same hr ▸ full,fun _ => rfl⟩
  | @allocated _ m a h' P' hr hm htakes hroom frame =>
    obtain rfl := same hr
    have ha : a∈P'.live := by rw [htakes.mem]; exact .head _
    refine ⟨fun hz => ?_,fun hfull => absurd hfull (takes_room htakes hroom)⟩
    have hne := pointer_ne_zero hs' ha
    simp only [List.cons.injEq,Outcome.returned.injEq] at hz
    exact absurd hz.1 hne
  | freed hr => rcases hr with ⟨h,-⟩|⟨h,-⟩ <;> cases h

/-- When no byte is lost and the clients have none, the heap is whole. -/
theorem Stands.whole (hs : Stands arena s P) (hc : Extent.covered P.all=region arena)
    (hl : s.live=[]) : Whole arena s := by
  have hlive : P.live=[] := List.map_eq_nil_iff.mp (hs.live.symm.trans hl)
  have hfree : Extent.covered P.free=region arena := by
    rw [← hc,Pool.all,hlive,List.append_nil]
  have hheap : heapSize=4194304 := rfl
  have hsize := headerSize_eq
  obtain ⟨e,he,hstart,hstop⟩ := Extent.subset_range_of_separated hs.heap.sound.separated
    (by omega : arena.base<arena.base+heapSize) hfree.superset
  have inside {f : Block} (hf : f∈P.free) := hs.inArena (List.mem_append_left P.live hf)
  have hlow := (inside he).low
  have hhigh := (inside he).high
  have only {f : Block} (hf : f∈P.free) : f=e := by
    have hp := f.proper
    have hl := (inside hf).low
    have hh := (inside hf).high
    rcases Extent.separated_mem hs.heap.sound.separated he hf with rfl|hb|hb
    · rfl
    · have hb' : e.stop<f.start := hb
      omega
    · have hb' : f.stop<e.start := hb
      omega
  have hsingle : P.free=[e] := by
    cases hP : P.free with
    | nil => rw [hP] at he; cases he
    | cons f fs =>
      have hf : f=e := only (by rw [hP]; exact .head _)
      cases fs with
      | nil => rw [hf]
      | cons g gs =>
        have hg : g=e := only (by rw [hP]; exact .tail _ (.head _))
        have hb := hs.heap.sound.separated
        rw [hP,hf,hg] at hb
        have hb' : e.stop<e.start := (List.pairwise_cons.mp hb).1 e (.head _)
        have hp := e.proper
        omega
  have hbase : e.start=arena.base := by omega
  have hrec := hs.size (List.mem_append_left P.live he)
  refine ⟨?_,?_⟩
  · rw [hs.freeBlocks,hsingle]
    exact congrArg (fun b => some [b]) hbase
  · rw [← hbase]
    omega

/-- A whole heap has lost nothing. -/
theorem Stands.covered_of_whole (hs : Stands arena s P) (hw : Whole arena s) (hl : s.live=[]) :
    Extent.covered P.all=region arena := by
  have hlive : P.live=[] := List.map_eq_nil_iff.mp (hs.live.symm.trans hl)
  obtain ⟨hlist,hsize⟩ := hw
  have hmap := Option.some.inj (hs.freeBlocks.symm.trans hlist)
  obtain ⟨e,hP,hstart⟩ := List.map_eq_singleton_iff.mp hmap
  have he : e∈P.all := List.mem_append_left _ (by rw [hP]; exact .head _)
  have hrec := hs.size he
  rw [hstart,hsize] at hrec
  have hheap : heapSize=4194304 := rfl
  have hheader := headerSize_eq
  have hstop : e.stop=arena.base+heapSize := by omega
  rw [Pool.all,hlive,hP,List.append_nil,Extent.covered_cons,Extent.covered_nil,Set.union_empty,
    Extent.range,hstart,hstop,region]

end Tiles

theorem alignSize_of_modest {n : Nat} (hpos : 1≤n) (hn : n≤2^32-8) : alignSize n=(n+7)/8*8 := by
  have hw : wrap (n+7)=n+7 := wrap_of_lt (by omega)
  rcases alignSize_cases n with ⟨hz,-⟩|⟨-,he⟩
  · omega
  · rw [he,hw]

/-- Without a shrinking realloc the blocks tile the heap after every call; malloc fails just when
no stretch that the clients leave is long enough; and when they have given everything back, the
heap is one free block again. -/
theorem run_tiled (arena : Arena) (mem : Memory) (calls : List Call)
    (h : Machine.Along (step arena) (fun s c => Regular s c ∧ ¬Shrinks s c)
      (initial arena mem) calls) :
    (∃ bs,Tiled arena (run arena mem calls) bs) ∧
      (∀ n,1≤n → n≤2^32-8 →
        ((step arena (run arena mem calls) (.malloc n)).2=[.returned 0] ↔
          ∀ a b,MaximalGap arena (run arena mem calls) a b → b-a<headerSize+(n+7)/8*8)) ∧
      ((run arena mem calls).live=[] → Whole arena (run arena mem calls)) := by
  obtain ⟨P,hs,-,hiff⟩ := covered_run (stands_initial arena mem) (h.mono _ fun _ _ h => h.1)
  have hc := hiff.mpr (h.mono _ fun _ _ h => h.2)
  rw [covered_initial] at hc
  refine ⟨⟨_,hs.tiled hc⟩,fun n hpos hn => ?_,hs.whole hc⟩
  rw [hs.malloc_null (by omega),hs.full_iff hc,alignSize_of_modest hpos hn]

/-- Three blocks, of which the second goes. -/
def gap : List Call := [.malloc 100,.malloc 5,.malloc 9,.free 4232]

theorem run_tiled_gap :
    (∃ bs,Tiled lowArena (run lowArena zeros gap) bs) ∧
      (∀ n,1≤n → n≤2^32-8 →
        ((step lowArena (run lowArena zeros gap) (.malloc n)).2=[.returned 0] ↔
          ∀ a b,MaximalGap lowArena (run lowArena zeros gap) a b →
            b-a<headerSize+(n+7)/8*8)) ∧
      ((run lowArena zeros gap).live=[] → Whole lowArena (run lowArena zeros gap)) :=
  run_tiled lowArena zeros gap (by decide)

/-- When all blocks are freed at the end, the heap is whole just if no realloc in the run has cut
a block in place. -/
theorem whole_iff (arena : Arena) (mem : Memory) (calls : List Call)
    (h : Machine.Along (step arena) Regular (initial arena mem) calls)
    (hl : (run arena mem calls).live=[]) :
    Whole arena (run arena mem calls) ↔
      Machine.Along (step arena) (fun s c => ¬Shrinks s c) (initial arena mem) calls := by
  obtain ⟨P,hs,-,hiff⟩ := covered_run (stands_initial arena mem) h
  rw [← hiff,covered_initial]
  exact ⟨fun hw => hs.covered_of_whole hw hl,fun hc => hs.whole hc hl⟩

theorem whole_iff_moved : Whole lowArena (run lowArena zeros [.malloc 5,.realloc 4112 9,.free 4136]) ↔
    Machine.Along (step lowArena) (fun s c => ¬Shrinks s c) (initial lowArena zeros)
      [.malloc 5,.realloc 4112 9,.free 4136] :=
  whole_iff lowArena zeros _ (by decide) (by decide +kernel)

/-- A block of 100 bytes is cut to 3 and freed; the rest of it does not come back. -/
theorem shrunk_counterexample : ¬∀ (arena : Arena) (mem : Memory) (calls : List Call),
    Machine.Along (step arena) Regular (initial arena mem) calls →
    (run arena mem calls).live=[] → Whole arena (run arena mem calls) := by
  intro h
  have hw := h lowArena zeros [.malloc 100,.realloc 4112 3,.free 4112] (by decide)
    (by decide)
  have hlist : (run lowArena zeros [.malloc 100,.realloc 4112 3,.free 4112]).freeBlocks=
      some [4096,4216] := by decide
  cases hlist.symm.trans hw.1

end Cllm.Heap
