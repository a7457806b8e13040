import Cllm.Heap.Service

namespace Cllm.Heap

open ByteMemory HeapState

abbrev run (arena : Arena) (mem : Memory) (calls : List Call) : State :=
  Machine.runState (step arena) (initial arena mem) calls

abbrev outcomes (arena : Arena) (mem : Memory) (calls : List Call) : List Outcome :=
  Machine.outputs (step arena) (initial arena mem) calls

/-- The calls of clients that keep to the rules and ask for at most 2^32 - 8 bytes. -/
abbrev Regular (s : State) (c : Call) : Prop := Valid s c ∧ Modest c

/-- The size that a call asks for. -/
def Asks (c : Call) (n : Nat) : Prop := c=.malloc n ∨ ∃ p,c=.realloc p n

/-- No free block has as much as 8 bytes. -/
def NoRoom (s : State) : Prop := ∀ bs,s.freeBlocks=some bs → ∀ b∈bs,s.heap.size b<8

/-- A pointer that the call returns is to a block of at least so many bytes. -/
def Sized (arena : Arena) (s : State) (c : Call) (n : Nat) : Prop :=
  ∀ p,(step arena s c).2=[.returned p] → p≠0 → n≤(step arena s c).1.heap.size (header p)

/-- Calls by the rules that ask for a size_t of at most 2^32 - 8, or for more when there is no
room anyway. -/
def Sizable (s : State) (c : Call) : Prop :=
  Valid s c ∧ ∀ n,Asks c n → n<2^32 ∧ (n≤2^32-8 ∨ NoRoom s)

section Sizes

variable {arena : Arena} {s : State} {P : Pool Nat} {n : Nat}

/-- The sizes at the top wrap to 0, for which malloc takes 8. -/
theorem alignSize_wraps (h : 2^32-8<n) (hn : n<2^32) : alignSize n=8 := by
  refine if_pos ?_
  rw [wrap]
  omega

theorem Stands.full_iff_noRoom (hs : Stands arena s P) (h : 2^32-8<n) (hn : n<2^32) :
    Full P n ↔ NoRoom s := by
  have hlist := hs.freeBlocks
  have hsize {e : Block} (he : e∈P.free) := hs.size (List.mem_append_left P.live he)
  rw [Full,NoRoom,alignSize_wraps h hn]
  constructor
  · intro hfull bs hbs b hb
    obtain rfl := Option.some.inj (hlist.symm.trans hbs)
    obtain ⟨e,he,rfl⟩ := List.mem_map.mp hb
    have h1 := hfull e he
    have h2 := hsize he
    omega
  · intro hno e he
    have h1 := hno _ hlist e.start (List.mem_map_of_mem he)
    have h2 := hsize he
    omega

theorem Sizable.served {c : Call} (hc : Sizable s c) (hs : Stands arena s P) :
    ∃ P',Served s P c (step arena s c).1 (step arena s c).2 P' ∧
      Stands arena (step arena s c).1 P' := by
  refine step_served hs hc.1 fun p n he => ?_
  obtain ⟨hn,hm|hno⟩ := hc.2 n (.inr ⟨p,he⟩)
  · exact .inl hm
  · by_cases hm : n≤2^32-8
    · exact .inl hm
    · exact .inr ((hs.full_iff_noRoom (Nat.lt_of_not_le hm) hn).mpr hno)

theorem Requests.asks {c : Call} {m : Nat} (hr : Requests c m) (ha : Asks c n) : m=n := by
  rcases hr with rfl|rfl
  · rcases ha with h|⟨p,h⟩
    · exact Call.malloc.inj h
    · cases h
  · rcases ha with h|⟨p,h⟩
    · cases h
    · exact (Call.realloc.inj h).2

theorem takes_room {P' : Pool Nat} {a : Block} (htakes : P.Takes a P')
    (hroom : pointer a+alignSize n≤a.stop) : ¬Full P n := by
  intro hfull
  obtain ⟨e,he,hstart,hstop⟩ := takes_from htakes
  have := hfull e he
  rw [pointer] at hroom
  omega

/-- A block that a call returns is as large as was asked for. -/
theorem Sizable.sized {c : Call} (hc : Sizable s c) (hs : Stands arena s P) (ha : Asks c n)
    (hpos : 0<n) : Sized arena s c n := by
  obtain ⟨P',hserved,hs'⟩ := hc.served hs
  obtain ⟨hn,hm⟩ := hc.2 n ha
  have large {a : Block} {Q : Pool Nat} (htakes : P.Takes a Q)
      (hroom : pointer a+alignSize n≤a.stop) : n≤alignSize n := by
    by_cases hle : n≤2^32-8
    · exact le_alignSize hle
    · have hfull := (hs.full_iff_noRoom (Nat.lt_of_not_le hle) hn).mpr (hm.resolve_left hle)
      exact absurd hfull (takes_room htakes hroom)
  have recorded {a : Block} (hin : a∈P'.live) (hroom : pointer a+n≤a.stop) :
      n≤(step arena s c).1.heap.size (header (pointer a)) := by
    have hsize := hs'.pointer_size hin
    omega
  intro p hp hp0
  generalize (step arena s c).1=s' at hserved hs' recorded ⊢
  generalize (step arena s c).2=outs at hserved hp
  cases hserved with
  | nothing hr => cases hp; exact absurd rfl hp0
  | exhausted hr hn full => cases hp; exact absurd rfl hp0
  | allocated hr hn htakes hroom frame =>
    obtain rfl := hr.asks ha
    cases hp
    have hlarge := large htakes hroom
    exact recorded (by rw [htakes.mem]; exact .head _) (by omega)
  | freeNull => cases hp
  | freed hr =>
    rcases hr with ⟨-,rfl⟩|⟨-,rfl⟩
    · cases hp
    · cases hp
      exact absurd rfl hp0
  | resized he hpos hle head frame =>
    cases hp
    rcases ha with h|⟨p,h⟩
    · cases h
    · obtain rfl := (Call.realloc.inj h).2
      have hsize := hs'.pointer_size (List.mem_map_of_mem he)
      rw [if_pos rfl] at hsize
      exact (Nat.add_left_cancel hsize).ge
  | refused => cases hp; exact absurd rfl hp0
  | @moved m e a h' Q he hlt htakes hroom copied frame =>
    cases hp
    rcases ha with h|⟨p,h⟩
    · cases h
    · obtain rfl := (Call.realloc.inj h).2
      have hlarge := large htakes hroom
      have ha1 : a∈Q.live := by rw [htakes.mem]; exact .head _
      have hne : a.start≠e.start := by
        have hl := (htakes.sound hs.heap.sound).live_apart
        rw [htakes.mem] at hl
        exact ((List.pairwise_cons.mp hl).1 e he).start_ne
      exact recorded (List.mem_filter.mpr ⟨ha1,by simpa using hne⟩) (by omega)
  | written => cases hp

theorem Regular.sizable {c : Call} (hc : Regular s c) : Sizable s c := by
  refine ⟨hc.1,fun n ha => ?_⟩
  have hm : n≤2^32-8 := by
    rcases ha with rfl|⟨p,rfl⟩
    · exact hc.2
    · exact hc.2
  exact ⟨by omega,.inl hm⟩

/-- In every run of such calls the heap stands for some pool. -/
theorem run_stands {mem : Memory} {calls : List Call}
    (h : Machine.Along (step arena) Sizable (initial arena mem) calls) :
    ∃ P,Stands arena (run arena mem calls) P :=
  Machine.invariant_along (step arena) (fun s => ∃ P,Stands arena s P)
    (fun _ _ ⟨_,hs⟩ hc => (hc.served hs).imp fun _ h => h.2) ⟨_,stands_initial arena mem⟩ h

/-- A malloc whose size wraps, while there is room, returns less than was asked for. -/
theorem Stands.not_sized (hs : Stands arena s P) (h : 2^32-8<n) (hn : n<2^32)
    (hroom : ¬NoRoom s) : ¬Sized arena s (.malloc n) n := by
  intro hsized
  have hfull : ¬Full P n := fun hfull => hroom ((hs.full_iff_noRoom h hn).mp hfull)
  obtain ⟨P',hserved,hs'⟩ := serves_malloc hs (c := .malloc n) (.inl rfl)
  rw [Sized] at hsized
  generalize (step arena s (.malloc n)).1=s' at hserved hs' hsized
  generalize (step arena s (.malloc n)).2=outs at hserved hsized
  have same {m : Nat} (hr : Requests (.malloc n) m) : m=n := hr.asks (.inl rfl)
  cases hserved with
  | nothing hr =>
    have hz := same hr
    omega
  | exhausted hr hn full => exact hfull (same hr ▸ full)
  | @allocated _ m a h' P' hr hm htakes hroom frame =>
    have hin : a∈P'.live := by rw [htakes.mem]; exact .head _
    have hle := hsized (pointer a) rfl (pointer_ne_zero hs' hin)
    have hsize := hs'.pointer_size hin
    have harena := (hs'.heap.inArena a hin).stop_lt
    have hheader := headerSize_eq
    simp only [pointer] at hle hsize
    have hlow := (hs'.heap.inArena a hin).start_pos
    omega
  | freed hr => rcases hr with ⟨h,-⟩|⟨h,-⟩ <;> cases h

end Sizes

/-- The free list ends, goes up, and has exactly the free ones among its blocks and those of the
clients, and all these lie apart in the heap. -/
structure WellKept (arena : Arena) (s : State) (bs : List Nat) : Prop where
  listed : s.freeBlocks=some bs
  increasing : bs.Pairwise (·<·)
  exactly : ∀ b∈bs++s.live.map header,b∈bs ↔ s.heap.isFree b≠0
  aligned : ∀ b∈bs++s.live.map header,8∣b-arena.base
  inside : ∀ b∈bs++s.live.map header,arena.base≤b ∧
    b+headerSize+s.heap.size b≤arena.base+heapSize
  disjoint : (bs++s.live.map header).Pairwise fun b c =>
    b+headerSize+s.heap.size b≤c ∨ c+headerSize+s.heap.size c≤b

section Runs

variable {arena : Arena} {s : State} {P : Pool Nat}

theorem Stands.headers (hs : Stands arena s P) :
    P.free.map Extent.start++s.live.map header=P.all.map Extent.start := by
  have hh : s.live.map header=P.live.map Extent.start := by
    rw [hs.live,List.map_map]
    exact List.map_congr_left fun e _ => header_pointer e
  rw [hh,Pool.all,List.map_append]

/-- A heap that stands for a pool is well kept. -/
theorem Stands.wellKept (hs : Stands arena s P) : WellKept arena s (P.free.map Extent.start) := by
  have hall := hs.headers
  refine ⟨hs.freeBlocks,?_,?_,?_,?_,?_⟩
  · rw [List.pairwise_map]
    exact hs.heap.sound.separated.imp fun {e f} h => e.proper.trans h
  · rw [hall]
    intro b hb
    obtain ⟨e,he,rfl⟩ := List.mem_map.mp hb
    constructor
    · intro hfree
      obtain ⟨f,hf,hfe⟩ := List.mem_map.mp hfree
      rw [← hfe,(hs.heap.freeList.headers f hf).flag]
      decide
    · intro hflag
      rcases List.mem_append.mp he with he|he
      · exact List.mem_map_of_mem he
      · rw [(hs.heap.headers e he).flag] at hflag
        exact absurd rfl hflag
  · rw [hall]
    intro b hb
    obtain ⟨e,he,rfl⟩ := List.mem_map.mp hb
    exact (hs.inArena he).aligned
  · rw [hall]
    intro b hb
    obtain ⟨e,he,rfl⟩ := List.mem_map.mp hb
    rw [hs.size he]
    exact ⟨(hs.inArena he).low,(hs.inArena he).high⟩
  · rw [hall,List.pairwise_map]
    refine hs.heap.sound.apart.imp_of_mem fun {e f} he hf h => ?_
    rw [hs.size he,hs.size hf]
    exact h

/-- No call goes on for ever. -/
theorem Served.returns {c : Call} {s' : State} {outs : List Outcome} {P' : Pool Nat}
    (h : Served s P c s' outs P') : .hangs∉outs := by
  cases h with
  | freed hc => rcases hc with ⟨-,rfl⟩|⟨-,rfl⟩ <;> simp
  | _ => simp

end Runs

/-- A heap at 4096, in a memory of zeros. -/
def lowArena : Arena := ⟨4096,by decide,by decide⟩
def zeros : Memory := fun _ => 0

/-- Two blocks are allocated and written to, one shrinks, the other grows, and both go. -/
def session : List Call :=
  [.malloc 100,.malloc 5,.write 4115 7,.realloc 4112 3,.realloc 4232 40,.free 4112,.free 4256]

/-- In a run of such calls, the block that a further call returns is as large as was asked for if
the size does not wrap or there is no room; for malloc, only then. -/
theorem run_sized (arena : Arena) (mem : Memory) (calls : List Call) (c : Call) (n : Nat)
    (h : Machine.Along (step arena) Sizable (initial arena mem) calls)
    (hv : Valid (run arena mem calls) c) (ha : Asks c n) (hpos : 1≤n) (hn : n<2^32) :
    (n≤2^32-8 ∨ NoRoom (run arena mem calls) → Sized arena (run arena mem calls) c n) ∧
      (c=.malloc n → Sized arena (run arena mem calls) c n →
        n≤2^32-8 ∨ NoRoom (run arena mem calls)) := by
  obtain ⟨P,hs⟩ := run_stands h
  refine ⟨fun hm => ?_,?_⟩
  · refine Sizable.sized ⟨hv,fun m ham => ?_⟩ hs ha hpos
    have hmn : m=n := by
      rcases ha with rfl|⟨p,rfl⟩
      · exact Requests.asks (.inl rfl) ham |>.symm
      · rcases ham with h|⟨q,h⟩
        · cases h
        · exact (Call.realloc.inj h).2.symm
    exact hmn ▸ ⟨hn,hm⟩
  · rintro rfl hsized
    by_contra hno
    rw [not_or] at hno
    exact hs.not_sized (Nat.lt_of_not_le hno.1) hn hno.2 hsized

theorem run_sized_session : Sized lowArena (run lowArena zeros session) (.malloc 100) 100 := by
  have hregular : Machine.Along (step lowArena) Regular (initial lowArena zeros) session := by
    decide
  exact (run_sized lowArena zeros session (.malloc 100) 100
    (hregular.mono _ fun _ _ => Regular.sizable) trivial (.inl rfl) (by decide) (by decide)).1
    (.inl (by decide))

/-- malloc(0xFFFFFFFF) returns a block of 8 bytes. -/
theorem wrapped_counterexample : ¬∀ (arena : Arena) (mem : Memory) (calls : List Call) (c : Call)
    (n : Nat),Machine.Along (step arena) Valid (initial arena mem) calls →
    Valid (run arena mem calls) c → Asks c n → 1≤n → n<2^32 →
    Sized arena (run arena mem calls) c n := by
  intro h
  have hsized := h lowArena zeros [] (.malloc 0xFFFFFFFF) 0xFFFFFFFF trivial trivial (.inl rfl)
    (by decide) (by decide)
  have hle := hsized 4112 (by decide) (by decide)
  have hsize : (step lowArena (run lowArena zeros []) (.malloc 0xFFFFFFFF)).1.heap.size
      (header 4112)=8 := by decide
  rw [hsize] at hle
  exact absurd hle (by decide)

end Cllm.Heap
