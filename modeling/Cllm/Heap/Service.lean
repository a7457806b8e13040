import Cllm.Framework.Machine
import Cllm.Heap.Refinement

namespace Cllm.Heap

open ByteMemory HeapState

/-- The pointer that malloc returns for a block, and the header that free finds for a pointer. -/
def pointer (e : Block) : Nat := e.start+headerSize
def header (p : Nat) : Nat := p-headerSize

@[simp] theorem header_pointer (e : Block) : header (pointer e)=e.start := Nat.add_sub_cancel _ _

/-- The state stands for a pool: the heap does, and the clients hold the pool's blocks. -/
structure Stands (arena : Arena) (s : State) (P : Pool Nat) : Prop where
  heap : Represents arena s.heap P
  live : s.live=P.live.map pointer

/-- The calls that clients may make, and the bytes that they may write. -/
def Valid (s : State) : Call → Prop
  | .malloc _ => True
  | .free p => p=0 ∨ p∈s.live
  | .realloc p _ => p=0 ∨ p∈s.live
  | .write address _ => ∃ p∈s.live,p≤address ∧ address<p+s.heap.size (header p)

/-- The request is not so large that rounding it up wraps. -/
def Modest : Call → Prop
  | .malloc n => n≤2^32-8
  | .realloc _ n => n≤2^32-8
  | _ => True

/-- The header addresses along the free list; `none` if it does not end in so many steps. -/
def freeBlocks (h : HeapState) : Nat → Nat → Option (List Nat)
  | 0,_ => none
  | fuel+1,p => if p=0 then some [] else (freeBlocks h fuel (h.next p)).map (p::·)

def State.freeBlocks (s : State) : Option (List Nat) :=
  Heap.freeBlocks s.heap rounds s.heap.freeListHead

instance (s : State) : (c : Call) → Decidable (Valid s c)
  | .malloc _ => inferInstanceAs (Decidable True)
  | .free p => inferInstanceAs (Decidable (p=0 ∨ p∈s.live))
  | .realloc p _ => inferInstanceAs (Decidable (p=0 ∨ p∈s.live))
  | .write address _ =>
    inferInstanceAs (Decidable (∃ p∈s.live,p≤address ∧ address<p+s.heap.size (header p)))

instance : (c : Call) → Decidable (Modest c)
  | .malloc n => inferInstanceAs (Decidable (n≤2^32-8))
  | .realloc _ n => inferInstanceAs (Decidable (n≤2^32-8))
  | .free _ => inferInstanceAs (Decidable True)
  | .write _ _ => inferInstanceAs (Decidable True)

/-- A malloc, by either name. -/
def Requests (c : Call) (n : Nat) : Prop := c=.malloc n ∨ c=.realloc 0 n

theorem Requests.null {p n m : Nat} (h : Requests (.realloc p n) m) : p=0 := by
  rcases h with h|h
  · cases h
  · exact (Call.realloc.inj h).1

/-- None of the bytes of the block is changed. -/
def Untouched (h h' : HeapState) (f : Block) : Prop := ∀ x∈f.range,h'.mem x=h.mem x

/-- Nothing free is large enough. -/
def Full (P : Pool Nat) (n : Nat) : Prop := ∀ e∈P.free,e.stop<e.start+headerSize+alignSize n

/-- Everything that a call can do: to the state, by way of answers, and to the pool. -/
inductive Served (s : State) (P : Pool Nat) : Call → State → List Outcome → Pool Nat → Prop
  | nothing {c : Call} (hc : Requests c 0) : Served s P c s [.returned 0] P
  | exhausted {c : Call} {n : Nat} (hc : Requests c n) (hn : n≠0) (full : Full P n) :
      Served s P c s [.returned 0] P
  | allocated {c : Call} {n : Nat} {a : Block} {h' : HeapState} {P' : Pool Nat}
      (hc : Requests c n) (hn : n≠0) (takes : P.Takes a P') (room : pointer a+alignSize n≤a.stop)
      (frame : ∀ f∈P.live,Untouched s.heap h' f) :
      Served s P c ⟨h',pointer a::s.live⟩ [.returned (pointer a)] P'
  | freeNull : Served s P (.free 0) s [] P
  | freed {c : Call} {outs : List Outcome} {e : Block} {h' : HeapState}
      (hc : c=.free (pointer e) ∧ outs=[] ∨ c=.realloc (pointer e) 0 ∧ outs=[.returned 0])
      (he : e∈P.live) (frame : ∀ f∈P.live,f.start≠e.start → Untouched s.heap h' f) :
      Served s P c ⟨h',s.drop (pointer e)⟩ outs (P.release e)
  | resized {n : Nat} {e : Block} {h' : HeapState} (he : e∈P.live) (hn : 0<n)
      (hle : pointer e+n≤e.stop) (head : h'.freeListHead=s.heap.freeListHead)
      (frame : Within s.heap h' (Set.Ico e.start (pointer e))) :
      Served s P (.realloc (pointer e) n) ⟨h',s.live⟩ [.returned (pointer e)]
        (P.trim e (pointer e+n) (by rw [pointer]; omega))
  | refused {n : Nat} {e : Block} (he : e∈P.live) (hn : 0<n) (hlt : e.stop<pointer e+n)
      (full : Full P n) : Served s P (.realloc (pointer e) n) s [.returned 0] P
  | moved {n : Nat} {e a : Block} {h' : HeapState} {Q : Pool Nat} (he : e∈P.live)
      (hlt : e.stop<pointer e+n) (takes : P.Takes a Q) (room : pointer a+alignSize n≤a.stop)
      (copied : ∀ i,pointer e+i<e.stop → h'.mem (pointer a+i)=s.heap.mem (pointer e+i))
      (frame : ∀ f∈P.live,f.start≠e.start → Untouched s.heap h' f) :
      Served s P (.realloc (pointer e) n) ⟨h',pointer a::s.drop (pointer e)⟩
        [.returned (pointer a)] (Q.release e)
  | written {address : Nat} {byte : UInt8} {e : Block} (he : e∈P.live)
      (ha : address∈payload e) :
      Served s P (.write address byte)
        ⟨{s.heap with mem := Function.update s.heap.mem address byte},s.live⟩ [] P

section Blocks

variable {arena : Arena} {s : State} {P : Pool Nat} {e : Block}

theorem freeBlocks_chain {h : HeapState} {es : List Block} {fuel p : Nat} (hc : Chain h p es 0)
    (hf : es.length<fuel) (hpos : ∀ e∈es,e.start≠0) :
    freeBlocks h fuel p=some (es.map Extent.start) := by
  induction es generalizing fuel p with
  | nil =>
    obtain ⟨fuel,rfl⟩ : ∃ k,fuel=k+1 := ⟨fuel-1,by simp at hf; omega⟩
    exact if_pos hc
  | cons e es ih =>
    obtain ⟨fuel,rfl⟩ : ∃ k,fuel=k+1 := ⟨fuel-1,by omega⟩
    rw [List.forall_mem_cons] at hpos
    obtain ⟨rfl,hc⟩ := hc
    rw [freeBlocks,if_neg hpos.1,ih hc (by simpa using hf) hpos.2]
    rfl

/-- The free list of the code is that of the pool. -/
theorem Stands.freeBlocks (hs : Stands arena s P) :
    s.freeBlocks=some (P.free.map Extent.start) :=
  freeBlocks_chain hs.heap.freeList.linked hs.heap.freeList.length_lt
    fun e he => (hs.heap.freeList.inArena e he).start_pos

theorem Stands.mem_live (hs : Stands arena s P) {p : Nat} :
    p∈s.live ↔ ∃ e∈P.live,pointer e=p := by
  rw [hs.live,List.mem_map]

theorem Stands.pointer_size (hs : Stands arena s P) (he : e∈P.live) :
    pointer e+s.heap.size (header (pointer e))=e.stop := by
  rw [header_pointer]
  exact (hs.heap.headers e he).size

theorem Stands.inArena (hs : Stands arena s P) {e : Block} (he : e∈P.all) : InArena arena e := by
  rcases List.mem_append.mp he with he|he
  · exact hs.heap.freeList.inArena e he
  · exact hs.heap.inArena e he

theorem Stands.size (hs : Stands arena s P) {e : Block} (he : e∈P.all) :
    e.start+headerSize+s.heap.size e.start=e.stop := by
  rcases List.mem_append.mp he with he|he
  · exact (hs.heap.freeList.headers e he).size
  · exact (hs.heap.headers e he).size

theorem pointer_ne_zero (hs : Stands arena s P) (he : e∈P.live) : pointer e≠0 :=
  (pointer_block (hs.heap.inArena e he)).1

theorem Stands.live_ne_zero (hs : Stands arena s P) {p : Nat} (hp : p∈s.live) : p≠0 := by
  obtain ⟨e,he,rfl⟩ := hs.mem_live.mp hp
  exact pointer_ne_zero hs he

/-- Giving up a pointer is giving up its block. -/
theorem Stands.drop (hs : Stands arena s P) (e : Block) :
    s.drop (pointer e)=(P.release e).live.map pointer := by
  rw [State.drop,hs.live,Pool.release,List.filter_map]
  refine congrArg (List.map pointer) (List.filter_congr fun f _ => ?_)
  simp [pointer]

/-- What is taken is, or begins, a free block. -/
theorem takes_from {P' : Pool Nat} {a : Block} (h : P.Takes a P') :
    ∃ e∈P.free,a.start=e.start ∧ a.stop≤e.stop := by
  cases h with
  | whole pre _ post live => exact ⟨a,by simp,rfl,le_rfl⟩
  | part pre _ rest hj post live =>
    refine ⟨a.join rest hj,by simp,rfl,?_⟩
    have hp := rest.proper
    show a.stop≤rest.stop
    omega

end Blocks

section Steps

variable {arena : Arena} {s : State} {P : Pool Nat} {e : Block} {n : Nat}

theorem step_realloc_null (arena : Arena) (s : State) (n : Nat) :
    step arena s (.realloc 0 n)=step arena s (.malloc n) := by
  have hr : realloc arena s.heap 0 n=malloc arena s.heap n := if_pos rfl
  rw [step,step,hr]
  cases malloc arena s.heap n with
  | none => rfl
  | some r => rfl

theorem step_requests {c : Call} (hc : Requests c n) : step arena s c=step arena s (.malloc n) := by
  rcases hc with rfl|rfl
  · rfl
  · exact step_realloc_null arena s n

/-- A request is served out of the free blocks, or not at all. -/
theorem serves_malloc (hs : Stands arena s P) {c : Call} (hc : Requests c n) :
    ∃ P',Served s P c (step arena s c).1 (step arena s c).2 P' ∧
      Stands arena (step arena s c).1 P' := by
  rw [step_requests hc,step]
  by_cases hn : n=0
  · subst hn
    exact ⟨P,.nothing hc,hs⟩
  · rcases malloc_spec hs.heap hn with ⟨he,hfull⟩|⟨h',a,P',he,htakes,hR,hw,hroom⟩
    · rw [he]
      exact ⟨P,.exhausted hc hn hfull,hs⟩
    · have hlive := htakes.mem
      have hne : pointer a≠0 :=
        (pointer_block (hR.inArena a (by rw [hlive]; exact .head _))).1
      have hptr : obtain s.live (pointer a)=pointer a::s.live := if_neg hne
      rw [he]
      show ∃ P',Served s P c ⟨h',obtain s.live (pointer a)⟩ [.returned (pointer a)] P' ∧
        Stands arena ⟨h',obtain s.live (pointer a)⟩ P'
      rw [hptr]
      refine ⟨P',.allocated hc hn htakes hroom fun f hf x hx => ?_,hR,?_⟩
      · exact hw.mem x (Set.disjoint_left.mp (hs.heap.free_disjoint_live hf) hx)
      · rw [hlive,List.map_cons,hs.live]

theorem serves_free (hs : Stands arena s P) (he : e∈P.live) :
    ∃ h',free s.heap (pointer e)=some h' ∧ Stands arena ⟨h',s.drop (pointer e)⟩ (P.release e) ∧
      ∀ f∈P.live,f.start≠e.start → Untouched s.heap h' f := by
  obtain ⟨h',hfree,hR,hw⟩ := free_spec hs.heap he
  refine ⟨h',hfree,⟨hR,hs.drop e⟩,fun f hf hne x hx => hw.mem x ?_⟩
  rintro (hx'|hx')
  · exact Set.disjoint_left.mp
      (Extent.apart_iff_disjoint.mp (hs.heap.sound.apart_of_start_ne he hf hne)) hx hx'
  · exact Set.disjoint_left.mp (hs.heap.free_disjoint_live hf) hx hx'

theorem realloc_eq (hin : InArena arena e) (h : HeapState) (hn : n≠0) :
    realloc arena h (pointer e) n=
      if n≤h.size e.start then some (h.setSize e.start n,pointer e)
      else (malloc arena h n).bind fun (h',newPtr) =>
        if newPtr≠0 then
          (free {h' with mem := copyBytes h'.mem newPtr (pointer e) (h.size e.start)}
            (pointer e)).map fun h => (h,newPtr)
        else some (h',newPtr) := by
  obtain ⟨hne,hblock⟩ := pointer_block hin
  rw [realloc,if_neg (by exact hne),if_neg hn]
  simp only [pointer,hblock]

theorem realloc_moves (hin : InArena arena e) {h h1 h3 : HeapState} {q : Nat} (hn : n≠0)
    (hlt : ¬n≤h.size e.start) (hmal : malloc arena h n=some (h1,q)) (hq : q≠0)
    (hfree : free {h1 with mem := copyBytes h1.mem q (pointer e) (h.size e.start)} (pointer e)=
      some h3) : realloc arena h (pointer e) n=some (h3,q) := by
  rw [realloc_eq hin h hn,if_neg hlt,hmal]
  simp only [Option.bind_some,if_pos hq,hfree,Option.map_some]

/-- A block that fits is cut where it is. -/
theorem serves_shrink (hs : Stands arena s P) (he : e∈P.live) (hn : 0<n)
    (hle : pointer e+n≤e.stop) :
    ∃ P',Served s P (.realloc (pointer e) n) (step arena s (.realloc (pointer e) n)).1
        (step arena s (.realloc (pointer e) n)).2 P' ∧
      Stands arena (step arena s (.realloc (pointer e) n)).1 P' := by
  have hin := hs.heap.inArena e he
  have hsize := hs.pointer_size he
  rw [header_pointer] at hsize
  obtain ⟨hR,hw⟩ := shrink_spec hs.heap he hn hle
  have hre : realloc arena s.heap (pointer e) n=some (s.heap.setSize e.start n,pointer e) := by
    rw [realloc_eq hin s.heap hn.ne',if_pos (by omega)]
  have hstep : step arena s (.realloc (pointer e) n)=
      (⟨s.heap.setSize e.start n,s.live⟩,[.returned (pointer e)]) := by
    rw [step,hre]
    simp only [if_neg (pointer_ne_zero hs he),if_neg hn.ne',or_true,if_true]
  rw [hstep]
  refine ⟨_,.resized he hn hle rfl hw,hR,?_⟩
  rw [hs.live,Pool.trim,List.map_map]
  refine List.map_congr_left fun f _ => ?_
  simp only [Function.comp]
  split_ifs with hfe
  · simp only [pointer,hfe]
  · rfl

/-- A block just taken meets no block that was live before. -/
theorem taken_apart {h1 : HeapState} {Q : Pool Nat} {a : Block} (hR1 : Represents arena h1 Q)
    (htakes : P.Takes a Q) : ∀ f∈P.live,Extent.Apart a f := by
  have hl := hR1.sound.live_apart
  rw [htakes.mem] at hl
  exact (List.pairwise_cons.mp hl).1

/-- What the bytes are when one block has been taken, another copied there and then freed. -/
theorem moved_bytes {h h1 h3 : HeapState} {Q : Pool Nat} {a : Block} {k : Nat}
    (hR : Represents arena h P) (hR1 : Represents arena h1 Q) (he : e∈P.live)
    (htakes : P.Takes a Q) (hk : pointer e+k=e.stop) (hka : pointer a+k≤a.stop)
    (hw1 : Within h h1 (Extent.covered P.free))
    (hw3 : Within {h1 with mem := copyBytes h1.mem (pointer a) (pointer e) k} h3
      (e.range∪Extent.covered Q.free)) :
    (∀ i<k,h3.mem (pointer a+i)=h.mem (pointer e+i)) ∧
      ∀ f∈P.live,f.start≠e.start → Untouched h h3 f := by
  have hlive := htakes.mem
  have ha1 : a∈Q.live := by rw [hlive]; exact .head _
  have hapart := taken_apart hR1 htakes
  have hw2 : Within h1 {h1 with mem := copyBytes h1.mem (pointer a) (pointer e) k} (payload a) :=
    within_copyBytes le_rfl (by rw [pointer] at *; omega)
  -- what the two calls inside and the copy leave alone
  have hpast {f : Block} (hf : f∈Q.live) (hfe : Disjoint f.range e.range) {x : Nat}
      (hx : x∈f.range) : h3.mem x=copyBytes h1.mem (pointer a) (pointer e) k x := by
    refine hw3.mem x ?_
    rintro (hx'|hx')
    · exact Set.disjoint_left.mp hfe hx hx'
    · exact Set.disjoint_left.mp (hR1.free_disjoint_live hf) hx hx'
  have hkept {f : Block} (hf : f∈P.live) {x : Nat} (hx : x∈f.range) : h1.mem x=h.mem x :=
    hw1.mem x (Set.disjoint_left.mp (hR.free_disjoint_live hf) hx)
  refine ⟨fun i hi => ?_,fun f hf hne x hx => ?_⟩
  · have hxa : pointer a+i∈a.range := ⟨by rw [pointer]; omega,by omega⟩
    have hxe : pointer e+i∈e.range := ⟨by rw [pointer]; omega,by omega⟩
    have hae := Extent.apart_iff_disjoint.mp (hapart e he)
    rw [hpast ha1 hae hxa,← hkept he hxe]
    refine copyBytes_of_apart ?_ hi
    rcases hapart e he with h|h
    · exact .inl (by rw [pointer,pointer] at *; omega)
    · exact .inr (by rw [pointer,pointer] at *; omega)
  · have hfe := Extent.apart_iff_disjoint.mp (hR.sound.apart_of_start_ne he hf hne)
    have hfa := (Extent.apart_iff_disjoint.mp (hapart f hf)).symm
    have hf1 : f∈Q.live := by rw [hlive]; exact .tail _ hf
    have hcopy : copyBytes h1.mem (pointer a) (pointer e) k x=h1.mem x :=
      hw2.mem x fun hx' => Set.disjoint_left.mp hfa hx (payload_subset a hx')
    rw [hpast hf1 hfe hx,hcopy,hkept hf hx]

/-- A block that does not fit is moved, unless nothing free is large enough. -/
theorem serves_grow (hs : Stands arena s P) (he : e∈P.live) (hn : 0<n)
    (hlt : e.stop<pointer e+n) (hm : n≤2^32-8 ∨ Full P n) :
    ∃ P',Served s P (.realloc (pointer e) n) (step arena s (.realloc (pointer e) n)).1
        (step arena s (.realloc (pointer e) n)).2 P' ∧
      Stands arena (step arena s (.realloc (pointer e) n)).1 P' := by
  have hin := hs.heap.inArena e he
  have hsize := hs.pointer_size he
  rw [header_pointer] at hsize
  have hp0 := pointer_ne_zero hs he
  have hre := realloc_eq hin s.heap hn.ne'
  rw [if_neg (by omega)] at hre
  rcases malloc_spec hs.heap hn.ne' with ⟨hmal,hfull⟩|⟨h1,a,Q,hmal,htakes,hR1,hw1,hroom⟩
  · have hstep : step arena s (.realloc (pointer e) n)=(s,[.returned 0]) := by
      rw [step,hre,hmal]
      simp [hp0,hn.ne']
    rw [hstep]
    exact ⟨P,.refused he hn hlt hfull,hs⟩
  · have hlive := htakes.mem
    have hn' : n≤alignSize n := by
      rcases hm with hm|hfull
      · exact le_alignSize hm
      · obtain ⟨f,hf,hstart,hstop⟩ := takes_from htakes
        have := hfull f hf
        omega
    have he1 : e∈Q.live := by rw [hlive]; exact .tail _ he
    have ha1 : a∈Q.live := by rw [hlive]; exact .head _
    have hapart := taken_apart hR1 htakes
    let h2 : HeapState :=
      {h1 with mem := copyBytes h1.mem (pointer a) (pointer e) (s.heap.size e.start)}
    have hka : pointer a+s.heap.size e.start≤a.stop := by rw [pointer] at *; omega
    have hw2 : Within h1 h2 (payload a) := within_copyBytes le_rfl hka
    have hR2 : Represents arena h2 Q := hR1.write ha1 hw2 rfl
    obtain ⟨h3,hfree,hR3,hw3⟩ := free_spec hR2 he1
    obtain ⟨hcopied,hframe⟩ := moved_bytes hs.heap hR1 he htakes hsize hka hw1 hw3
    have hstep : step arena s (.realloc (pointer e) n)=
        (⟨h3,pointer a::s.drop (pointer e)⟩,[.returned (pointer a)]) := by
      have hpa : pointer a≠0 := (pointer_block (hR1.inArena a ha1)).1
      have hpae : pointer a≠pointer e := fun hno =>
        (hapart e he).start_ne (Nat.add_right_cancel hno)
      have hr : realloc arena s.heap (pointer e) n=some (h3,pointer a) :=
        realloc_moves hin hn.ne' (by omega) hmal hpa hfree
      rw [step,hr]
      simp only [if_neg hp0,if_neg hn.ne',or_self,hpa,hpae,if_false]
    rw [hstep]
    refine ⟨Q.release e,.moved he hlt htakes hroom (fun i hi => hcopied i (by omega)) hframe,
      hR3,?_⟩
    rw [hs.drop,Pool.release,Pool.release,hlive,List.filter_cons_of_pos]
    · rfl
    · simpa using (hapart e he).start_ne

/-- A write inside what is held changes the payload of one block. -/
theorem Stands.written {address : Nat} {byte : UInt8} (hs : Stands arena s P)
    (hv : Valid s (.write address byte)) :
    ∃ e∈P.live,address∈payload e ∧
      Within s.heap {s.heap with mem := Function.update s.heap.mem address byte} (payload e) := by
  obtain ⟨p,hp,hlow,hhigh⟩ := hv
  obtain ⟨e,he,rfl⟩ := hs.mem_live.mp hp
  have ha : address∈payload e := ⟨hlow,hs.pointer_size he ▸ hhigh⟩
  refine ⟨e,he,ha,fun x hx => Function.update_of_ne ?_ _ _,rfl⟩
  rintro rfl
  exact hx ha

/-- Every call is served in one of these ways, and the heap goes on to stand for a pool. -/
theorem step_served (hs : Stands arena s P) {c : Call} (hv : Valid s c)
    (hm : ∀ p n,c=.realloc p n → n≤2^32-8 ∨ Full P n) :
    ∃ P',Served s P c (step arena s c).1 (step arena s c).2 P' ∧
      Stands arena (step arena s c).1 P' := by
  have freed {e : Block} (he : e∈P.live) := serves_free hs he
  cases c with
  | malloc n => exact serves_malloc hs (.inl rfl)
  | free p =>
    rcases hv with rfl|hp
    · have hfree : free s.heap 0=some s.heap := if_pos rfl
      have hdrop : s.drop 0=s.live := by
        refine List.filter_eq_self.mpr fun p hp => ?_
        simpa using hs.live_ne_zero hp
      rw [step,hfree]
      simp only [hdrop]
      exact ⟨P,.freeNull,hs⟩
    · obtain ⟨e,he,rfl⟩ := hs.mem_live.mp hp
      obtain ⟨h',hfree,hs',hframe⟩ := freed he
      rw [step,hfree]
      exact ⟨_,.freed (.inl ⟨rfl,rfl⟩) he hframe,hs'⟩
  | realloc p n =>
    rcases hv with rfl|hp
    · exact serves_malloc hs (.inr rfl)
    · obtain ⟨e,he,rfl⟩ := hs.mem_live.mp hp
      have hp0 := pointer_ne_zero hs he
      rcases Nat.eq_zero_or_pos n with rfl|hn
      · obtain ⟨h',hfree,hs',hframe⟩ := freed he
        have hr : realloc arena s.heap (pointer e) 0=some (h',0) := by
          rw [realloc,if_neg hp0,if_pos rfl,hfree,Option.map_some]
        rw [step,hr]
        simp only [if_neg hp0,if_true]
        exact ⟨_,.freed (.inr ⟨rfl,rfl⟩) he hframe,hs'⟩
      · by_cases hle : pointer e+n≤e.stop
        · exact serves_shrink hs he hn hle
        · exact serves_grow hs he hn (Nat.lt_of_not_le hle) (hm _ n rfl)
  | write address byte =>
    obtain ⟨e,he,ha,hw⟩ := hs.written hv
    exact ⟨P,.written he ha,hs.heap.write he hw rfl,hs.live⟩

/-- The one block of the heap at the start. -/
def wholeArena (arena : Arena) : Block :=
  ⟨arena.base,arena.base+heapSize,Nat.lt_add_of_pos_right (by decide)⟩

theorem stands_initial (arena : Arena) (mem : Memory) :
    Stands arena (initial arena mem) ⟨[wholeArena arena],[]⟩ := by
  have hfits := arena.fits
  have hheap : heapSize=4194304 := rfl
  have hin : InArena arena (wholeArena arena) := by
    refine ⟨le_rfl,le_rfl,by simp [wholeArena],?_⟩
    show arena.base+headerSize<arena.base+heapSize
    have hsize := headerSize_eq
    omega
  let h0 : HeapState := ⟨mem,false,arena.base⟩
  let h1 := ((h0.setSize arena.base (heapSize-headerSize)).setIsFree arena.base 1).setNext
    arena.base 0
  have hinit : (initial arena mem).heap={h1 with heapInitialized := true} := rfl
  have hn : h1.next arena.base=0 := next_setNext (by decide)
  have hs : h1.size arena.base=heapSize-headerSize := by
    simp only [h1,size_setNext,size_setIsFree]
    exact size_setSize (by decide)
  have hf : h1.isFree arena.base=1 := by
    simp only [h1,isFree_setNext]
    exact isFree_setIsFree (by decide)
  refine ⟨⟨rfl,⟨?_,?_,?_,List.pairwise_singleton _ _⟩,by simp,by simp,?_⟩,rfl⟩
  · exact ⟨rfl,hn⟩
  · rw [List.forall_mem_singleton]
    refine ⟨?_,hf⟩
    show arena.base+headerSize+h1.size arena.base=arena.base+heapSize
    rw [hs]
    have hsize := headerSize_eq
    omega
  · exact List.forall_mem_singleton.mpr hin
  · exact ⟨List.pairwise_singleton _ _,List.pairwise_singleton _ _⟩

end Steps

end Cllm.Heap
