import Mathlib.Data.List.Basic
import Cllm.Framework.Extent
import Cllm.Heap.Allocator

namespace Cllm.Heap

open ByteMemory

/-- The bytes of a block, header included. -/
abbrev Block := Extent Nat

namespace HeapState

variable {h h' : HeapState} {b c v : Nat}

@[simp] theorem size_setSize (hv : v<2^32) : (h.setSize b v).size b=v := loadWord_storeWord hv

@[simp] theorem isFree_setSize : (h.setSize b v).isFree b=h.isFree b :=
  loadWord_storeWord_ne (.inr le_rfl)

@[simp] theorem next_setSize : (h.setSize b v).next b=h.next b :=
  loadWord_storeWord_ne (.inr (by omega))

@[simp] theorem size_setIsFree : (h.setIsFree b v).size b=h.size b :=
  loadWord_storeWord_ne (.inl le_rfl)

@[simp] theorem isFree_setIsFree (hv : v<2^32) : (h.setIsFree b v).isFree b=v :=
  loadWord_storeWord hv

@[simp] theorem next_setIsFree : (h.setIsFree b v).next b=h.next b :=
  loadWord_storeWord_ne (.inr (by omega))

@[simp] theorem size_setNext : (h.setNext b v).size b=h.size b :=
  loadWord_storeWord_ne (.inl (by omega))

@[simp] theorem isFree_setNext : (h.setNext b v).isFree b=h.isFree b :=
  loadWord_storeWord_ne (.inl (by omega))

@[simp] theorem next_setNext (hv : v<2^32) : (h.setNext b v).next b=v := loadWord_storeWord hv

@[simp] theorem freeListHead_setSize : (h.setSize b v).freeListHead=h.freeListHead := rfl
@[simp] theorem freeListHead_setIsFree : (h.setIsFree b v).freeListHead=h.freeListHead := rfl
@[simp] theorem freeListHead_setNext : (h.setNext b v).freeListHead=h.freeListHead := rfl

theorem size_lt (h : HeapState) (b : Nat) : h.size b<2^32 := loadWord_lt _ _
theorem next_lt (h : HeapState) (b : Nat) : h.next b<2^32 := loadWord_lt _ _

/-- The two heaps differ in nothing but the bytes in `S` and free_list_head. -/
structure Within (h h' : HeapState) (S : Set Nat) : Prop where
  mem : ∀ x,x∉S → h'.mem x=h.mem x
  initialized : h'.heapInitialized=h.heapInitialized

theorem Within.trans {h'' : HeapState} {S : Set Nat} (hw : Within h h' S)
    (hw' : Within h' h'' S) : Within h h'' S :=
  ⟨fun x hx => (hw'.mem x hx).trans (hw.mem x hx),hw'.initialized.trans hw.initialized⟩

theorem Within.mono {S T : Set Nat} (hw : Within h h' S) (hST : S⊆T) : Within h h' T :=
  ⟨fun x hx => hw.mem x fun hS => hx (hST hS),hw.initialized⟩

theorem within_refl {S : Set Nat} : Within h h S := ⟨fun _ _ => rfl,rfl⟩

theorem within_word {S : Set Nat} {k : Nat} (hk : k+4≤headerSize)
    (hS : Set.Ico b (b+headerSize)⊆S) : Within h {h with mem := storeWord h.mem (b+k) v} S := by
  refine ⟨fun x hx => storeWord_of_ne ?_,rfl⟩
  have hno : ¬(b≤x ∧ x<b+headerSize) := fun hb => hx (hS hb)
  omega

theorem within_setSize {S : Set Nat} (hS : Set.Ico b (b+headerSize)⊆S) :
    Within h (h.setSize b v) S := @within_word h b v S 0 (by decide) hS

theorem within_setIsFree {S : Set Nat} (hS : Set.Ico b (b+headerSize)⊆S) :
    Within h (h.setIsFree b v) S := within_word (by decide) hS

theorem within_setNext {S : Set Nat} (hS : Set.Ico b (b+headerSize)⊆S) :
    Within h (h.setNext b v) S := within_word (by decide) hS

/-- A header that is not written to reads as before. -/
theorem Within.fields {S : Set Nat} (hw : Within h h' S)
    (hS : Disjoint (Set.Ico b (b+headerSize)) S) :
    h'.size b=h.size b ∧ h'.isFree b=h.isFree b ∧ h'.next b=h.next b := by
  have hsize : headerSize=16 := rfl
  have word (k : Nat) (hk : k+4≤headerSize) : Agree h.mem h'.mem (b+k) (b+k+4) := by
    intro x hx hx'
    exact hw.mem x (Set.disjoint_left.mp hS ⟨by omega,by omega⟩)
  exact ⟨(word 0 (by omega)).loadWord,(word 4 (by omega)).loadWord,(word 8 (by omega)).loadWord⟩

end HeapState

open HeapState

/-- The link behind the last block of a list that begins at a link. -/
def linkAfter : Link → List Block → Link
  | pos,[] => pos
  | _,e::es => linkAfter (.next e.start) es

theorem linkAfter_next (b : Nat) (es : List Block) : ∃ c,linkAfter (.next b) es=.next c := by
  induction es generalizing b with
  | nil => exact ⟨b,rfl⟩
  | cons e es ih => exact ih e.start

/-- Following the next fields leads from one pointer over these blocks to another. -/
def Chain (h : HeapState) : Nat → List Block → Nat → Prop
  | p,[],q => p=q
  | p,e::es,q => p=e.start ∧ Chain h (h.next e.start) es q

/-- The block has room for its header. -/
def Roomy (e : Block) : Prop := e.start+headerSize<e.stop

theorem Roomy.header {e : Block} (h : Roomy e) : Set.Ico e.start (e.start+headerSize)⊆e.range :=
  Set.Ico_subset_Ico_right (le_of_lt h)

theorem chain_append {h : HeapState} {p q : Nat} {es fs : List Block} :
    Chain h p (es++fs) q ↔ ∃ r,Chain h p es r ∧ Chain h r fs q := by
  induction es generalizing p with
  | nil => simp [Chain]
  | cons e es ih =>
    rw [List.cons_append,Chain,ih]
    simp only [Chain]
    tauto

theorem Chain.load_linkAfter {h : HeapState} (pos : Link) {es : List Block} {q : Nat}
    (hc : Chain h (h.load pos) es q) : h.load (linkAfter pos es)=q := by
  induction es generalizing pos with
  | nil => exact hc
  | cons e es ih => exact ih (.next e.start) hc.2

/-- A list whose blocks are not written to stays. -/
theorem Chain.frame {h h' : HeapState} {p q : Nat} {es : List Block} {S : Set Nat}
    (hc : Chain h p es q) (hw : Within h h' S) (hr : ∀ e∈es,Roomy e)
    (hd : ∀ e∈es,Disjoint e.range S) : Chain h' p es q := by
  induction es generalizing p with
  | nil => exact hc
  | cons e es ih =>
    rw [List.forall_mem_cons] at hr hd
    obtain ⟨-,-,hn⟩ := hw.fields (hd.1.mono_left hr.1.header)
    rw [Chain,hn]
    exact ⟨hc.1,ih hc.2 hr.2 hd.2⟩

/-- The bytes behind a link. -/
def Link.cell : Link → Set Nat
  | .head => ∅
  | .next b => Set.Ico b (b+headerSize)

theorem load_store (h : HeapState) (pos : Link) {v : Nat} (hv : v<2^32) :
    (h.store pos v).load pos=v := by
  cases pos with
  | head => rfl
  | next b => exact next_setNext hv

theorem within_store (h : HeapState) (pos : Link) (v : Nat) : Within h (h.store pos v) pos.cell := by
  cases pos with
  | head => exact ⟨fun _ _ => rfl,rfl⟩
  | next b => exact within_setNext subset_rfl

theorem linkAfter_cell {pos : Link} {es : List Block} (hr : ∀ e∈es,Roomy e) :
    (linkAfter pos es).cell⊆pos.cell∪Extent.covered es := by
  induction es generalizing pos with
  | nil => exact Set.subset_union_left
  | cons e es ih =>
    rw [List.forall_mem_cons] at hr
    refine (@ih (.next e.start) hr.2).trans ?_
    rw [Extent.covered_cons]
    refine Set.union_subset ?_ ?_
    · exact hr.1.header.trans (Set.subset_union_left.trans Set.subset_union_right)
    · exact Set.subset_union_right.trans Set.subset_union_right

/-- Storing a pointer behind the blocks of a list redirects its end. -/
theorem Chain.store {h : HeapState} (pos : Link) {es : List Block} {q v : Nat}
    (hc : Chain h (h.load pos) es q) (hv : v<2^32) (hr : ∀ e∈es,Roomy e)
    (ha : es.Pairwise Extent.Apart) (hd : Disjoint pos.cell (Extent.covered es)) :
    Chain (h.store (linkAfter pos es) v) ((h.store (linkAfter pos es) v).load pos) es v := by
  induction es generalizing pos with
  | nil => exact load_store h pos hv
  | cons e es ih =>
    rw [List.forall_mem_cons] at hr
    rw [List.pairwise_cons] at ha
    rw [Extent.covered_cons,Set.disjoint_union_right] at hd
    have he : Disjoint e.range (Extent.covered es) := Extent.forall_apart_iff.mp ha.1
    have hcell : Disjoint (Link.next e.start).cell (Extent.covered es) := he.mono_left hr.1.header
    refine ⟨?_,ih (.next e.start) hc.2 hr.2 ha.2 hcell⟩
    have hkeep : (h.store (linkAfter (.next e.start) es) v).load pos=h.load pos := by
      have hsub := @linkAfter_cell (.next e.start) es hr.2
      have hd' : Disjoint pos.cell (linkAfter (.next e.start) es).cell := by
        refine Disjoint.mono_right hsub (Set.disjoint_union_right.mpr ⟨?_,hd.2⟩)
        exact hd.1.mono_right hr.1.header
      cases pos with
      | head =>
        obtain ⟨b,hb⟩ := linkAfter_next e.start es
        rw [hb]
        rfl
      | next b => exact ((within_store h _ v).fields hd').2.2
    rw [linkAfter,hkeep]
    exact hc.1

end Cllm.Heap
