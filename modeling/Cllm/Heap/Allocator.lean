import Cllm.Framework.ByteMemory

namespace Cllm.Heap

open ByteMemory

/-- size_t and pointer arithmetic on i386 -/
def wrap (n : Nat) : Nat := n%2^32
def wrapSub (a b : Nat) : Nat := (a+(2^32-b))%2^32

abbrev heapSize : Nat := 4*1024*1024

/-- HEADER_SIZE: the 12 bytes of a mem_block_t, rounded up. -/
abbrev headerSize : Nat := (12+7)/8*8

/-- Where the static array `heap` is. One past its end is still an address. -/
structure Arena where
  base : Nat
  base_pos : 0<base
  fits : base+heapSize<2^32

/-- The memory and the static variables of the allocator. A pointer is an address, NULL is 0. -/
structure HeapState where
  mem : Memory
  heapInitialized : Bool
  freeListHead : Nat

namespace HeapState

variable (h : HeapState) (b v : Nat)

def size : Nat := loadWord h.mem b
def isFree : Nat := loadWord h.mem (b+4)
def next : Nat := loadWord h.mem (b+8)

def setSize : HeapState := {h with mem := storeWord h.mem b v}
def setIsFree : HeapState := {h with mem := storeWord h.mem (b+4) v}
def setNext : HeapState := {h with mem := storeWord h.mem (b+8) v}

end HeapState

/-- What a mem_block_t** points to: free_list_head or the next field of a block. -/
inductive Link where
  | head
  | next (b : Nat)
  deriving DecidableEq

def HeapState.load (h : HeapState) : Link → Nat
  | .head => h.freeListHead
  | .next b => h.next b

def HeapState.store (h : HeapState) : Link → Nat → HeapState
  | .head,v => {h with freeListHead := v}
  | .next b,v => h.setNext b v

def memoryInitHeap (arena : Arena) (h : HeapState) : HeapState :=
  if h.heapInitialized then h
  else
    let h := {h with freeListHead := arena.base}
    let h := h.setSize h.freeListHead (heapSize-headerSize)
    let h := h.setIsFree h.freeListHead 1
    let h := h.setNext h.freeListHead 0
    {h with heapInitialized := true}

/-- size = (size + 7) & ~7, with 8 for 0 -/
def alignSize (size : Nat) : Nat :=
  let size := wrap (size+7)/8*8
  if size=0 then 8 else size

/-- The loop of malloc as far as the block it takes, which comes with the one before it, or NULL.
The outer `none` is a loop that has not come to an end in so many rounds. -/
def firstFit (h : HeapState) (size : Nat) : Nat → Nat → Nat → Option (Option (Nat × Nat))
  | 0,_,_ => none
  | fuel+1,prev,current =>
    if current=0 then some none
    else if h.isFree current≠0 ∧ h.size current≥size then some (some (prev,current))
    else firstFit h size fuel current (h.next current)

/-- while (*pos != NULL && *pos < block) pos = &(*pos)->next -/
def position (h : HeapState) (block : Nat) : Nat → Link → Option Link
  | 0,_ => none
  | fuel+1,pos =>
    if h.load pos≠0 ∧ h.load pos<block then position h block fuel (.next (h.load pos))
    else some pos

/-- The number of rounds that the loops are given. -/
abbrev rounds : Nat := heapSize

/-- The insertion into the free list by address, which malloc and free share. -/
def insertFree (h : HeapState) (block : Nat) : Option HeapState :=
  (position h block rounds .head).map fun pos =>
    let h := h.setNext block (h.load pos)
    h.store pos block

/-- The remainder of a block of which malloc needs only the front. -/
def split (h : HeapState) (current size : Nat) : Option HeapState :=
  let totalSize := wrap (size+headerSize)
  if h.size current≥wrap (wrap (totalSize+headerSize)+8) then
    let newBlock := wrap (current+totalSize)
    let h := h.setSize newBlock (wrapSub (h.size current) totalSize)
    let h := h.setIsFree newBlock 1
    let h := h.setNext newBlock 0
    (insertFree h newBlock).map fun h => h.setSize current size
  else some h

/-- Removing a block from the free list. -/
def unlink (h : HeapState) (prev current : Nat) : HeapState :=
  if prev≠0 then h.setNext prev (h.next current) else {h with freeListHead := h.next current}

/-- The heap after malloc, and the pointer it returns; `none` if it does not return. -/
def malloc (arena : Arena) (h : HeapState) (size : Nat) : Option (HeapState × Nat) :=
  if size=0 then some (h,0)
  else
    let h := memoryInitHeap arena h
    let size := alignSize size
    match firstFit h size rounds 0 h.freeListHead with
    | none => none
    | some none => some (h,0)
    | some (some (prev,current)) =>
      (split (unlink h prev current) current size).map fun h =>
        let h := h.setIsFree current 0
        let h := h.setNext current 0
        (h,wrap (current+headerSize))

/-- The loop of free that joins neighbours. -/
def coalesce : Nat → HeapState → Nat → Option HeapState
  | 0,_,_ => none
  | fuel+1,h,curr =>
    if curr≠0 ∧ h.next curr≠0 then
      let currEnd := wrap (wrap (curr+headerSize)+h.size curr)
      if currEnd=h.next curr then
        let h := h.setSize curr (wrap (h.size curr+wrap (headerSize+h.size (h.next curr))))
        let h := h.setNext curr (h.next (h.next curr))
        coalesce fuel h curr
      else coalesce fuel h (h.next curr)
    else some h

def free (h : HeapState) (ptr : Nat) : Option HeapState :=
  if ptr=0 then some h
  else
    let block := wrapSub ptr headerSize
    if h.isFree block≠0 then some h
    else
      let h := h.setIsFree block 1
      let h := h.setNext block 0
      (insertFree h block).bind fun h => coalesce rounds h h.freeListHead

def realloc (arena : Arena) (h : HeapState) (ptr size : Nat) : Option (HeapState × Nat) :=
  if ptr=0 then malloc arena h size
  else if size=0 then (free h ptr).map fun h => (h,0)
  else
    let block := wrapSub ptr headerSize
    let currentSize := h.size block
    if size≤currentSize then some (h.setSize block size,ptr)
    else
      (malloc arena h size).bind fun (h,newPtr) =>
        if newPtr≠0 then
          let h := {h with mem := copyBytes h.mem newPtr ptr currentSize}
          (free h ptr).map fun h => (h,newPtr)
        else some (h,newPtr)

/-- The heap that memory_init leaves, in a memory with any contents. -/
def initialHeap (arena : Arena) (mem : Memory) : HeapState :=
  memoryInitHeap arena ⟨mem,false,0⟩

/-- A call of a client, or a byte it writes. -/
inductive Call where
  | malloc (size : Nat)
  | free (ptr : Nat)
  | realloc (ptr size : Nat)
  | write (address : Nat) (byte : UInt8)
  deriving DecidableEq

/-- What a call gives back: a pointer, or nothing because a loop goes on. -/
inductive Outcome where
  | returned (ptr : Nat)
  | hangs
  deriving DecidableEq

/-- The heap and the pointers that the clients hold. -/
structure State where
  heap : HeapState
  live : List Nat

/-- The pointers after one is given up or one is obtained. -/
def State.drop (s : State) (ptr : Nat) : List Nat := s.live.filter fun p => p≠ptr
def obtain (live : List Nat) (ptr : Nat) : List Nat := if ptr=0 then live else ptr::live

def step (arena : Arena) (s : State) : Call → State × List Outcome
  | .malloc size =>
    match malloc arena s.heap size with
    | some (h,p) => (⟨h,obtain s.live p⟩,[.returned p])
    | none => (s,[.hangs])
  | .free ptr =>
    match free s.heap ptr with
    | some h => (⟨h,s.drop ptr⟩,[])
    | none => (s,[.hangs])
  | .realloc ptr size =>
    match realloc arena s.heap ptr size with
    | some (h,p) =>
      if ptr=0 then (⟨h,obtain s.live p⟩,[.returned p])
      else if size=0 then (⟨h,s.drop ptr⟩,[.returned p])
      else if p=0 ∨ p=ptr then (⟨h,s.live⟩,[.returned p])
      else (⟨h,p::s.drop ptr⟩,[.returned p])
    | none => (s,[.hangs])
  | .write address byte => (⟨{s.heap with mem := Function.update s.heap.mem address byte},s.live⟩,[])

def initial (arena : Arena) (mem : Memory) : State := ⟨initialHeap arena mem,[]⟩

end Cllm.Heap
