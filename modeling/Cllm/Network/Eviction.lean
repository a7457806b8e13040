import Cllm.Framework.Recency
import Cllm.Network.Arp

namespace Cllm.Network

open Libc Machine Cache

/-- The valid entries are the addresses heard from last, as many as the table has entries, each
once and with its latest MAC. -/
def HoldsNewest (table : ArpTable) (log : List (UInt32 × Mac)) : Prop :=
  Distinct table.slots ∧ MostRecent arpTableSize table.slots log

/-- A frame from an address that a full table does not have comes while the first entry is the
one heard from longest ago. -/
def EvictsOldest (table : ArpTable) (log : List (UInt32 × Mac)) (frame : List UInt8) : Prop :=
  ∀ ip mac,arpSender frame=some (ip,mac) → (∀ i,(table i).valid=true ∧ (table i).ip≠ip) →
    (recency log)[arpTableSize-1]?=some (table ⟨0,arpTable_pos⟩).ip

variable {table : ArpTable} {log : List (UInt32 × Mac)} {ip : UInt32}

theorem slots_of_valid {i : Fin arpTableSize} (h : (table i).valid=true) :
    table.slots i=some ((table i).ip,(table i).mac) := slots_eq_some.mpr ⟨h,rfl,rfl⟩

theorem slots_of_invalid {i : Fin arpTableSize} (h : (table i).valid=false) :
    table.slots i=none := by simp [ArpTable.slots,h]

theorem arpPlace_known {i : Fin arpTableSize} (h : arpLookup table ip=some i) :
    arpPlace table ip=i := by simp [arpPlace,h]

theorem arpPlace_empty (h : arpLookup table ip=none) (hv : ¬∀ i,(table i).valid=true) :
    (table (arpPlace table ip)).valid=false := by
  cases hf : (List.finRange arpTableSize).find? (fun i => !(table i).valid) with
  | none =>
    exfalso
    apply hv
    intro i
    simpa using List.find?_eq_none.mp hf i (List.mem_finRange i)
  | some i =>
    have hi := List.find?_some hf
    have hp : arpPlace table ip=i := by simp [arpPlace,h,hf]
    rw [hp]
    simpa using hi

theorem arpPlace_full (h : arpLookup table ip=none) (hv : ∀ i,(table i).valid=true) :
    arpPlace table ip=⟨0,by decide⟩ := by
  have hf : (List.finRange arpTableSize).find? (fun i => !(table i).valid)=none := by
    rw [List.find?_eq_none]
    intro i _
    simp [hv i]
  simp [arpPlace,h,hf]

theorem arpLookup_eq_none_iff :
    arpLookup table ip=none ↔ ∀ i,¬((table i).valid=true ∧ (table i).ip=ip) := by
  simp [arpLookup]

/-- One step keeps the newest addresses exactly when it gives up none but the oldest. -/
theorem HoldsNewest.store_iff (h : HoldsNewest table log) (ip : UInt32) (mac : Mac) :
    HoldsNewest (arpStore table ip mac) (log++[(ip,mac)]) ↔
      ((∀ i,(table i).valid=true ∧ (table i).ip≠ip) →
        (recency log)[arpTableSize-1]?=some (table ⟨0,arpTable_pos⟩).ip) := by
  obtain ⟨hd,hr⟩ := h
  have ha := arpPlace_admits ip hd
  have hd' := hd.put ha mac
  rw [HoldsNewest,arpStore_slots,and_iff_right hd']
  have hcard : Fintype.card (Fin arpTableSize)=3+1 := rfl
  cases hl : arpLookup table ip with
  | some i =>
    have hi := arpLookup_some hl
    have hknown := (slots_eq_some.mp hi).2.1
    rw [arpPlace_known hl]
    apply iff_of_true (hr.refresh hd hi mac)
    intro hall
    exact absurd hknown (hall i).2
  | none =>
    have hnew : ip∉newest (3+1) log := by
      intro hk
      obtain ⟨i,v,hi⟩ := (hr.held mem_newest_latest ip).mpr hk
      exact arpLookup_none hl i v hi
    by_cases hv : ∀ i,(table i).valid=true
    · have hfirst := slots_of_valid (hv ⟨0,by decide⟩)
      have hall : ∀ i,(table i).valid=true ∧ (table i).ip≠ip :=
        fun i => ⟨hv i,fun hip => arpLookup_eq_none_iff.mp hl i ⟨hv i,hip⟩⟩
      rw [forall_prop_of_true hall]
      rw [arpPlace_full hl hv] at ha ⊢
      exact hr.evict_iff hd ha hfirst hnew mac
    · have hempty := slots_of_invalid (arpPlace_empty hl hv)
      apply iff_of_true (hr.fill hcard ha hempty hnew mac)
      intro hall
      exact absurd (fun i => (hall i).1) hv

theorem holdsNewest_init : HoldsNewest arpInit [] := by
  refine ⟨informed_init.distinct,?_⟩
  intro k v
  simp [slots_arpInit,newest,recency]

theorem arpReceiveAll_concat (frames : List (List UInt8)) (frame : List UInt8) :
    arpReceiveAll (frames++[frame])=(arpReceive frame (arpReceiveAll frames)).1 := by
  rw [arpReceiveAll,runState_append]
  rfl

theorem holdsNewest_concat_iff {frames : List (List UInt8)}
    (h : HoldsNewest (arpReceiveAll frames) (announced frames)) (frame : List UInt8) :
    HoldsNewest (arpReceiveAll (frames++[frame])) (announced (frames++[frame])) ↔
      EvictsOldest (arpReceiveAll frames) (announced frames) frame := by
  rw [arpReceiveAll_concat,arpReceive_table]
  cases hs : arpSender frame with
  | none =>
    have hlog : announced (frames++[frame])=announced frames := by simp [announced,hs]
    rw [hlog]
    apply iff_of_true h
    intro ip mac hsome
    rw [hs] at hsome
    cases hsome
  | some e =>
    have hlog : announced (frames++[frame])=announced frames++[e] := by simp [announced,hs]
    have hiff := h.store_iff e.1 e.2
    rw [hlog]
    constructor
    · intro hput ip mac hsome
      rw [hs] at hsome
      cases hsome
      exact hiff.mp hput
    · intro hold
      exact hiff.mpr (hold e.1 e.2 hs)

/-- Along any frames, the table holds the addresses heard from last exactly as long as the first
entry, which is the one given up, is the oldest whenever a full table has to give up one. -/
theorem evictions_iff (frames : List (List UInt8)) :
    (∀ fs,fs <+: frames → HoldsNewest (arpReceiveAll fs) (announced fs)) ↔
      ∀ fs frame,fs++[frame] <+: frames →
        EvictsOldest (arpReceiveAll fs) (announced fs) frame := by
  constructor
  · intro h fs frame hp
    have hfs := h fs ((List.prefix_append _ _).trans hp)
    exact (holdsNewest_concat_iff hfs frame).mp (h _ hp)
  · intro h fs hp
    induction fs using List.reverseRecOn with
    | nil => exact holdsNewest_init
    | append_singleton fs frame ih =>
      have hfs := ih ((List.prefix_append _ _).trans hp)
      exact (holdsNewest_concat_iff hfs frame).mpr (h fs frame hp)

/-- A frame from the host 10.0.2.`n` with the MAC 52:54:0:0:0:`n`. -/
def helloFrom (n : UInt8) : List UInt8 :=
  [0,1,8,0,6,4,0,2]++[82,84,0,0,0,n]++[10,0,2,n]++[0,0,0,0,0,0]++[10,0,2,15]

/-- The sixth host takes the place of the fifth, though the second has been silent for longer. -/
theorem sixth_evicts_fifth : ¬HoldsNewest (arpReceiveAll ([21,22,23,24,25,26].map helloFrom))
    (announced ([21,22,23,24,25,26].map helloFrom)) := by
  intro h
  have hfifth : 0x0A000219∈newest arpTableSize
      (announced ([21,22,23,24,25,26].map helloFrom)) := by decide
  obtain ⟨i,v,hi⟩ := (h.2.held mem_newest_latest _).mpr hfifth
  have hip := (slots_eq_some.mp hi).2.1
  have hall : ∀ i,(arpReceiveAll ([21,22,23,24,25,26].map helloFrom) i).ip≠0x0A000219 := by
    decide
  exact hall i hip

end Cllm.Network
