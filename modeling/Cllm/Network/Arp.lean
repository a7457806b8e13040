import Cllm.Framework.Cache
import Cllm.Framework.Machine
import Cllm.Network.Ip

namespace Cllm.Network

open Libc Machine Cache

/-- arp_init -/
def arpInit : ArpTable := fun _ => ⟨0,⟨List.replicate ethAddrLen 0,List.length_replicate⟩,false⟩

theorem sha_length {frame : List UInt8} (h : ¬frame.length < arpPacketSize) :
    ((frame.drop 8).take ethAddrLen).length=ethAddrLen := by
  have hl : 28 ≤ frame.length := Nat.le_of_not_lt h
  have he : ethAddrLen=6 := rfl
  rw [List.length_take,List.length_drop]
  omega

/-- The sender's addresses in a frame that arp_receive accepts. -/
def arpSender (frame : List UInt8) : Option (UInt32 × Mac) :=
  if h : frame.length < arpPacketSize then none
  else if be16 (load16 frame 0)≠1 ∨ be16 (load16 frame 2)≠ethertypeIp then none
  else some (be32 (load32 frame 14),⟨(frame.drop 8).take ethAddrLen,sha_length h⟩)

/-- The addresses that a sequence of frames announces, in their order. -/
def announced (frames : List (List UInt8)) : List (UInt32 × Mac) := frames.filterMap arpSender

/-- The table as a cache of MACs. -/
def ArpTable.slots (table : ArpTable) : Slots (Fin arpTableSize) UInt32 Mac :=
  fun i => if (table i).valid then some ((table i).ip,(table i).mac) else none

theorem slots_eq_some {table : ArpTable} {i : Fin arpTableSize} {ip : UInt32} {mac : Mac} :
    table.slots i=some (ip,mac) ↔ (table i).valid=true ∧ (table i).ip=ip ∧ (table i).mac=mac := by
  simp [ArpTable.slots]

theorem slots_arpInit (i : Fin arpTableSize) : arpInit.slots i=none := rfl

theorem arpLookup_some {table : ArpTable} {ip : UInt32} {i : Fin arpTableSize}
    (h : arpLookup table ip=some i) : table.slots i=some (ip,(table i).mac) := by
  have hi := List.find?_some h
  simp only [Bool.and_eq_true,decide_eq_true_eq] at hi
  exact slots_eq_some.mpr ⟨hi.1,hi.2,rfl⟩

theorem arpLookup_none {table : ArpTable} {ip : UInt32} (h : arpLookup table ip=none)
    (i : Fin arpTableSize) (mac : Mac) : table.slots i≠some (ip,mac) := by
  intro hi
  obtain ⟨hv,hip,-⟩ := slots_eq_some.mp hi
  have hn := List.find?_eq_none.mp h i (List.mem_finRange i)
  simp [hv,hip] at hn

/-- The entry that arp_store assigns. -/
theorem arpTable_pos : 0 < arpTableSize := by decide

def arpPlace (table : ArpTable) (ip : UInt32) : Fin arpTableSize :=
  ((arpLookup table ip).or ((List.finRange arpTableSize).find? fun i => !(table i).valid)).getD
    ⟨0,arpTable_pos⟩

theorem arpPlace_admits {table : ArpTable} (ip : UInt32) (hd : Distinct table.slots) :
    Admits table.slots (arpPlace table ip) ip := by
  intro j v hj
  cases hl : arpLookup table ip with
  | none => exact absurd hj (arpLookup_none hl j v)
  | some i =>
    have hi : arpPlace table ip=i := by simp [arpPlace,hl]
    rw [hi]
    exact hd j i ip v _ hj (arpLookup_some hl)

theorem arpStore_slots (table : ArpTable) (ip : UInt32) (mac : Mac) :
    (arpStore table ip mac).slots=put table.slots (arpPlace table ip) ip mac := by
  funext j
  by_cases hj : j=arpPlace table ip
  · subst hj
    rw [put_self,slots_eq_some]
    simp [arpStore,arpPlace]
  · rw [put_of_ne _ _ _ hj]
    have hs : arpStore table ip mac j=table j := Function.update_of_ne hj ..
    simp only [ArpTable.slots,hs]

/-- arp_receive changes the table by what the frame announces. -/
theorem arpReceive_table (frame : List UInt8) (table : ArpTable) :
    (arpReceive frame table).1=
      match arpSender frame with
      | some (ip,mac) => arpStore table ip mac
      | none => table := by
  simp only [arpReceive,arpSender]
  split_ifs <;> rfl

/-- The table after frames have been received in turn. -/
def arpReceiveAll (frames : List (List UInt8)) : ArpTable :=
  runState (fun table frame => arpReceive frame table) arpInit frames

/-- What the table knows after a history of announcements: no address twice, no MAC that has
been replaced since, and always the last sender's. -/
structure Informed (table : ArpTable) (log : List (UInt32 × Mac)) : Prop where
  distinct : Distinct table.slots
  fresh : Fresh table.slots log
  last : ∀ ip mac,log.getLast?=some (ip,mac) → ∃ i,table.slots i=some (ip,mac)

theorem informed_init : Informed arpInit [] where
  distinct := by
    intro i j ip v w hi
    rw [slots_arpInit] at hi
    cases hi
  fresh := by
    intro i ip v hi
    rw [slots_arpInit] at hi
    cases hi
  last := by
    intro ip mac h
    cases h

theorem Informed.store {table : ArpTable} {log : List (UInt32 × Mac)} (h : Informed table log)
    (ip : UInt32) (mac : Mac) : Informed (arpStore table ip mac) (log++[(ip,mac)]) := by
  have ha := arpPlace_admits ip h.distinct
  have hs := arpStore_slots table ip mac
  refine ⟨?_,?_,?_⟩
  · rw [hs]
    exact h.distinct.put ha mac
  · rw [hs]
    exact h.fresh.put ha mac
  · intro ip' mac' hl
    rw [List.getLast?_concat,Option.some.injEq] at hl
    refine ⟨arpPlace table ip,?_⟩
    rw [hs,← hl]
    apply put_self

theorem Informed.receive {table : ArpTable} {frames : List (List UInt8)}
    (h : Informed table (announced frames)) (frame : List UInt8) :
    Informed (arpReceive frame table).1 (announced (frames++[frame])) := by
  rw [arpReceive_table]
  cases hs : arpSender frame with
  | none =>
    have ha : announced (frames++[frame])=announced frames := by simp [announced,hs]
    rw [ha]
    exact h
  | some e =>
    have ha : announced (frames++[frame])=announced frames++[e] := by simp [announced,hs]
    rw [ha]
    exact h.store e.1 e.2

theorem receiveAll_informed (frames : List (List UInt8)) :
    Informed (arpReceiveAll frames) (announced frames) := by
  have hrun := history_along (fun table frame => arpReceive frame table)
    (fun table frames _ => Informed table (announced frames)) (P := fun _ _ => True)
    (fun table frames _ frame h _ => h.receive frame) (h := []) (o := []) informed_init
    (along_of_forall _ (fun _ _ => trivial) _ frames)
  exact hrun

theorem Informed.resolve {table : ArpTable} {log : List (UInt32 × Mac)} (h : Informed table log)
    {ip : UInt32} {mac : Mac} : (arpResolve table ip).1=some mac ↔
      ∃ i,table.slots i=some (ip,mac) := by
  rw [arpResolve]
  cases hl : arpLookup table ip with
  | none =>
    constructor
    · intro hm
      cases hm
    · intro hex
      obtain ⟨i,hi⟩ := hex
      exact absurd hi (arpLookup_none hl i mac)
  | some j =>
    have hj := arpLookup_some hl
    constructor
    · intro hm
      use j
      rw [hj]
      simpa using hm
    · intro hex
      obtain ⟨i,hi⟩ := hex
      have hij : i=j := h.distinct i j ip mac _ hi hj
      subst hij
      exact congrArg some (slots_eq_some.mp hi).2.2

/-- After any frames, the table holds no address twice, answers with the MAC of the most recent
accepted frame of the sender or not at all, and resolves the last sender. -/
theorem resolve_latest (frames : List (List UInt8)) :
    (∀ i j : Fin arpTableSize,(arpReceiveAll frames i).valid=true →
      (arpReceiveAll frames j).valid=true →
      (arpReceiveAll frames i).ip=(arpReceiveAll frames j).ip → i=j) ∧
    (∀ ip,(arpResolve (arpReceiveAll frames) ip).1=none ∨
      (arpResolve (arpReceiveAll frames) ip).1=latest ip (announced frames)) ∧
    (∀ ip mac,(announced frames).getLast?=some (ip,mac) →
      (arpResolve (arpReceiveAll frames) ip).1=some mac) := by
  have h := receiveAll_informed frames
  refine ⟨?_,?_,?_⟩
  · intro i j hi hj hip
    exact h.distinct i j _ _ _ (slots_eq_some.mpr ⟨hi,rfl,rfl⟩)
      (slots_eq_some.mpr ⟨hj,hip.symm,rfl⟩)
  · intro ip
    cases hm : (arpResolve (arpReceiveAll frames) ip).1 with
    | none => exact .inl rfl
    | some mac =>
      obtain ⟨i,hi⟩ := h.resolve.mp hm
      exact .inr (h.fresh i ip mac hi).symm
  · intro ip mac hl
    apply h.resolve.mpr
    exact h.last ip mac hl

end Cllm.Network
