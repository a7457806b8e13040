import Cllm.Network.Pci

namespace Cllm.Network

open Libc Loop

def PciDevice.location (d : PciDevice) : Location := ⟨d.bus,d.slot,d.func⟩

/-- The functions are recorded, each once and in order, and found. -/
structure Enumerated (space : ConfigSpace) (s : PciState) : Prop where
  present : ∀ l,space.Present l ↔ l∈s.recorded.map PciDevice.location
  order : (s.recorded.map PciDevice.location).Pairwise Location.Before
  contents : ∀ d∈s.recorded,d=space.device d.location
  finds : ∀ vendorId deviceId,
    match pciFindDevice s vendorId deviceId with
    | none => ∀ l,space.Present l → ¬space.HasIds vendorId deviceId l
    | some i => ∃ l,space.Present l ∧ space.HasIds vendorId deviceId l ∧
        s.devices[i]?=some (space.device l) ∧
        ∀ k,space.Present k → space.HasIds vendorId deviceId k → ¬k.Before l

/-- The places on the buses below `bound`, in the order of the loops. -/
def locations (bound : UInt8) : List Location :=
  (counters 0 bound).flatMap fun bus =>
    (counters 0 32).flatMap fun slot => (counters 0 8).map fun func => ⟨bus,slot,func⟩

theorem mem_locations {bound : UInt8} {l : Location} :
    l∈locations bound ↔ l.bus < bound ∧ l.slot < 32 ∧ l.func < 8 := by
  have hzero (i : UInt8) : (0 : UInt8) ≤ i := UInt8.zero_le
  obtain ⟨bus,slot,func⟩ := l
  simp [locations,mem_counters,hzero]

theorem pairwise_locations (bound : UInt8) : (locations bound).Pairwise Location.Before := by
  rw [locations,List.pairwise_flatMap]
  refine ⟨fun bus _ => ?_,(pairwise_counters 0 bound).imp ?_⟩
  · rw [List.pairwise_flatMap]
    refine ⟨fun slot _ => ?_,(pairwise_counters 0 32).imp ?_⟩
    · rw [List.pairwise_map]
      exact (pairwise_counters 0 8).imp fun h => .inr ⟨rfl,.inr ⟨rfl,h⟩⟩
    · intro slot slot' h l hl k hk
      obtain ⟨func,-,rfl⟩ := List.mem_map.mp hl
      obtain ⟨func',-,rfl⟩ := List.mem_map.mp hk
      exact .inr ⟨rfl,.inl h⟩
  · intro bus bus' h l hl k hk
    obtain ⟨slot,-,hl⟩ := List.mem_flatMap.mp hl
    obtain ⟨slot',-,hk⟩ := List.mem_flatMap.mp hk
    obtain ⟨func,-,rfl⟩ := List.mem_map.mp hl
    obtain ⟨func',-,rfl⟩ := List.mem_map.mp hk
    exact .inl h

theorem Location.Before.irrefl (l : Location) : ¬l.Before l := by
  intro h
  rcases h with h | ⟨-,h | ⟨-,h⟩⟩
  · exact UInt8.lt_irrefl _ h
  · exact UInt8.lt_irrefl _ h
  · exact UInt8.lt_irrefl _ h

theorem Location.Before.ne {l k : Location} (h : l.Before k) : l≠k := by
  rintro rfl
  exact irrefl l h

namespace ConfigSpace

variable (space : ConfigSpace)

/-- One visit: what is there is recorded. -/
def visit (s : PciState) (l : Location) : PciState :=
  if space.Present l then s.record (space.device l) else s

end ConfigSpace

section Loops

variable {space : ConfigSpace} {bus slot : UInt8}

theorem present_iff {func : UInt8} (hslot : slot < 32) (hfunc : func < 8) :
    space.Present ⟨bus,slot,func⟩ ↔ pciReadWord space bus slot func pciVendorId≠0xFFFF := by
  have hentry := congrArg PciDevice.vendorId (@pciDeviceEntry_eq space bus slot func hslot hfunc)
  change pciReadWord space bus slot func pciVendorId=
    (space.device ⟨bus,slot,func⟩).vendorId at hentry
  rw [hentry,ConfigSpace.Present,and_iff_right hslot,and_iff_right hfunc]

theorem headerType_eq {func : UInt8} (hslot : slot < 32) (hfunc : func < 8) :
    pciReadByte space bus slot func pciHeaderType=
      (space.device ⟨bus,slot,func⟩).headerType :=
  congrArg PciDevice.headerType (@pciDeviceEntry_eq space bus slot func hslot hfunc)

/-- A turn for a function that is not the first. -/
theorem pciFunctionTurn_later {func : UInt8} (hslot : slot < 32) (hfunc : func < 8)
    (hf : func≠0) (s : PciState) :
    pciFunctionTurn space bus slot func s=.yield (space.visit s ⟨bus,slot,func⟩) := by
  simp only [pciFunctionTurn,hf,if_false,false_and,pciDeviceEntry_eq hslot hfunc,
    ConfigSpace.visit,present_iff hslot hfunc,ite_not]
  split <;> rfl

theorem visit_absent {ls : List Location} (h : ∀ l∈ls,¬space.Present l) (s : PciState) :
    ls.foldl space.visit s=s := by
  induction ls with
  | nil => rfl
  | cons l ls ih =>
    rw [List.forall_mem_cons] at h
    rw [List.foldl_cons,ConfigSpace.visit,if_neg h.1,ih h.2]

/-- The turn for function 0 ends the loop over a device that has no other. -/
theorem pciFunctionTurn_first (hslot : slot < 32) (s : PciState) :
    pciFunctionTurn space bus slot 0 s=
      if space.Present ⟨bus,slot,0⟩ ∧ (space.device ⟨bus,slot,0⟩).headerType&&&0x80≠0 then
        .yield (space.visit s ⟨bus,slot,0⟩)
      else .done (space.visit s ⟨bus,slot,0⟩) := by
  have hfunc : (0 : UInt8) < 8 := by decide
  have hp := @present_iff space bus slot 0 hslot hfunc
  simp only [pciFunctionTurn,pciDeviceEntry_eq hslot hfunc,headerType_eq hslot hfunc,
    ConfigSpace.visit,true_and,if_true]
  by_cases hv : pciReadWord space bus slot 0 pciVendorId=0xFFFF
  · rw [if_pos hv,if_neg (fun h => hp.mp h.1 hv),if_neg (fun h => hp.mp h hv)]
  · have hpresent := hp.mpr hv
    rw [if_neg hv]
    by_cases hb : (space.device ⟨bus,slot,0⟩).headerType&&&0x80=0
    · rw [if_pos hb,if_neg (fun h => h.2 hb),if_pos hpresent]
    · rw [if_neg hb,if_pos ⟨hpresent,hb⟩,if_pos hpresent]

/-- Under the rules, the functions that the break leaves out are not there. -/
theorem pciFunctions_eq (hr : space.Regular) (hslot : slot < 32) (s : PciState) :
    counted 8 (pciFunctionTurn space bus slot) 0 s=
      ((counters 0 8).map fun func => ⟨bus,slot,func⟩).foldl space.visit s := by
  have hzero : (0 : UInt8) < 8 := by decide
  have hone : (0 : UInt8)+1=1 := rfl
  have hne {func : UInt8} (h : 1 ≤ func) : func≠0 := by
    rintro rfl
    exact absurd h (by decide)
  rw [counted,if_pos hzero,counters_cons hzero,hone,List.map_cons,List.foldl_cons,
    pciFunctionTurn_first hslot]
  split_ifs with h
  · simp only
    rw [List.foldl_map]
    apply counted_yield
    intro func s hf hlt
    exact pciFunctionTurn_later hslot hlt (hne hf) s
  · symm
    apply visit_absent
    intro l hl hp
    obtain ⟨func,hf,rfl⟩ := List.mem_map.mp hl
    have hfirst : space.Present ⟨bus,slot,0⟩ := hr.first _ hp
    have hmulti := hr.multi _ hp (hne (mem_counters.mp hf).1)
    exact h ⟨hfirst,hmulti⟩

/-- The three loops visit the places on the buses below 255. -/
theorem pciLoops_eq (hr : space.Regular) (s : PciState) :
    counted 255 (fun bus s => .yield (counted 32 (fun slot s =>
      .yield (counted 8 (pciFunctionTurn space bus slot) 0 s)) 0 s)) 0 s=
        (locations 255).foldl space.visit s := by
  rw [locations,List.foldl_flatMap]
  apply counted_yield
  intro bus s _ _
  rw [List.foldl_flatMap]
  congr 1
  apply counted_yield
  intro slot s _ hslot
  rw [pciFunctions_eq hr hslot]

end Loops

section Records

variable {space : ConfigSpace} {s : PciState}

theorem recorded_length (s : PciState) : s.recorded.length=s.count := by
  rw [PciState.recorded,List.length_take,Vector.length_toList]
  exact Nat.min_eq_left s.count_le

theorem recorded_record (h : s.count < 32) (d : PciDevice) :
    (s.record d).recorded=s.recorded++[d] := by
  have hlen : s.count < s.devices.toList.length := by rwa [Vector.length_toList]
  have hrecord : (s.record d).recorded=(s.devices.toList.set s.count d).take (s.count+1) := by
    rw [PciState.record,dif_pos h]
    simp [PciState.recorded,PciState.serialWrite,Vector.toList_set]
  have htake : (s.devices.toList.take s.count).length=s.count :=
    List.length_take_of_le hlen.le
  rw [hrecord,PciState.recorded,List.set_eq_take_append_cons_drop,if_pos hlen,
    ← List.singleton_append,← List.append_assoc]
  apply List.take_left'
  rw [List.length_append,htake,List.length_singleton]

theorem visit_recorded (ls : List Location) {s : PciState}
    (h : s.count+(ls.filter space.Present).length ≤ 32) :
    (ls.foldl space.visit s).recorded=
      s.recorded++(ls.filter space.Present).map space.device := by
  induction ls generalizing s with
  | nil => simp
  | cons l ls ih =>
    rw [List.foldl_cons,ConfigSpace.visit]
    by_cases hp : space.Present l
    · rw [List.filter_cons_of_pos (by simpa using hp),List.length_cons] at h
      have hlt : s.count < 32 := by omega
      have hcount : (s.record (space.device l)).count=s.count+1 := by
        rw [PciState.record,dif_pos hlt]
        rfl
      rw [if_pos hp,ih (by omega),recorded_record hlt,List.filter_cons_of_pos (by simpa using hp),
        List.map_cons,List.append_assoc,List.singleton_append]
    · rw [List.filter_cons_of_neg (by simpa using hp)] at h ⊢
      rw [if_neg hp]
      exact ih h

theorem recorded_lines (is : List Nat) (s : PciState) (text : List UInt8) :
    (is.foldl (fun s _ => s.serialWrite text) s).recorded=s.recorded := by
  induction is generalizing s with
  | nil => rfl
  | cons i is ih => exact ih (s.serialWrite text)

/-- The functions on the buses below 255, and no others. -/
theorem pciEnumerateDevices_recorded (hr : space.Regular) (hf : space.Few) (s : PciState) :
    (pciEnumerateDevices space s).recorded=
      ((locations 255).filter space.Present).map space.device := by
  have hfew : ((locations 255).filter space.Present).length ≤ 32 := by
    apply hf
    · exact ((pairwise_locations 255).filter _).imp Location.Before.ne
    · intro l hl
      simpa using (List.mem_filter.mp hl).2
  let start := PciState.serialWrite {s with count := 0,count_le := Nat.zero_le _}
    (cstr "pci_enumerate_devices: Starting PCI enumeration\n")
  have hstart : start.recorded=[] := rfl
  have hroom : start.count+((locations 255).filter space.Present).length ≤ 32 := by
    change 0+_ ≤ 32
    omega
  rw [pciEnumerateDevices]
  refine (recorded_lines _ _ _).trans ?_
  change PciState.recorded (counted 255 _ 0 start)=_
  rw [pciLoops_eq hr,visit_recorded _ hroom,hstart,List.nil_append]

end Records

theorem Location.Before.asymm {l k : Location} (h : l.Before k) : ¬k.Before l := by
  unfold Location.Before at *
  simp only [UInt8.lt_iff_toNat_lt] at *
  grind

section Found

variable {space : ConfigSpace} {s : PciState} {ls : List Location}

theorem getElem?_recorded {i : Nat} (h : i < s.count) : s.recorded[i]?=s.devices[i]? := by
  rw [PciState.recorded,List.getElem?_take_of_lt h,Vector.getElem?_toList]

/-- Of entries in order, the one that is found is the first. -/
theorem found_first (hs : s.recorded=ls.map space.device) (ho : ls.Pairwise Location.Before)
    (vendorId deviceId : UInt16) :
    match pciFindDevice s vendorId deviceId with
    | none => ∀ l∈ls,¬space.HasIds vendorId deviceId l
    | some i => ∃ l∈ls,space.HasIds vendorId deviceId l ∧ s.devices[i]?=some (space.device l) ∧
        ∀ k∈ls,space.HasIds vendorId deviceId k → ¬k.Before l := by
  cases hfind : pciFindDevice s vendorId deviceId with
  | none =>
    rw [pciFindDevice,hs,List.findIdx?_eq_none_iff] at hfind
    intro l hl hids
    exact decide_eq_false_iff_not.mp (hfind _ (List.mem_map_of_mem hl)) hids
  | some i =>
    rw [pciFindDevice,List.findIdx?_eq_some_iff_getElem] at hfind
    obtain ⟨hi,hp,hbefore⟩ := hfind
    have hlt : i < ls.length := by rwa [hs,List.length_map] at hi
    have hentry {j : Nat} (hj : j < s.recorded.length) (hj' : j < ls.length) :
        s.recorded[j]=space.device ls[j] := by simp only [hs,List.getElem_map]
    refine ⟨ls[i],List.getElem_mem hlt,?_,?_,?_⟩
    · rw [hentry hi hlt,decide_eq_true_eq] at hp
      exact hp
    · rw [← getElem?_recorded (by rwa [recorded_length] at hi),List.getElem?_eq_getElem hi,
        hentry hi hlt]
    · intro k hk hids hkl
      obtain ⟨j,hj,rfl⟩ := List.getElem_of_mem hk
      have hj' : j < s.recorded.length := by rwa [hs,List.length_map]
      rcases Nat.lt_trichotomy j i with hji | rfl | hij
      · have hno := hbefore j hji
        rw [hentry hj' hj,decide_eq_true_eq] at hno
        exact hno hids
      · exact hkl.irrefl _
      · exact hkl.asymm (List.pairwise_iff_getElem.mp ho i j hlt hj hij)

theorem enumerated_of_recorded (h : s.recorded=ls.map space.device)
    (ho : ls.Pairwise Location.Before) (hp : ∀ l,space.Present l ↔ l∈ls) :
    Enumerated space s where
  present l := by
    rw [h,List.map_map,hp]
    exact (iff_of_eq (congrArg (l∈·) (List.map_id ls))).symm
  order := by
    rw [h,List.map_map]
    exact (List.map_id ls).symm ▸ ho
  contents d hd := by
    rw [h] at hd
    obtain ⟨l,-,rfl⟩ := List.mem_map.mp hd
    rfl
  finds vendorId deviceId := by
    simp only [hp]
    exact found_first h ho vendorId deviceId

theorem mem_locations_of_present {l : Location} (hp : space.Present l) (hb : l.bus≠255) :
    l∈locations 255 := by
  have hlt := l.bus.toNat_lt
  have hne : l.bus.toNat≠255 := fun h => hb (UInt8.toNat_inj.mp h)
  have hbus : l.bus.toNat < 255 := by omega
  exact mem_locations.mpr ⟨hbus,hp.1,hp.2.1⟩

/-- pci_enumerate_devices and pci_find_device do what they are for exactly when there is nothing
on bus 255, to which the loop does not come. -/
theorem enumerated_iff (hr : space.Regular) (hf : space.Few) (s : PciState) :
    Enumerated space (pciEnumerateDevices space s) ↔ ∀ l,space.Present l → l.bus≠255 := by
  have hrecorded := pciEnumerateDevices_recorded hr hf s
  constructor
  · intro h l hp
    have hl := (h.present l).mp hp
    rw [hrecorded,List.map_map] at hl
    obtain ⟨k,hk,rfl⟩ := List.mem_map.mp hl
    have hbus := (mem_locations.mp (List.mem_filter.mp hk).1).1
    exact UInt8.ne_of_lt hbus
  · intro h
    apply enumerated_of_recorded hrecorded ((pairwise_locations 255).filter _)
    intro l
    rw [List.mem_filter,decide_eq_true_eq]
    exact ⟨fun hp => ⟨mem_locations_of_present hp (h l hp),hp⟩,fun hl => hl.2⟩

end Found

section Single

/-- A configuration space with one function, an e1000. -/
def ConfigSpace.single (l : Location) : ConfigSpace where
  dword k register :=
    if k=l then if register=0 then 0x100E8086 else 0 else 0xFFFFFFFF

variable {l : Location}

theorem present_single {k : Location} (h : (ConfigSpace.single l).Present k) : k=l := by
  by_contra hk
  apply h.2.2
  simp only [ConfigSpace.device,ConfigSpace.single,if_neg hk]
  decide

theorem single_regular (hl : l.func=0) : (ConfigSpace.single l).Regular := by
  obtain ⟨bus,slot,func⟩ := l
  obtain rfl : func=0 := hl
  constructor
  · intro k hp
    have hk := present_single hp
    rw [hk] at hp ⊢
    exact hp
  · intro k hp hne
    rw [present_single hp] at hne
    exact absurd rfl hne

theorem single_few (l : Location) : (ConfigSpace.single l).Few := by
  intro ls hnodup hp
  have hall : ∀ k∈ls,k=l := fun k hk => present_single (hp k hk)
  match ls with
  | [] => exact Nat.zero_le _
  | [k] => simp
  | a::b::ls =>
    have hab : a=b := (hall a (by simp)).trans (hall b (by simp)).symm
    simp [hab] at hnodup

theorem single_enumerated : Enumerated (.single ⟨0,3,0⟩)
    (pciEnumerateDevices (.single ⟨0,3,0⟩) .init) := by
  apply (enumerated_iff (single_regular rfl) (single_few ⟨0,3,0⟩) .init).mpr
  intro l hp
  rw [present_single hp]
  decide

/-- A function on bus 255 is not recorded. -/
theorem last_bus_missed : (ConfigSpace.single ⟨255,0,0⟩).Regular ∧
    (ConfigSpace.single ⟨255,0,0⟩).Few ∧
    ¬Enumerated (.single ⟨255,0,0⟩) (pciEnumerateDevices (.single ⟨255,0,0⟩) .init) := by
  have hr : (ConfigSpace.single ⟨255,0,0⟩).Regular := single_regular rfl
  have hf := single_few ⟨255,0,0⟩
  have hp : (ConfigSpace.single ⟨255,0,0⟩).Present ⟨255,0,0⟩ := by decide
  refine ⟨hr,hf,fun h => ?_⟩
  have hl := (h.present _).mp hp
  rw [pciEnumerateDevices_recorded hr hf,List.map_map] at hl
  obtain ⟨k,hk,he⟩ := List.mem_map.mp hl
  have hk' : k=⟨255,0,0⟩ := he
  rw [hk'] at hk
  exact absurd (mem_locations.mp (List.mem_filter.mp hk).1).1 (by decide)

end Single
end Cllm.Network
