import Cllm.Framework.Loop
import Cllm.Network.Wire

namespace Cllm.Network

open Libc Loop

abbrev pciVendorId : UInt8 := 0x00
abbrev pciDeviceId : UInt8 := 0x02
abbrev pciClassCode : UInt8 := 0x0B
abbrev pciSubclass : UInt8 := 0x0A
abbrev pciHeaderType : UInt8 := 0x0E
abbrev pciBaseAddress0 : UInt8 := 0x10
abbrev pciBaseAddress1 : UInt8 := 0x14
abbrev pciBaseAddress2 : UInt8 := 0x18
abbrev pciBaseAddress3 : UInt8 := 0x1C
abbrev pciBaseAddress4 : UInt8 := 0x20
abbrev pciBaseAddress5 : UInt8 := 0x24
abbrev pciInterruptLine : UInt8 := 0x3C
abbrev pciInterruptPin : UInt8 := 0x3D

/-- Where a function of a device is. -/
structure Location where
  bus : UInt8
  slot : UInt8
  func : UInt8
  deriving DecidableEq

/-- A configuration space: the doubleword in each register of each function. -/
structure ConfigSpace where
  dword : Location → UInt8 → UInt32

/-- What PCI_CONFIG_DATA reads once PCI_CONFIG_ADDRESS has this address. -/
def ConfigSpace.answer (space : ConfigSpace) (address : UInt32) : UInt32 :=
  space.dword ⟨(address>>>16).toUInt8,((address>>>11)&&&(31 : UInt32)).toUInt8,
    ((address>>>8)&&&(7 : UInt32)).toUInt8⟩ (address&&&(0xFC : UInt32)).toUInt8

section Read

variable (space : ConfigSpace) (bus slot func offset : UInt8)

def pciConfigRead : UInt32 :=
  space.answer (((1 : UInt32)<<<31)|||(bus.toUInt32<<<16)|||(slot.toUInt32<<<11)|||
    (func.toUInt32<<<8)|||(offset&&&(0xFC : UInt8)).toUInt32)

def pciReadDword : UInt32 := pciConfigRead space bus slot func offset

def pciReadWord : UInt16 :=
  ((pciConfigRead space bus slot func offset>>>((offset&&&(2 : UInt8))*8).toUInt32)&&&
    (0xFFFF : UInt32)).toUInt16

def pciReadByte : UInt8 :=
  ((pciConfigRead space bus slot func offset>>>((offset&&&(3 : UInt8))*8).toUInt32)&&&
    (0xFF : UInt32)).toUInt8

end Read

/-- pci_device_t -/
structure PciDevice where
  vendorId : UInt16
  deviceId : UInt16
  bus : UInt8
  slot : UInt8
  func : UInt8
  classCode : UInt8
  subclass : UInt8
  headerType : UInt8
  bar0 : UInt32
  bar1 : UInt32
  bar2 : UInt32
  bar3 : UInt32
  bar4 : UInt32
  bar5 : UInt32
  interruptLine : UInt8
  interruptPin : UInt8
  deriving DecidableEq

/-- pci_devices and pci_device_count, and what has gone to the serial port. -/
structure PciState where
  devices : Vector PciDevice 32
  count : Nat
  count_le : count ≤ 32
  serial : List (List UInt8)

/-- The state before the first call. -/
def PciState.init : PciState where
  devices := Vector.replicate 32 ⟨0,0,0,0,0,0,0,0,0,0,0,0,0,0,0,0⟩
  count := 0
  count_le := Nat.zero_le _
  serial := []

def PciState.serialWrite (s : PciState) (text : List UInt8) : PciState :=
  {s with serial := s.serial++[text]}

/-- The entry that the assignments fill in for a function whose vendor id has been read. -/
def pciDeviceEntry (space : ConfigSpace) (bus slot func : UInt8) (vendorId : UInt16) :
    PciDevice where
  vendorId := vendorId
  deviceId := pciReadWord space bus slot func pciDeviceId
  bus := bus
  slot := slot
  func := func
  classCode := pciReadByte space bus slot func pciClassCode
  subclass := pciReadByte space bus slot func pciSubclass
  headerType := pciReadByte space bus slot func pciHeaderType
  bar0 := pciReadDword space bus slot func pciBaseAddress0
  bar1 := pciReadDword space bus slot func pciBaseAddress1
  bar2 := pciReadDword space bus slot func pciBaseAddress2
  bar3 := pciReadDword space bus slot func pciBaseAddress3
  bar4 := pciReadDword space bus slot func pciBaseAddress4
  bar5 := pciReadDword space bus slot func pciBaseAddress5
  interruptLine := pciReadByte space bus slot func pciInterruptLine
  interruptPin := pciReadByte space bus slot func pciInterruptPin

def PciState.record (s : PciState) (d : PciDevice) : PciState :=
  if h : s.count < 32 then
    let s := {s with devices := s.devices.set s.count d}
    let s := s.serialWrite (cstr "Found PCI device\n")
    {s with count := s.count+1,count_le := h}
  else s

/-- The body of the three loops of pci_enumerate_devices. -/
def pciFunctionTurn (space : ConfigSpace) (bus slot func : UInt8) (s : PciState) :
    ForInStep PciState :=
  let vendorId := pciReadWord space bus slot func pciVendorId
  if vendorId=0xFFFF then
    if func=0 then .done s else .yield s
  else
    let s := s.record (pciDeviceEntry space bus slot func vendorId)
    if func=0 ∧ pciReadByte space bus slot func pciHeaderType&&&0x80=0 then .done s
    else .yield s

def pciEnumerateDevices (space : ConfigSpace) (s : PciState) : PciState :=
  let s := {s with count := 0,count_le := Nat.zero_le _}
  let s := s.serialWrite (cstr "pci_enumerate_devices: Starting PCI enumeration\n")
  let s := counted 255 (fun bus s =>
    .yield (counted 32 (fun slot s =>
      .yield (counted 8 (pciFunctionTurn space bus slot) 0 s)) 0 s)) 0 s
  let s := s.serialWrite (cstr "pci_enumerate_devices: Found PCI devices\n")
  (List.range s.count).foldl (fun s _ => s.serialWrite (cstr "Device found\n")) s

/-- The entries in use. -/
def PciState.recorded (s : PciState) : List PciDevice := s.devices.toList.take s.count

/-- The index of the entry, or NULL. -/
def pciFindDevice (s : PciState) (vendorId deviceId : UInt16) : Option Nat :=
  s.recorded.findIdx? fun d => d.vendorId=vendorId ∧ d.deviceId=deviceId

/-- The address has its parts side by side. -/
theorem address_toNat {bus slot func register : UInt8} (hslot : slot < 32) (hfunc : func < 8) :
    (((1 : UInt32)<<<31)|||(bus.toUInt32<<<16)|||(slot.toUInt32<<<11)|||(func.toUInt32<<<8)|||
      register.toUInt32).toNat=
        register.toNat+func.toNat*2^8+slot.toNat*2^11+bus.toNat*2^16+2^31 := by
  have hs : slot.toNat < 32 := hslot
  have hf : func.toNat < 8 := hfunc
  have hb := bus.toNat_lt
  have hr := register.toNat_lt
  have hfunc' : (register.toUInt32|||(func.toUInt32<<<8)).toNat=register.toNat+func.toNat*2^8 :=
    toNat_or_shiftLeft rfl (by decide) hr (by rw [UInt8.toNat_toUInt32]; omega)
  have hslot' : (register.toUInt32|||(func.toUInt32<<<8)|||(slot.toUInt32<<<11)).toNat=
      register.toNat+func.toNat*2^8+slot.toNat*2^11 := by
    rw [← hfunc']
    exact toNat_or_shiftLeft rfl (by decide) (by omega) (by rw [UInt8.toNat_toUInt32]; omega)
  have hbus' : (register.toUInt32|||(func.toUInt32<<<8)|||(slot.toUInt32<<<11)|||
      (bus.toUInt32<<<16)).toNat=
        register.toNat+func.toNat*2^8+slot.toNat*2^11+bus.toNat*2^16 := by
    rw [← hslot']
    exact toNat_or_shiftLeft rfl (by decide) (by omega) (by rw [UInt8.toNat_toUInt32]; omega)
  have hone : (register.toUInt32|||(func.toUInt32<<<8)|||(slot.toUInt32<<<11)|||
      (bus.toUInt32<<<16)|||((1 : UInt32)<<<31)).toNat=
        register.toNat+func.toNat*2^8+slot.toNat*2^11+bus.toNat*2^16+2^31 := by
    have hlast : (1 : UInt32).toNat*2^31=2^31 := by decide
    rw [← hbus',← hlast]
    exact toNat_or_shiftLeft rfl (by decide) (by omega) (by decide)
  have hreverse (a b c d e : UInt32) : a|||b|||c|||d|||e=e|||d|||c|||b|||a := by
    rw [UInt32.or_comm _ e,UInt32.or_comm _ d,UInt32.or_comm _ c,UInt32.or_comm a b,
      ← UInt32.or_assoc,← UInt32.or_assoc,← UInt32.or_assoc]
  rw [← hone,hreverse]

/-- The host bridge sees the function and the register that were meant. -/
theorem pciConfigRead_eq (space : ConfigSpace) {bus slot func : UInt8} (offset : UInt8)
    (hslot : slot < 32) (hfunc : func < 8) :
    pciConfigRead space bus slot func offset=
      space.dword ⟨bus,slot,func⟩ (offset&&&(0xFC : UInt8)) := by
  have hs : slot.toNat < 32 := hslot
  have hf : func.toNat < 8 := hfunc
  have hb := bus.toNat_lt
  have hr := (offset&&&(0xFC : UInt8)).toNat_lt
  have haddress := @address_toNat bus slot func (offset&&&(0xFC : UInt8)) hslot hfunc
  rw [pciConfigRead]
  generalize ((1 : UInt32)<<<31)|||(bus.toUInt32<<<16)|||(slot.toUInt32<<<11)|||
    (func.toUInt32<<<8)|||(offset&&&(0xFC : UInt8)).toUInt32=address at haddress
  have h16 : (address>>>16).toUInt8=bus := by
    apply UInt8.toNat_inj.mp
    rw [UInt32.toNat_toUInt8,UInt32.toNat_shiftRight,Nat.shiftRight_eq_div_pow]
    change address.toNat/2^16%2^8=_
    omega
  have h11 : ((address>>>11)&&&(31 : UInt32)).toUInt8=slot := by
    apply UInt8.toNat_inj.mp
    rw [UInt32.toNat_toUInt8,UInt32.toNat_and,UInt32.toNat_shiftRight,Nat.shiftRight_eq_div_pow]
    change (address.toNat/2^11&&&2^5-1)%2^8=_
    rw [Nat.and_two_pow_sub_one_eq_mod]
    omega
  have h8 : ((address>>>8)&&&(7 : UInt32)).toUInt8=func := by
    apply UInt8.toNat_inj.mp
    rw [UInt32.toNat_toUInt8,UInt32.toNat_and,UInt32.toNat_shiftRight,Nat.shiftRight_eq_div_pow]
    change (address.toNat/2^8&&&2^3-1)%2^8=_
    rw [Nat.and_two_pow_sub_one_eq_mod]
    omega
  have h0 : (address&&&(0xFC : UInt32)).toUInt8=offset&&&(0xFC : UInt8) := by
    have hlow : address.toUInt8=offset&&&(0xFC : UInt8) := by
      apply UInt8.toNat_inj.mp
      rw [UInt32.toNat_toUInt8]
      omega
    rw [UInt32.toUInt8_and,hlow]
    change offset&&&(0xFC : UInt8)&&&(0xFC : UInt8)=_
    rw [UInt8.and_assoc,UInt8.and_self]
  rw [ConfigSpace.answer,h16,h11,h8,h0]

namespace Location

/-- Bus, slot, function order. -/
def Before (l k : Location) : Prop :=
  l.bus < k.bus ∨ l.bus=k.bus ∧ (l.slot < k.slot ∨ l.slot=k.slot ∧ l.func < k.func)

end Location

namespace ConfigSpace

variable (space : ConfigSpace)

/-- The registers of a function. -/
def device (l : Location) : PciDevice where
  vendorId := (space.dword l 0x00).toUInt16
  deviceId := (space.dword l 0x00>>>16).toUInt16
  bus := l.bus
  slot := l.slot
  func := l.func
  classCode := (space.dword l 0x08>>>24).toUInt8
  subclass := (space.dword l 0x08>>>16).toUInt8
  headerType := (space.dword l 0x0C>>>16).toUInt8
  bar0 := space.dword l 0x10
  bar1 := space.dword l 0x14
  bar2 := space.dword l 0x18
  bar3 := space.dword l 0x1C
  bar4 := space.dword l 0x20
  bar5 := space.dword l 0x24
  interruptLine := (space.dword l 0x3C).toUInt8
  interruptPin := (space.dword l 0x3C>>>8).toUInt8

/-- A vendor id of 0xFFFF is what the bus reads where there is nothing. -/
def Present (l : Location) : Prop :=
  l.slot < 32 ∧ l.func < 8 ∧ (space.device l).vendorId≠0xFFFF

instance (l : Location) : Decidable (space.Present l) :=
  inferInstanceAs (Decidable (_ ∧ _ ∧ _))

/-- A device with any function has function 0, which says whether there are others. -/
structure Regular : Prop where
  first : ∀ l,space.Present l → space.Present {l with func := 0}
  multi : ∀ l,space.Present l → l.func≠0 →
    (space.device {l with func := 0}).headerType&&&0x80≠0

/-- No more functions than pci_devices has room for. -/
def Few : Prop :=
  ∀ ls : List Location,ls.Nodup → (∀ l∈ls,space.Present l) → ls.length ≤ 32

def HasIds (vendorId deviceId : UInt16) (l : Location) : Prop :=
  (space.device l).vendorId=vendorId ∧ (space.device l).deviceId=deviceId

end ConfigSpace

section Reads

variable {space : ConfigSpace} {bus slot func : UInt8}

theorem pciDeviceEntry_eq (hslot : slot < 32) (hfunc : func < 8) :
    pciDeviceEntry space bus slot func (pciReadWord space bus slot func pciVendorId)=
      space.device ⟨bus,slot,func⟩ := by
  have hword (x : UInt32) : (x&&&(0xFFFF : UInt32)).toUInt16=x.toUInt16 := by
    rw [UInt32.toUInt16_and]
    exact UInt16.and_neg_one
  have hbyte (x : UInt32) : (x&&&(0xFF : UInt32)).toUInt8=x.toUInt8 := by
    rw [UInt32.toUInt8_and]
    exact UInt8.and_neg_one
  simp only [pciDeviceEntry,pciReadWord,pciReadByte,pciReadDword,
    pciConfigRead_eq space _ hslot hfunc,hword,hbyte]
  rfl

end Reads

end Cllm.Network
