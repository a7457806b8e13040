import Mathlib.Algebra.Group.Nat.Defs
import Mathlib.Data.List.TakeWhile
import Mathlib.Tactic.Common

namespace Cllm.Libc

abbrev cr : UInt8 := 13
abbrev lf : UInt8 := 10
abbrev blank : UInt8 := 32

/-- The characters of a string literal, without the terminating NUL. -/
def cstr (s : String) : List UInt8 := s.toList.map (fun c => UInt8.ofNat c.toNat)

/-- A literal as its bytes, with little work for what evaluates them. -/
theorem cstr_ofList (l : List Char) :
    cstr (String.ofList l)=l.map fun c => UInt8.ofNat c.toNat := by
  rw [cstr,String.toList_ofList]

/-- A byte array of fixed size; a write past its end cannot be expressed. -/
structure Buffer (n : Nat) where
  bytes : List UInt8
  size : bytes.length=n
  deriving DecidableEq

/-- A char array of `n` bytes that holds the bytes written to it and a NUL after them. -/
structure CField (n : Nat) where
  bytes : List UInt8
  fits : bytes.length<n
  deriving DecidableEq

namespace Buffer

variable {n : Nat}

def zero (n : Nat) : Buffer n := ⟨List.replicate n 0,by simp⟩

/-- memcpy(buffer + off, src, length of src). -/
def write (b : Buffer n) (off : Nat) (src : List UInt8) (h : off+src.length≤n) : Buffer n :=
  ⟨b.bytes.take off++src++b.bytes.drop (off+src.length),by
    have := b.size
    simp only [List.length_append,List.length_take,List.length_drop]
    omega⟩

theorem take_write (b : Buffer n) (off : Nat) (src : List UInt8) (h : off+src.length≤n) :
    (b.write off src h).bytes.take (off+src.length)=b.bytes.take off++src := by
  have hb := b.size
  have hl : (b.bytes.take off++src).length=off+src.length := by
    simp only [List.length_append,List.length_take]; omega
  exact List.take_left' hl

theorem take_write_before (b : Buffer n) {off k : Nat} (src : List UInt8)
    (h : off+src.length ≤ n) (hk : k ≤ off) :
    (b.write off src h).bytes.take k=b.bytes.take k := by
  have hb := b.size
  have hl : (b.bytes.take off).length=off := by
    rw [List.length_take]
    omega
  change (b.bytes.take off++src++b.bytes.drop (off+src.length)).take k=b.bytes.take k
  rw [List.append_assoc,List.take_append_of_le_length (by omega),List.take_take,
    Nat.min_eq_left hk]

/-- Every byte of the array after a write. -/
theorem getElem?_write (b : Buffer n) (off : Nat) (src : List UInt8) (h : off+src.length ≤ n)
    (i : Nat) : (b.write off src h).bytes[i]?=
      if off ≤ i ∧ i < off+src.length then src[i-off]? else b.bytes[i]? := by
  have hb := b.size
  have hl : (b.bytes.take off).length=off := by
    rw [List.length_take]
    omega
  change (b.bytes.take off++src++b.bytes.drop (off+src.length))[i]?=_
  rw [List.append_assoc]
  by_cases hbefore : i < off
  · rw [if_neg (by omega),List.getElem?_append_left (by omega),List.getElem?_take_of_lt hbefore]
  · rw [List.getElem?_append_right (by omega),hl]
    by_cases hinside : i < off+src.length
    · rw [if_pos (by omega),List.getElem?_append_left (by omega)]
    · rw [if_neg (by omega),List.getElem?_append_right (by omega),List.getElem?_drop]
      congr 1
      omega

theorem getElem_write (b : Buffer n) {k : Nat} {c : UInt8} (h : k+[c].length ≤ n) :
    (b.write k [c] h).bytes[k]?=some c := by
  rw [getElem?_write,if_pos ⟨le_rfl,Nat.lt_succ_self k⟩,Nat.sub_self]
  rfl

/-- strncpy(buffer, s, n) for a string `s`: cut at `n` bytes, filled up with NULs. -/
def ofString (n : Nat) (s : List UInt8) : Buffer n :=
  ⟨s.take n++List.replicate (n-s.length) 0,by
    simp only [List.length_append,List.length_take,List.length_replicate]; omega⟩

theorem ofString_take {n : Nat} {s : List UInt8} (h : s.length≤n) :
    (ofString n s).bytes.take s.length=s := by
  simp only [ofString,List.take_of_length_le h,List.take_left]

end Buffer

def CField.empty (n : Nat) (h : 0<n) : CField n := ⟨[],h⟩

/-- strlen; `none` when the walk leaves the memory. -/
def strlen : List UInt8 → Option Nat
  | [] => none
  | c::cs => if c=0 then some 0 else (strlen cs).map (·+1)

/-- The `n` bytes strncpy writes: the source up to its NUL, then NULs. -/
def strncpy : List UInt8 → Nat → Option (List UInt8)
  | _,0 => some []
  | [],_+1 => none
  | c::cs,n+1 =>
      if c=0 then some (List.replicate (n+1) 0) else (strncpy cs n).map (c::·)

theorem strlen_isSome {s : List UInt8} (h : 0∈s) : (strlen s).isSome := by
  induction s with
  | nil => simp at h
  | cons c s ih =>
    rw [strlen]
    split_ifs with hc
    · rfl
    · have ht : 0∈s := by simpa [Ne.symm hc] using h
      simpa using ih ht

theorem strlen_some {s : List UInt8} {n : Nat} (h : strlen s=some n) :
    n<s.length ∧ 0∉s.take n := by
  induction s generalizing n with
  | nil => simp [strlen] at h
  | cons c s ih =>
    rw [strlen] at h
    split_ifs at h with hc
    · obtain rfl : 0=n := by simpa using h
      simp
    · obtain ⟨m,hm,rfl⟩ := Option.map_eq_some_iff.mp h
      have ht := ih hm
      refine ⟨by simpa using ht.1,?_⟩
      simp only [List.take_succ_cons,List.mem_cons,not_or]
      exact ⟨Ne.symm hc,ht.2⟩

/-- A string with its NUL and more behind it. -/
theorem strlen_append {s : List UInt8} (h : 0∉s) (rest : List UInt8) :
    strlen (s++0::rest)=some s.length := by
  induction s with
  | nil => rfl
  | cons c s ih =>
    rw [List.mem_cons,not_or] at h
    rw [List.cons_append,strlen,if_neg (Ne.symm h.1),ih h.2]
    rfl

theorem strncpy_length {s : List UInt8} {n : Nat} {d : List UInt8}
    (h : strncpy s n=some d) : d.length=n := by
  induction n generalizing s d with
  | zero => obtain rfl : []=d := by simpa [strncpy] using h
            rfl
  | succ n ih =>
    cases s with
    | nil => simp [strncpy] at h
    | cons c cs =>
      rw [strncpy] at h
      split_ifs at h with hc
      · obtain rfl := Option.some.inj h
        simp
      · obtain ⟨t,ht,rfl⟩ := Option.map_eq_some_iff.mp h
        simp [ih ht]

theorem strncpy_of_not_mem {s : List UInt8} {n : Nat} (hn : n ≤ s.length) (hz : 0∉s.take n) :
    strncpy s n=some (s.take n) := by
  induction n generalizing s with
  | zero => simp [strncpy]
  | succ n ih =>
    cases s with
    | nil => simp at hn
    | cons c cs =>
      simp only [List.take_succ_cons,List.mem_cons,not_or] at hz
      simp [strncpy,Ne.symm hz.1,ih (by simpa using hn) hz.2]

theorem strncpy_append {s : List UInt8} {n : Nat} (hn : n ≤ s.length) (t : List UInt8) :
    strncpy (s++t) n=strncpy s n := by
  induction n generalizing s with
  | zero => simp [strncpy]
  | succ n ih =>
    cases s with
    | nil => simp at hn
    | cons c s => rw [List.cons_append,strncpy,strncpy,ih (Nat.le_of_succ_le_succ hn)]

theorem strncpy_isSome {s : List UInt8} {n : Nat} (hn : n ≤ s.length) : (strncpy s n).isSome := by
  induction n generalizing s with
  | zero => simp [strncpy]
  | succ n ih =>
    cases s with
    | nil => simp at hn
    | cons c cs =>
      rw [strncpy]
      split_ifs
      · rfl
      · simpa using ih (by simpa using hn)

/-- strncpy(field, src, n); field[n] = NUL. -/
def CField.copy {size : Nat} (src : List UInt8) (n : Nat) (h : n<size) : Option (CField size) :=
  match hc : strncpy src n with
  | none => none
  | some d => some ⟨d,by rw [strncpy_length hc]; exact h⟩

theorem CField.copy_eq_some {size : Nat} {src : List UInt8} {n : Nat} {h : n<size}
    {f : CField size} (hf : CField.copy src n h=some f) : strncpy src n=some f.bytes := by
  unfold CField.copy at hf
  split at hf
  · cases hf
  · next hd =>
    injection hf with hf
    rw [hd,← hf]

theorem CField.copy_isSome {size : Nat} {src : List UInt8} {n : Nat} (h : n<size)
    (hn : n ≤ src.length) : (CField.copy src n h).isSome := by
  obtain ⟨d,hd⟩ := Option.isSome_iff_exists.mp (strncpy_isSome hn)
  unfold CField.copy
  split
  · next hc => simp [hd] at hc
  · rfl

/-- The same where the source is known to have `n` bytes. -/
def CField.copyWithin {size : Nat} (src : List UInt8) (n : Nat) (h : n<size)
    (hn : n ≤ src.length) : CField size := (CField.copy src n h).get (CField.copy_isSome h hn)

theorem CField.copyWithin_strncpy {size : Nat} (src : List UInt8) (n : Nat) (h : n<size)
    (hn : n ≤ src.length) : (strncpy src n).getD []=(CField.copyWithin src n h hn).bytes := by
  have hc : ∀ f,CField.copy src n h=some f → (strncpy src n).getD []=f.bytes := by
    intro f hf
    rw [CField.copy_eq_some hf]
    rfl
  apply hc
  exact (Option.some_get _).symm

theorem CField.copyWithin_bytes {size : Nat} {src : List UInt8} {n : Nat} (h : n<size)
    (hn : n ≤ src.length) (hz : 0∉src.take n) :
    (CField.copyWithin src n h hn).bytes=src.take n := by
  rw [← CField.copyWithin_strncpy,strncpy_of_not_mem hn hz]
  rfl

/-- strcmp of two strings, each with a NUL behind its last byte. -/
def strcmp : List UInt8 → List UInt8 → Int
  | [],t => -((t.headD 0).toNat : Int)
  | c::s,t =>
    if c≠0 ∧ c=t.headD 0 then strcmp s t.tail else (c.toNat : Int)-(t.headD 0).toNat

/-- The bytes in front of the first NUL. -/
def cut (s : List UInt8) : List UInt8 := s.takeWhile (fun c => c≠0)

theorem cut_of_not_mem {s : List UInt8} (h : 0∉s) : cut s=s := by
  rw [cut,List.takeWhile_eq_self_iff]
  intro c hc
  rw [decide_eq_true_eq]
  rintro rfl
  exact h hc

/-- strncpy of memory that it does not leave. -/
theorem strncpy_cut {s : List UInt8} {n : Nat} (hn : n ≤ s.length) :
    strncpy s n=some (cut (s.take n)++List.replicate (n-(cut (s.take n)).length) 0) := by
  induction n generalizing s with
  | zero => simp [strncpy,cut]
  | succ n ih =>
    cases s with
    | nil => simp at hn
    | cons c s =>
      rw [strncpy,List.take_succ_cons]
      split
      · next hc => simp [cut,hc]
      · next hc =>
        have hcut : cut (c::s.take n)=c::cut (s.take n) := by simp [cut,hc]
        rw [ih (Nat.le_of_succ_le_succ hn),hcut]
        simp

theorem zero_not_mem_cut (s : List UInt8) : 0∉cut s := by
  intro h
  simpa using List.mem_takeWhile_imp h

theorem take_length_cut (s : List UInt8) : s.take (cut s).length=cut s :=
  List.prefix_iff_eq_take.mp (List.takeWhile_prefix _) |>.symm

/-- A string in an array, with its NUL and more behind it. -/
theorem cut_terminated {s : List UInt8} (h : 0∉s) (rest : List UInt8) : cut (s++0::rest)=s := by
  have hs : ∀ c∈s,decide (c≠0)=true := by
    intro c hc
    rw [decide_eq_true_eq]
    rintro rfl
    exact h hc
  rw [cut,List.takeWhile_append_of_pos hs,List.takeWhile_cons_of_neg (by simp),List.append_nil]

theorem strcmp_eq_zero {s t : List UInt8} : strcmp s t=0 ↔ cut s=cut t := by
  have hz : ∀ u : List UInt8,u.headD 0=0 ↔ cut u=[] := by
    intro u
    cases u with
    | nil => simp [cut]
    | cons c u => by_cases hc : c=0 <;> simp [cut,hc]
  have hn : ∀ c : UInt8,c.toNat=0 ↔ c=0 := fun c => by rw [← UInt8.toNat_inj]; rfl
  induction s generalizing t with
  | nil =>
    rw [strcmp]
    have h := hz t
    rw [← hn] at h
    have hnil : cut []=[] := rfl
    rw [hnil,eq_comm (a := []),← h]
    omega
  | cons c s ih =>
    rw [strcmp]
    split
    · next h =>
      obtain ⟨h0,ht⟩ := h
      cases t with
      | nil => exact absurd ht h0
      | cons d t =>
        have hcd : c=d := ht
        subst hcd
        refine (ih (t := t)).trans ?_
        simp [cut,h0]
    · next h =>
      by_cases h0 : c=0
      · have hnil : cut (c::s)=[] := by simp [cut,h0]
        have hd := hz t
        rw [← hn] at hd
        rw [hnil,eq_comm (a := []),← hd,h0]
        simp
      · have hne : c≠t.headD 0 := fun he => h ⟨h0,he⟩
        have hl : (c.toNat : Int)-(t.headD 0).toNat≠0 := by
          intro he
          apply hne
          rw [← UInt8.toNat_inj]
          omega
        refine iff_of_false hl ?_
        cases t with
        | nil => simp [cut,h0]
        | cons d t =>
          have hcd : c≠d := hne
          by_cases hd : d=0 <;> simp [cut,h0,hd,hcd]

end Cllm.Libc
