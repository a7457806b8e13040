import Cllm.Http.RequestBounds
import Cllm.Libc.Decimal

namespace Cllm.Http

open Libc

/-- What may stand behind a line. -/
abbrev LineEnd (e : UInt8) : Prop := e=0 ∨ e=cr ∨ e=lf

abbrev contentLengthName : List UInt8 := cstr "Content-Length:"

abbrev contentTypeName : List UInt8 := cstr "Content-Type:"

/-- The line starts with `name`, in any case. -/
def named (name line : List UInt8) : Bool :=
  (line.take name.length).map lowerCase=name.map lowerCase

/-- What stands behind the name and its blanks. -/
def valueOf (name line : List UInt8) : List UInt8 :=
  (line.drop name.length).dropWhile fun c => c=blank

def decimal (c : UInt8) : Bool := 48≤c ∧ c≤57

/-- The number that stands behind "Content-Length:". -/
def lengthOf (line : List UInt8) : Nat :=
  decimalValue 0 ((valueOf contentLengthName line).takeWhile decimal)

def typeChar (c : UInt8) : Bool := ¬(c=0 ∨ c=cr ∨ c=lf ∨ c=59)

/-- The type that stands behind "Content-Type:", as far as there is room for it. -/
def typeText (line : List UInt8) : List UInt8 :=
  ((valueOf contentTypeName line).takeWhile typeChar).take 63

theorem typeText_fits (line : List UInt8) : (typeText line).length < 64 :=
  Nat.lt_succ_of_le (List.length_take_le _ _)

def typeOf (line : List UInt8) : CField 64 := ⟨typeText line,typeText_fits line⟩

/-- content_length after the line, where it is set. -/
def readLength (line : List UInt8) : Option Nat :=
  if named contentLengthName line then some (lengthOf line%2^32) else none

def readType (line : List UInt8) : Option (CField 64) :=
  if named contentTypeName line then some (typeOf line) else none

/-- The request after a header line. -/
def HttpRequest.read (r : HttpRequest) (line : List UInt8) : HttpRequest :=
  {r with contentLength := (readLength line).getD r.contentLength,
          contentType := (readType line).getD r.contentType}

def HttpRequest.readAll (r : HttpRequest) (lines : List (List UInt8)) : HttpRequest :=
  lines.foldl HttpRequest.read r

variable {e : UInt8} {s x line : List UInt8} {r : HttpRequest}

theorem named_cons (c d : UInt8) (name line : List UInt8) :
    named (d::name) (c::line)=(decide (lowerCase c=lowerCase d) && named name line) := by
  simp [named,Bool.decide_and]

theorem strStartsWithCi_named {name : List UInt8} (he : ∀ c∈name,lowerCase e≠lowerCase c)
    (line x : List UInt8) : strStartsWithCi (line++e::x) name=some (named name line) := by
  induction name generalizing line with
  | nil => cases line <;> rfl
  | cons d name ih =>
    rw [List.forall_mem_cons] at he
    cases line with
    | nil =>
      rw [List.nil_append,strStartsWithCi,if_pos he.1]
      simp [named]
    | cons c line =>
      rw [List.cons_append,strStartsWithCi,named_cons]
      split
      · next hc => simp [hc]
      · next hc =>
        rw [ih he.2 line]
        simp [not_not.mp hc]

theorem named_length {name : List UInt8} (h : named name line=true) :
    name.length ≤ line.length := by
  have hl := congrArg List.length (of_decide_eq_true h)
  rw [List.length_map,List.length_map,List.length_take] at hl
  omega

theorem skipBlanks_append (he : e≠blank) (s x : List UInt8) :
    skipBlanks (s++e::x)=some ((s.dropWhile fun c => c=blank)++e::x) := by
  induction s with
  | nil => rw [List.nil_append,skipBlanks,if_neg he]; rfl
  | cons c s ih =>
    rw [List.cons_append,skipBlanks]
    split
    · next hc => rw [ih,List.dropWhile_cons_of_pos (by simp [hc])]
    · next hc => rw [List.dropWhile_cons_of_neg (by simp [hc])]; rfl

theorem decimalValue_mod (a m : Nat) (ds : List UInt8) :
    decimalValue (a%m) ds%m=decimalValue a ds%m := by
  induction ds generalizing a with
  | nil => exact Nat.mod_mod a m
  | cons d ds ih =>
    rw [decimalValue_cons,decimalValue_cons,← ih (10*(a%m)+(d.toNat-48)),
      ← ih (10*a+(d.toNat-48))]
    congr 2
    rw [Nat.add_mod,Nat.mul_mod,Nat.mod_mod,← Nat.mul_mod,← Nat.add_mod]

theorem parseDigits_append (he : decimal e=false) (s x : List UInt8) {n : Nat} (hn : n < 2^32) :
    parseDigits (s++e::x) n=some (decimalValue n (s.takeWhile decimal)%2^32) := by
  induction s generalizing n with
  | nil =>
    have hd : ¬(48≤e ∧ e≤57) := of_decide_eq_false he
    rw [List.nil_append,parseDigits,if_neg hd,List.takeWhile_nil]
    exact congrArg some (Nat.mod_eq_of_lt hn).symm
  | cons c s ih =>
    rw [List.cons_append,parseDigits]
    split
    · next hc =>
      have hd : decimal c=true := decide_eq_true hc
      rw [ih (Nat.mod_lt _ (by decide)),List.takeWhile_cons_of_pos hd,decimalValue_cons,
        decimalValue_mod,Nat.mul_comm n]
    · next hc =>
      have hd : ¬decimal c=true := fun h => hc (of_decide_eq_true h)
      rw [List.takeWhile_cons_of_neg hd]
      exact congrArg some (Nat.mod_eq_of_lt hn).symm

theorem takeValue_append (he : typeChar e=false) (n : Nat) (s x : List UInt8) :
    (takeValue n (s++e::x)).map Subtype.val=some ((s.takeWhile typeChar).take n) := by
  have hstop : ∀ {c : UInt8},typeChar c=false → c=0 ∨ c=cr ∨ c=lf ∨ c=59 := by
    intro c hc
    exact not_not.mp (of_decide_eq_false hc)
  induction s generalizing n with
  | nil =>
    rw [List.nil_append,takeValue.eq_def]
    simp [hstop he]
  | cons c s ih =>
    rw [List.cons_append,takeValue.eq_def]
    simp only
    cases hc : typeChar c with
    | false =>
      rw [if_pos (hstop hc),List.takeWhile_cons_of_neg (by simp [hc])]
      simp
    | true =>
      have hgo : ¬(c=0 ∨ c=cr ∨ c=lf ∨ c=59) := of_decide_eq_true hc
      rw [if_neg hgo,List.takeWhile_cons_of_pos hc]
      cases n with
      | zero => rfl
      | succ n =>
        have hn := ih n
        simp only [Option.map_map,List.take_succ_cons]
        cases ht : takeValue n (s++e::x) with
        | none =>
          rw [ht] at hn
          cases hn
        | some t =>
          rw [ht] at hn
          have ht' : t.1=_ := Option.some.inj hn
          simp [ht']

/-- No line is both. -/
theorem named_apart (h : named contentLengthName line=true) :
    named contentTypeName line=false := by
  have hlen : contentLengthName.length=15 ∧ contentTypeName.length=13 := by decide
  have h1 := of_decide_eq_true h
  rw [hlen.1] at h1
  have h13 : (line.take 13).map lowerCase=(contentLengthName.map lowerCase).take 13 := by
    rw [← h1,← List.map_take,List.take_take]
    rfl
  apply decide_eq_false
  rw [hlen.2,h13]
  decide

theorem lineEnd_apart (he : LineEnd e) : e≠blank ∧ decimal e=false ∧ typeChar e=false ∧
    (∀ c∈contentLengthName,lowerCase e≠lowerCase c) ∧
    (∀ c∈contentTypeName,lowerCase e≠lowerCase c) := by
  obtain rfl | rfl | rfl := he <;> decide +kernel

/-- parse_header on a line, with whatever stands behind it. -/
theorem parseHeader_read (he : LineEnd e) (line x : List UInt8) (r : HttpRequest) :
    parseHeader (line++e::x) r=some (r.read line) := by
  obtain ⟨hblank,hdigit,htype,hl,ht⟩ := lineEnd_apart he
  have hlen : contentLengthName.length=15 ∧ contentTypeName.length=13 := by decide
  rw [parseHeader,strStartsWithCi_named hl,strStartsWithCi_named ht]
  simp only [Option.bind_eq_bind,Option.bind_some]
  cases hcl : named contentLengthName line with
  | true =>
    have h15 := named_length hcl
    rw [hlen.1] at h15
    have hskip := skipBlanks_append hblank (line.drop 15) x
    have hnum := parseDigits_append hdigit ((line.drop 15).dropWhile fun c => c=blank) x
      (n := 0) (by decide)
    rw [if_pos rfl,List.drop_append_of_le_length h15,hskip,Option.bind_some,hnum,
      Option.bind_some]
    simp [HttpRequest.read,readLength,readType,hcl,named_apart hcl,lengthOf,valueOf,hlen.1]
  | false =>
    rw [if_neg Bool.false_ne_true]
    cases hct : named contentTypeName line with
    | true =>
      have h13 := named_length hct
      rw [hlen.2] at h13
      have hskip := skipBlanks_append hblank (line.drop 13) x
      have htext := takeValue_append htype 63 ((line.drop 13).dropWhile fun c => c=blank) x
      obtain ⟨t,hv,ht⟩ := Option.map_eq_some_iff.mp htext
      rw [if_pos rfl,List.drop_append_of_le_length h13,hskip,Option.bind_some,hv,
        Option.bind_some]
      simp [HttpRequest.read,readLength,readType,hcl,hct,typeOf,typeText,valueOf,hlen.2,ht]
    | false =>
      rw [if_neg Bool.false_ne_true]
      simp [HttpRequest.read,readLength,readType,hcl,hct]

/-- An empty line has no effect. -/
theorem read_nil (r : HttpRequest) : r.read []=r := by
  have hl : readLength []=none := by decide
  have ht : readType []=none := by decide
  simp [HttpRequest.read,hl,ht]

end Cllm.Http
