import Cllm.Framework.Numeral
import Cllm.Json.Number

namespace Cllm.Json

open Libc Rfc8259

variable {δ φ : Type} [Double δ φ]

/-- An operation with the result `z`; `none` is a signed overflow. -/
def intResult (z : Int) : Option Int32 :=
  if -2147483648 ≤ z ∧ z ≤ 2147483647 then some (Int32.ofInt z) else none

/-- numberStep, which computes with an `int` for a digit of the exponent only. -/
def checkedStep (first : Bool) (n : NumberState δ) (c : UInt8) : Option (NumberState δ) :=
  if isDigit c ∧ n.inExponent then do
    let tens ← intResult (n.exponent.toInt*10)
    let sum ← intResult (tens.toInt+(c.toNat-48 : Nat))
    some {n with exponent := sum}
  else some (numberStep first n c)

def checkedLoop (text : List UInt8) : Option (NumberState δ) :=
  match text with
  | [] => some NumberState.init
  | c::cs => do
    let n ← checkedStep true NumberState.init c
    cs.foldlM (checkedStep false) n

/-- The counter of for (int i = 0; i < n; i++), with `turns` to go. -/
def countTurns : (turns : Nat) → Int32 → Option Int32
  | 0,i => some i
  | turns+1,i => do
    let i ← intResult (i.toInt+1)
    countTurns turns i

/-- The exponent that the number is scaled with. -/
def exponentOf (n : NumberState δ) : Option Int32 :=
  if n.inExponent then do
    let exponent ← if n.expNegative then intResult (-n.exponent.toInt) else some n.exponent
    let turns ← if exponent > 0 then some exponent else intResult (-exponent.toInt)
    let _ ← countTurns turns.toInt.toNat 0
    some exponent
  else some n.exponent

/-- The exponent of the characters of a number. -/
def checkedExponent (δ : Type) {φ : Type} [Double δ φ] (text : List UInt8) : Option Int32 := do
  let n : NumberState δ ← checkedLoop text
  exponentOf n

/-- What stands behind the e of a number. -/
def exponentPart (text : List UInt8) : List UInt8 :=
  (text.dropWhile fun c => c≠101 ∧ c≠69).tail

/-- Its digits, without the sign. -/
def exponentDigits (text : List UInt8) : List UInt8 :=
  if (exponentPart text).head?=some 43 ∨ (exponentPart text).head?=some 45 then
    (exponentPart text).tail
  else exponentPart text

def writtenExponent (text : List UInt8) : Int :=
  if (exponentPart text).head?=some 45 then -(digitsValue (exponentDigits text) : Int)
  else digitsValue (exponentDigits text)

theorem intResult_some {z : Int} {i : Int32} (h : intResult z=some i) : i.toInt=z := by
  unfold intResult at h
  split at h
  · next hz =>
    rw [← Option.some.inj h]
    exact Int32.toInt_ofInt_of_le hz.1 (by omega)
  · cases h

theorem intResult_eq {z : Int} {i : Int32} (h : intResult z=some i) : i=Int32.ofInt z := by
  rw [← intResult_some h,Int32.ofInt_toInt]

theorem numberStep_exponent {n : NumberState δ} {c : UInt8} (first : Bool) (hc : isDigit c=true)
    (he : n.inExponent=true) :
    numberStep first n c={n with exponent := n.exponent*10+Int32.ofNat (c.toNat-48)} := by
  have h45 : c≠45 := isDigit_ne hc (by decide)
  have h46 : c≠46 := isDigit_ne hc (by decide)
  have h101 : c≠101 := isDigit_ne hc (by decide)
  have h69 : c≠69 := isDigit_ne hc (by decide)
  have h43 : c≠43 := isDigit_ne hc (by decide)
  simp [numberStep,h45,h46,h101,h69,h43,hc,he]

/-- The step is the one of the loop that wraps. -/
theorem checkedStep_eq {first : Bool} {n m : NumberState δ} {c : UInt8}
    (h : checkedStep first n c=some m) : m=numberStep first n c := by
  unfold checkedStep at h
  split at h
  · next hc =>
    obtain ⟨tens,htens,h⟩ := Option.bind_eq_some_iff.mp h
    obtain ⟨sum,hsum,h⟩ := Option.bind_eq_some_iff.mp h
    have hwrap : sum=n.exponent*10+Int32.ofNat (c.toNat-48) := by
      have hten : Int32.ofInt (n.exponent.toInt*10)=n.exponent*10 := by
        rw [Int32.ofInt_mul,Int32.ofInt_toInt]
        rfl
      rw [intResult_eq hsum,Int32.ofInt_add,Int32.ofInt_toInt,intResult_eq htens,hten]
      rfl
    rw [numberStep_exponent first hc.1 hc.2,← hwrap]
    exact (Option.some.inj h).symm
  · exact (Option.some.inj h).symm

theorem checkedFold_eq {cs : List UInt8} {n m : NumberState δ}
    (h : cs.foldlM (checkedStep false) n=some m) : m=cs.foldl (numberStep false) n := by
  induction cs generalizing n with
  | nil => exact (Option.some.inj h).symm
  | cons c cs ih =>
    rw [List.foldlM_cons] at h
    obtain ⟨n',hstep,hrest⟩ := Option.bind_eq_some_iff.mp h
    rw [List.foldl_cons,← checkedStep_eq hstep]
    exact ih hrest

/-- Without an overflow the loop is the one that wraps. -/
theorem checkedLoop_eq {c : UInt8} {cs : List UInt8} {n : NumberState δ}
    (h : checkedLoop (c::cs)=some n) :
    n=cs.foldl (numberStep false) (numberStep true NumberState.init c) := by
  obtain ⟨m,hstep,hrest⟩ := Option.bind_eq_some_iff.mp h
  rw [← checkedStep_eq hstep]
  exact checkedFold_eq hrest

theorem countTurns_eq {turns : Nat} {i : Int32} (hi : 0 ≤ i.toInt)
    (h : i.toInt+turns < 2^31) : countTurns turns i=some (Int32.ofInt (i.toInt+turns)) := by
  induction turns generalizing i with
  | zero => simp [countTurns]
  | succ turns ih =>
    have hnext : intResult (i.toInt+1)=some (Int32.ofInt (i.toInt+1)) := if_pos (by omega)
    have htoInt : (Int32.ofInt (i.toInt+1)).toInt=i.toInt+1 :=
      Int32.toInt_ofInt_of_le (by omega) (by omega)
    have hsum : i.toInt+1+turns=i.toInt+(turns+1 : Nat) := by omega
    rw [countTurns,hnext,Option.bind_eq_bind,Option.bind_some,ih (by omega) (by omega),htoInt,hsum]

/-- A digit that does not fit is the end, and one that does keeps the value of the digits. -/
theorem checkedFold_digits {ds : List UInt8} (hds : ∀ d∈ds,Digit d) {n : NumberState δ}
    (hn : n.inExponent=true) {a : Nat} (ha : n.exponent.toInt=a) :
    ds.foldlM (checkedStep false) n=
      if decimalValue a ds < 2^31 then
        some {n with exponent := Int32.ofInt (decimalValue a ds : Nat)}
      else none := by
  induction ds generalizing n a with
  | nil =>
    have hlt := n.exponent.toInt_lt
    have hsame : Int32.ofInt (a : Int)=n.exponent := by rw [← ha,Int32.ofInt_toInt]
    change some n=if a < 2^31 then some {n with exponent := Int32.ofInt (a : Int)} else none
    rw [if_pos (by omega),hsame]
  | cons d ds ih =>
    rw [List.forall_mem_cons] at hds
    have hdigit : isDigit d=true := isDigit_iff.mpr hds.1
    have hle := le_decimalValue (10*a+(d.toNat-48)) ds
    rw [List.foldlM_cons,decimalValue_cons,checkedStep,if_pos ⟨hdigit,hn⟩,ha]
    by_cases hfits : 10*a+(d.toNat-48) < 2^31
    · have htens : intResult ((a : Int)*10)=some (Int32.ofInt ((a : Int)*10)) := if_pos (by omega)
      have htoInt : (Int32.ofInt ((a : Int)*10)).toInt=(a : Int)*10 :=
        Int32.toInt_ofInt_of_le (by omega) (by omega)
      have hsum : (a : Int)*10+(d.toNat-48 : Nat)=(10*a+(d.toNat-48) : Nat) := by omega
      have hstep : intResult ((10*a+(d.toNat-48) : Nat) : Int)=
          some (Int32.ofInt ((10*a+(d.toNat-48) : Nat) : Int)) := if_pos (by omega)
      have hvalue : (Int32.ofInt ((10*a+(d.toNat-48) : Nat) : Int)).toInt=
          (10*a+(d.toNat-48) : Nat) := Int32.toInt_ofInt_of_le (by omega) (by omega)
      rw [htens]
      simp only [Option.bind_eq_bind,Option.bind_some,htoInt,hsum,hstep]
      exact @ih hds.2 {n with exponent := Int32.ofInt ((10*a+(d.toNat-48) : Nat) : Int)} hn _ hvalue
    · rw [if_neg (by omega)]
      by_cases htens : a*10 < 2^31
      · have hten : intResult ((a : Int)*10)=some (Int32.ofInt ((a : Int)*10)) := if_pos (by omega)
        have htoInt : (Int32.ofInt ((a : Int)*10)).toInt=(a : Int)*10 :=
          Int32.toInt_ofInt_of_le (by omega) (by omega)
        have hover : intResult ((a : Int)*10+(d.toNat-48 : Nat))=none := if_neg (by omega)
        rw [hten]
        simp only [Option.bind_eq_bind,Option.bind_some,htoInt,hover,Option.bind_none]
      · have hover : intResult ((a : Int)*10)=none := if_neg (by omega)
        rw [hover]
        rfl

/-- No e has been read. -/
structure Quiet (n : NumberState δ) : Prop where
  inExponent : n.inExponent=false
  expNegative : n.expNegative=false
  exponent : n.exponent=0

theorem Quiet.step {n : NumberState δ} (h : Quiet n) (first : Bool) {c : UInt8}
    (hc : c≠101 ∧ c≠69) :
    checkedStep first n c=some (numberStep first n c) ∧ Quiet (numberStep first n c) := by
  constructor
  · rw [checkedStep,if_neg]
    simp [h.inExponent]
  · have hmarker : ¬(c=101 ∨ c=69) := not_or.mpr hc
    have hminus : ¬(c=45 ∧ n.inExponent=true) := by simp [h.inExponent]
    have hdigit : ¬n.inExponent=true := by simp [h.inExponent]
    unfold numberStep
    rw [if_neg hmarker,if_neg hminus,if_neg hdigit]
    split_ifs <;> exact ⟨h.inExponent,h.expNegative,h.exponent⟩

theorem Quiet.fold {cs : List UInt8} (hcs : ∀ c∈cs,c≠101 ∧ c≠69) {n : NumberState δ}
    (h : Quiet n) : ∃ m,cs.foldlM (checkedStep false) n=some m ∧ Quiet m := by
  induction cs generalizing n with
  | nil => exact ⟨n,rfl,h⟩
  | cons c cs ih =>
    rw [List.forall_mem_cons] at hcs
    obtain ⟨hstep,hquiet⟩ := h.step false hcs.1
    rw [List.foldlM_cons,hstep]
    exact ih hcs.2 hquiet

theorem quiet_init : Quiet (NumberState.init : NumberState δ) := ⟨rfl,rfl,rfl⟩

theorem checkedLoop_append {p : List UInt8} (hne : p≠[]) (hp : ∀ c∈p,c≠101 ∧ c≠69)
    (x : List UInt8) : ∃ n : NumberState δ,Quiet n ∧
      checkedLoop (p++x)=x.foldlM (checkedStep false) n := by
  cases p with
  | nil => exact absurd rfl hne
  | cons c cs =>
    rw [List.forall_mem_cons] at hp
    obtain ⟨hstep,hquiet⟩ := (quiet_init (δ := δ)).step true hp.1
    obtain ⟨n,hfold,hn⟩ := hquiet.fold hp.2
    refine ⟨n,hn,?_⟩
    rw [List.cons_append,checkedLoop,hstep,Option.bind_eq_bind,Option.bind_some,
      List.foldlM_append,hfold]
    rfl

/-- What a number can end with: nothing, or an exponent that may lack its digits. -/
inductive Tail : List UInt8 → Prop where
  | none : Tail []
  | exponent (m : UInt8) (hm : m=101 ∨ m=69) (sign : Option UInt8) (hs : ∀ c∈sign,c=43 ∨ c=45)
      (ds : List UInt8) (hds : ∀ d∈ds,Digit d) : Tail (m::(sign.toList++ds))

theorem exponentPart_append {p : List UInt8} (hp : ∀ c∈p,c≠101 ∧ c≠69) (x : List UInt8) :
    exponentPart (p++x)=exponentPart x := by
  rw [exponentPart,exponentPart,List.dropWhile_append_of_pos]
  intro c hc
  exact decide_eq_true (hp c hc)

theorem head_digits_ne {ds : List UInt8} (hds : ∀ d∈ds,Digit d) {c : UInt8} (hc : ¬Digit c) :
    ds.head?≠some c := by
  intro h
  exact hc (hds c (List.mem_of_mem_head? h))

section Tails

variable {p : List UInt8} (hp : ∀ c∈p,c≠101 ∧ c≠69) {m : UInt8} (hm : m=101 ∨ m=69)
  {ds : List UInt8} (hds : ∀ d∈ds,Digit d)

include hp

theorem exponentPart_none : exponentPart p=[] := by
  have h := exponentPart_append hp []
  rwa [List.append_nil] at h

include hm

theorem exponentPart_marker (x : List UInt8) : exponentPart (p++m::x)=x := by
  rw [exponentPart_append hp,exponentPart,List.dropWhile_cons,if_neg]
  · rfl
  · obtain rfl | rfl := hm
    · decide
    · decide

include hds

theorem exponentDigits_written (sign : Option UInt8) (hs : ∀ c∈sign,c=43 ∨ c=45) :
    exponentDigits (p++m::(sign.toList++ds))=ds ∧
      writtenExponent (p++m::(sign.toList++ds))=
        if sign=some 45 then -(digitsValue ds : Int) else digitsValue ds := by
  have hpart := exponentPart_marker hp hm (sign.toList++ds)
  cases sign with
  | none =>
    have hplus := head_digits_ne hds not_digit_plus
    have hminus := head_digits_ne hds not_digit_minus
    rw [Option.toList_none,List.nil_append] at hpart ⊢
    have hdigits : exponentDigits (p++m::ds)=ds := by
      rw [exponentDigits,hpart]
      exact if_neg (not_or.mpr ⟨hplus,hminus⟩)
    refine ⟨hdigits,?_⟩
    rw [writtenExponent,hpart,if_neg hminus,hdigits]
    rfl
  | some c =>
    rw [Option.toList_some,List.singleton_append] at hpart ⊢
    have hdigits : exponentDigits (p++m::c::ds)=ds := by
      rw [exponentDigits,hpart]
      apply if_pos
      obtain rfl | rfl := hs c rfl
      · exact Or.inl rfl
      · exact Or.inr rfl
    refine ⟨hdigits,?_⟩
    rw [writtenExponent,hpart,hdigits]
    rfl

end Tails

theorem digit_not_marker {d : UInt8} (hd : Digit d) : d≠101 ∧ d≠69 := by
  have hdigit := isDigit_iff.mpr hd
  exact ⟨isDigit_ne hdigit (by decide),isDigit_ne hdigit (by decide)⟩

/-- Of a number as RFC 8259 has it, that is the exponent. -/
theorem writtenExponent_text (n : Numeral) : writtenExponent n.text=n.exponentValue := by
  have hsign : ∀ c∈n.signText,c≠101 ∧ c≠69 := by
    rw [Numeral.signText]
    split
    · rw [List.forall_mem_singleton]
      decide
    · simp
  have hwhole : ∀ c∈n.whole.1,c≠101 ∧ c≠69 := fun c hc => digit_not_marker (n.whole.2.2 c hc)
  have hfraction : ∀ c∈n.fractionText,c≠101 ∧ c≠69 := by
    rw [Numeral.fractionText]
    cases n.fraction with
    | none => simp
    | some ds =>
      rw [List.forall_mem_cons]
      exact ⟨by decide,fun d hd => digit_not_marker (ds.2.2 d hd)⟩
  have hp : ∀ c∈n.signText++(n.whole.1++n.fractionText),c≠101 ∧ c≠69 := by
    rw [List.forall_mem_append,List.forall_mem_append]
    exact ⟨hsign,hwhole,hfraction⟩
  have htext : n.text=n.signText++(n.whole.1++n.fractionText)++n.exponentText := by
    simp only [Numeral.text,List.append_assoc]
  rw [htext,Numeral.exponentText,Numeral.exponentValue]
  cases n.exponent with
  | none =>
    have hpart := exponentPart_none hp
    have hdigits : exponentDigits (n.signText++(n.whole.1++n.fractionText))=[] := by
      rw [exponentDigits,hpart]
      rfl
    rw [List.append_nil,writtenExponent,hpart,hdigits]
    rfl
  | some e =>
    obtain ⟨-,hwritten⟩ := exponentDigits_written hp e.isMarker e.digits.2.2 e.sign e.isSign
    exact hwritten

theorem checkedStep_marker {m : UInt8} (hm : m=101 ∨ m=69) (n : NumberState δ) :
    checkedStep false n m=some {n with inExponent := true} := by
  obtain rfl | rfl := hm
  · rfl
  · rfl

theorem checkedFold_sign (sign : Option UInt8) (hs : ∀ c∈sign,c=43 ∨ c=45) {n : NumberState δ}
    (hn : n.inExponent=true) (he : n.expNegative=false) :
    sign.toList.foldlM (checkedStep false) n=
      some {n with expNegative := decide (sign=some 45)} := by
  obtain ⟨value,fraction,divisor,exponent,expNegative,inDecimal,inExponent⟩ := n
  obtain rfl : inExponent=true := hn
  obtain rfl : expNegative=false := he
  cases sign with
  | none => rfl
  | some c =>
    obtain rfl | rfl := hs c rfl
    · rfl
    · rfl

/-- The loop over the powers of ten comes to its end. -/
theorem turns_counted {e : Int32} (he : -2147483648 < e.toInt) :
    (do
      let turns ← if e > 0 then some e else intResult (-e.toInt)
      let _ ← countTurns turns.toInt.toNat 0
      some e)=some e := by
  have hlt := e.toInt_lt
  have hzero : (0 : Int32).toInt=0 := by decide
  have hcount : ∀ turns : Int32,0 ≤ turns.toInt → countTurns turns.toInt.toNat 0≠none := by
    intro turns hpos
    have hturns := turns.toInt_lt
    rw [countTurns_eq (by omega) (by omega)]
    exact Option.some_ne_none _
  by_cases hpos : e > 0
  · have hint := Int32.lt_iff_toInt_lt.mp hpos
    obtain ⟨i,hi⟩ := Option.ne_none_iff_exists'.mp (hcount e (by omega))
    rw [if_pos hpos]
    simp only [Option.bind_eq_bind,Option.bind_some,hi]
  · have hint := mt Int32.lt_iff_toInt_lt.mpr hpos
    have hneg : intResult (-e.toInt)=some (Int32.ofInt (-e.toInt)) := if_pos (by omega)
    have htoInt : (Int32.ofInt (-e.toInt)).toInt=-e.toInt :=
      Int32.toInt_ofInt_of_le (by omega) (by omega)
    obtain ⟨i,hi⟩ := Option.ne_none_iff_exists'.mp (hcount (Int32.ofInt (-e.toInt)) (by omega))
    rw [if_neg hpos,hneg]
    simp only [Option.bind_eq_bind,Option.bind_some,hi]

theorem exponentOf_digits {n : NumberState δ} (hn : n.inExponent=true) {v : Nat} (hv : v < 2^31)
    (he : n.exponent=Int32.ofInt (v : Int)) :
    (exponentOf n).map Int32.toInt=some (if n.expNegative then -(v : Int) else v) := by
  have htoInt : n.exponent.toInt=v := by
    rw [he]
    exact Int32.toInt_ofInt_of_le (by omega) (by omega)
  rw [exponentOf,if_pos hn,htoInt]
  cases n.expNegative with
  | false =>
    have hturns := turns_counted (e := n.exponent) (by omega)
    simp only [Bool.false_eq_true,if_false]
    change Option.map Int32.toInt (do
      let turns ← if n.exponent > 0 then some n.exponent else intResult (-n.exponent.toInt)
      let _ ← countTurns turns.toInt.toNat 0
      some n.exponent)=_
    rw [hturns,Option.map_some,htoInt]
  | true =>
    have hneg : intResult (-(v : Int))=some (Int32.ofInt (-(v : Int))) := if_pos (by omega)
    have hvalue : (Int32.ofInt (-(v : Int))).toInt=-(v : Int) :=
      Int32.toInt_ofInt_of_le (by omega) (by omega)
    have hturns := turns_counted (e := Int32.ofInt (-(v : Int))) (by omega)
    simp only [if_true,hneg]
    change Option.map Int32.toInt (do
      let turns ← if Int32.ofInt (-(v : Int)) > 0 then some (Int32.ofInt (-(v : Int)))
        else intResult (-(Int32.ofInt (-(v : Int))).toInt)
      let _ ← countTurns turns.toInt.toNat 0
      some (Int32.ofInt (-(v : Int))))=_
    rw [hturns,Option.map_some,hvalue]

/-- The exponent is the one that is written, unless its digits are too many. -/
theorem checkedExponent_iff {p x : List UInt8} (hne : p≠[]) (hp : ∀ c∈p,c≠101 ∧ c≠69)
    (hx : Tail x) : (checkedExponent δ (p++x)).map Int32.toInt=some (writtenExponent (p++x)) ↔
      digitsValue (exponentDigits (p++x)) < 2^31 := by
  obtain ⟨n,hquiet,hloop⟩ := checkedLoop_append (δ := δ) hne hp x
  rw [checkedExponent,hloop]
  cases hx with
  | none =>
    have hpart := exponentPart_none hp
    have hdigits : exponentDigits p=[] := by
      rw [exponentDigits,hpart]
      rfl
    have hzero : (0 : Int32).toInt=0 := by decide
    rw [List.append_nil,writtenExponent,hpart,hdigits]
    refine iff_of_true ?_ (by decide)
    change (exponentOf n).map Int32.toInt=some 0
    rw [exponentOf,hquiet.inExponent,hquiet.exponent]
    rfl
  | exponent m hm sign hs ds hds =>
    obtain ⟨hdigits,hwritten⟩ := exponentDigits_written hp hm hds sign hs
    have hsign := checkedFold_sign (n := {n with inExponent := true}) sign hs rfl hquiet.expNegative
    have hvalue := checkedFold_digits hds
      (n := {n with inExponent := true,expNegative := decide (sign=some 45)}) rfl (a := 0)
      (by rw [hquiet.exponent]; rfl)
    rw [List.foldlM_cons,checkedStep_marker hm,Option.bind_eq_bind,Option.bind_eq_bind,
      Option.bind_some,List.foldlM_append,hsign,Option.bind_eq_bind,Option.bind_some,hvalue,
      hdigits,hwritten]
    change _ ↔ decimalValue 0 ds < 2^31
    by_cases hfits : decimalValue 0 ds < 2^31
    · rw [if_pos hfits,Option.bind_some,exponentOf_digits rfl hfits rfl]
      refine iff_of_true ?_ hfits
      simp only [decide_eq_true_eq]
      rfl
    · rw [if_neg hfits]
      refine iff_of_false ?_ hfits
      intro h
      cases h

theorem digits_taken (s : List UInt8) :
    ∃ ds,(∀ d∈ds,Digit d) ∧ s=ds++s.dropWhile isDigit := by
  refine ⟨s.takeWhile isDigit,?_,(List.takeWhile_append_dropWhile ..).symm⟩
  intro d hd
  exact isDigit_iff.mp (List.mem_takeWhile_imp hd)

theorem fraction_taken (s : List UInt8) :
    ∃ f,(∀ c∈f,c≠101 ∧ c≠69) ∧ s=f++scanFraction s := by
  unfold scanFraction
  split
  · next h =>
    obtain ⟨r,rfl⟩ := List.head?_eq_some_iff.mp h
    obtain ⟨ds,hds,hr⟩ := digits_taken r
    refine ⟨46::ds,?_,?_⟩
    · rw [List.forall_mem_cons]
      exact ⟨by decide,fun d hd => digit_not_marker (hds d hd)⟩
    · rw [List.tail_cons,List.cons_append,← hr]
  · exact ⟨[],by simp,rfl⟩

theorem exponent_taken (s : List UInt8) : ∃ x,Tail x ∧ s=x++scanExponent s := by
  unfold scanExponent
  split
  · next h =>
    obtain ⟨m,r,rfl,hm⟩ : ∃ m r,s=m::r ∧ (m=101 ∨ m=69) := by
      obtain h | h := h
      · obtain ⟨r,rfl⟩ := List.head?_eq_some_iff.mp h
        exact ⟨101,r,rfl,Or.inl rfl⟩
      · obtain ⟨r,rfl⟩ := List.head?_eq_some_iff.mp h
        exact ⟨69,r,rfl,Or.inr rfl⟩
    rw [List.tail_cons]
    split
    · next hsign =>
      obtain ⟨c,r',rfl,hc⟩ : ∃ c r',r=c::r' ∧ (c=43 ∨ c=45) := by
        obtain h | h := hsign
        · obtain ⟨r',rfl⟩ := List.head?_eq_some_iff.mp h
          exact ⟨43,r',rfl,Or.inl rfl⟩
        · obtain ⟨r',rfl⟩ := List.head?_eq_some_iff.mp h
          exact ⟨45,r',rfl,Or.inr rfl⟩
      obtain ⟨ds,hds,hr⟩ := digits_taken r'
      refine ⟨m::((some c).toList++ds),.exponent m hm (some c) ?_ ds hds,?_⟩
      · intro d hd
        obtain rfl := Option.some.inj hd
        exact hc
      · rw [List.tail_cons,Option.toList_some,List.singleton_append,List.cons_append,
          List.cons_append,← hr]
    · obtain ⟨ds,hds,hr⟩ := digits_taken r
      refine ⟨m::(Option.none.toList++ds),.exponent m hm Option.none (by simp) ds hds,?_⟩
      rw [Option.toList_none,List.nil_append,List.cons_append,← hr]
  · exact ⟨[],.none,rfl⟩

theorem numeral_split {c : UInt8} {r : List UInt8} (hc : c=45 ∨ isDigit c) :
    ∃ p x,p≠[] ∧ (∀ d∈p,d≠101 ∧ d≠69) ∧ Tail x ∧ numeral (c::r)=p++x := by
  -- the sign and the whole part
  obtain ⟨w,hne,hw,hwhole⟩ : ∃ w,w≠[] ∧ (∀ d∈w,d≠101 ∧ d≠69) ∧
      c::r=w++(scanSign (c::r)).dropWhile isDigit := by
    obtain ⟨ds,hds,hr⟩ := digits_taken r
    have hmarker : ∀ d∈ds,d≠101 ∧ d≠69 := fun d hd => digit_not_marker (hds d hd)
    refine ⟨c::ds,List.cons_ne_nil c ds,?_,?_⟩
    · rw [List.forall_mem_cons]
      refine ⟨?_,hmarker⟩
      obtain rfl | hdigit := hc
      · decide
      · exact digit_not_marker (isDigit_iff.mp hdigit)
    · by_cases hminus : c=45
      · have hsign : scanSign (c::r)=r := if_pos (congrArg some hminus)
        rw [hsign,List.cons_append,← hr]
      · have hdigit := hc.resolve_left hminus
        have hsign : scanSign (c::r)=c::r := if_neg (fun h => hminus (Option.some.inj h))
        rw [hsign,List.dropWhile_cons,if_pos hdigit,List.cons_append,← hr]
  obtain ⟨f,hf,hfraction⟩ := fraction_taken ((scanSign (c::r)).dropWhile isDigit)
  obtain ⟨x,hx,hexponent⟩ := exponent_taken (scanFraction ((scanSign (c::r)).dropWhile isDigit))
  have hall : c::r=(w++f++x)++scanNumber (c::r) := by
    rw [scanNumber,List.append_assoc,List.append_assoc,← hexponent,← hfraction,← hwhole]
  refine ⟨w++f,x,?_,?_,hx,?_⟩
  · simp [hne]
  · rw [List.forall_mem_append]
    exact ⟨hw,hf⟩
  · rw [numeral]
    generalize scanNumber (c::r)=rest at hall
    have hlen := congrArg List.length hall
    rw [List.length_append] at hlen
    rw [hlen,Nat.add_sub_cancel,hall,List.take_left]

/-- parse_number rejects nothing, and its exponent is the one that is written if and only if the
digits of it are those of an `int`. -/
theorem parseNumber_exponent_iff {p : Parser δ} (hp : p.Within) {c : UInt8} {r : List UInt8}
    (hrest : p.rest=c::r) (hc : c=45 ∨ isDigit c) :
    let text := (p.input.drop p.pos).take (p.parseNumber.pos-p.pos)
    ((checkedExponent δ text).map Int32.toInt=some (writtenExponent text) ∨
      p.parseNumber.current≠.number) ↔ digitsValue (exponentDigits text) ≤ 2147483647 := by
  intro text
  obtain ⟨hpos,-,-⟩ := Parser.suffix_cons hp.len hrest
  have htext : text=numeral (c::r) := by
    rw [← hrest]
    exact Parser.chars_eq_numeral hp hpos
  obtain ⟨q,x,hne,hq,hx,hsplit⟩ := numeral_split hc
  have hiff := checkedExponent_iff (δ := δ) hne hq hx
  have haccepted : p.parseNumber.current=.number := rfl
  rw [htext,hsplit,hiff]
  simp only [haccepted,ne_eq,not_true_eq_false,or_false]
  omega

theorem parseNumber_exponent_small :
    let p : Parser Binary64 := .init [49,101,53] 3
    let text := (p.input.drop p.pos).take (p.parseNumber.pos-p.pos)
    ((checkedExponent Binary64 text).map Int32.toInt=some (writtenExponent text) ∨
      p.parseNumber.current≠.number) ↔ digitsValue (exponentDigits text) ≤ 2147483647 :=
  parseNumber_exponent_iff ⟨Nat.zero_le 3,le_rfl⟩ rfl (Or.inr rfl)

/-- 1e9999999999 -/
def overlong : List UInt8 := [49,101,57,57,57,57,57,57,57,57,57,57]

theorem overlong_overflows :
    let p : Parser Binary64 := .init overlong 12
    (p.input.drop p.pos).take (p.parseNumber.pos-p.pos)=overlong ∧
      p.parseNumber.current=.number ∧ checkedExponent Binary64 overlong=none ∧
      writtenExponent overlong=9999999999 := by
  exact ⟨by decide,rfl,by decide,by decide⟩

end Cllm.Json
