import Cllm.Libc.Decimal
import Cllm.Libc.SafeString
import Mathlib.Algebra.Ring.Int.Defs
import Mathlib.Algebra.Ring.Nat
import Mathlib.Data.List.Induction

namespace Cllm.Libc

/-- The conversion specifications that occur in the sources. -/
inductive Conversion where
  | string | decimal | integer | unsigned | hex | upperHex | pointer | size | percent
  | character | longLong | hex8 | hex4 | longHex16
  deriving DecidableEq

namespace Conversion

def text : Conversion → List UInt8
  | string => cstr "%s"
  | decimal => cstr "%d"
  | integer => cstr "%i"
  | unsigned => cstr "%u"
  | hex => cstr "%x"
  | upperHex => cstr "%X"
  | pointer => cstr "%p"
  | size => cstr "%zu"
  | percent => cstr "%%"
  | character => cstr "%c"
  | longLong => cstr "%lld"
  | hex8 => cstr "%08x"
  | hex4 => cstr "%04x"
  | longHex16 => cstr "%016llx"

/-- The conversions vsnprintf has a branch for. -/
def Supported : Conversion → Prop
  | character | longLong | hex8 | hex4 | longHex16 => False
  | _ => True

/-- What a call passes for a conversion. -/
def Arg : Conversion → Type
  | string => {t : List UInt8 // 0∉t}
  | decimal | integer | character => Int32
  | unsigned | hex | upperHex | pointer | size | hex8 | hex4 => UInt32
  | longLong => Int64
  | longHex16 => UInt64
  | percent => Unit

/-- The words vsnprintf takes for a conversion. -/
def taken : Conversion → Nat
  | string | decimal | integer | unsigned | hex | upperHex | pointer | size => 1
  | _ => 0

/-- A 64-bit argument on the stack, its low word first. -/
def wordPair (v : UInt64) : List VaArg := [.word v.toUInt32,.word (v >>> 32).toUInt32]

/-- The argument as the call pushes it. -/
def words : (c : Conversion) → c.Arg → List VaArg
  | string,t => [.str (some t.val)]
  | decimal,v | integer,v | character,v => [.word (Int32.toUInt32 v)]
  | unsigned,v | hex,v | upperHex,v | pointer,v | size,v | hex8,v | hex4,v => [.word v]
  | longLong,v => wordPair (Int64.toUInt64 v)
  | longHex16,v => wordPair v
  | percent,_ => []

/-- The numeral of `v`, without leading zeros and with lower-case digits. -/
def numeral (base v : Nat) : List UInt8 :=
  (Nat.toDigits base v).map (fun d => UInt8.ofNat d.toNat)

def signed (v : Int) : List UInt8 := (if v < 0 then [45] else [])++numeral 10 v.natAbs

/-- The `0` flag with a field width. -/
def padded (width : Nat) (t : List UInt8) : List UInt8 :=
  List.replicate (width-t.length) 48++t

/-- What C writes for a conversion; the form of a pointer is the implementation's. -/
def specified : (c : Conversion) → c.Arg → List UInt8
  | string,t => t.val
  | decimal,v | integer,v => signed (Int32.toInt v)
  | unsigned,v | size,v => numeral 10 (UInt32.toNat v)
  | hex,v => numeral 16 (UInt32.toNat v)
  | upperHex,v => (Nat.toDigits 16 (UInt32.toNat v)).map (fun d => UInt8.ofNat d.toUpper.toNat)
  | pointer,v => cstr "0x"++numeral 16 (UInt32.toNat v)
  | percent,_ => cstr "%"
  | character,v => [UInt8.ofNat (Int32.toUInt32 v).toNat]
  | longLong,v => signed (Int64.toInt v)
  | hex8,v => padded 8 (numeral 16 (UInt32.toNat v))
  | hex4,v => padded 4 (numeral 16 (UInt32.toNat v))
  | longHex16,v => padded 16 (numeral 16 (UInt64.toNat v))

end Conversion

/-- A piece of a format with its argument. -/
inductive Piece where
  | text (t : List UInt8) (h : 37∉t ∧ 0∉t)
  | conversion (c : Conversion) (a : c.Arg)

namespace Piece

def spelled : Piece → List UInt8
  | text t _ => t
  | conversion c _ => c.text

def words : Piece → List VaArg
  | text _ _ => []
  | conversion c a => c.words a

def specified : Piece → List UInt8
  | text t _ => t
  | conversion c a => c.specified a

def taken : Piece → Nat
  | text _ _ => 0
  | conversion c _ => c.taken

def Supported : Piece → Prop
  | text _ _ => True
  | conversion c _ => c.Supported

end Piece

def formatOf (ps : List Piece) : List UInt8 := ps.flatMap Piece.spelled

def wordsOf (ps : List Piece) : List VaArg := ps.flatMap Piece.words

/-- The rendering of a format. -/
def specifiedOf (ps : List Piece) : List UInt8 := ps.flatMap Piece.specified

def putBefore (t : List UInt8) (r : List UInt8 × List VaArg) : List UInt8 × List VaArg :=
  (t++r.1,r.2)

/-- The characters the format loop emits, and the arguments it leaves. -/
def formatted : List UInt8 → List VaArg → List UInt8 × List VaArg
  | [],ap => ([],ap)
  | c::f,ap =>
    if c≠37 then putBefore [c] (formatted f ap)
    else
      match f with
      | [] => ([37,0],ap)
      | d::g =>
        if d=115 then putBefore (vaStr ap).1 (formatted g (vaStr ap).2)
        else if d=100 ∨ d=105 then
          if 2^31≤(vaWord ap).1.toNat then
            putBefore (45::uintText (-(vaWord ap).1).toNat 10 false) (formatted g (vaWord ap).2)
          else putBefore (uintText (vaWord ap).1.toNat 10 false) (formatted g (vaWord ap).2)
        else if d=117 then
          putBefore (uintText (vaWord ap).1.toNat 10 false) (formatted g (vaWord ap).2)
        else if d=120 then
          putBefore (uintText (vaWord ap).1.toNat 16 false) (formatted g (vaWord ap).2)
        else if d=88 then
          putBefore (uintText (vaWord ap).1.toNat 16 true) (formatted g (vaWord ap).2)
        else if d=112 then
          putBefore (cstr "0x"++uintText (vaWord ap).1.toNat 16 false) (formatted g (vaWord ap).2)
        else
          match g with
          | [] => if d=37 then ([37],ap) else ([37,d],ap)
          | u::h =>
            if d=122 ∧ u=117 then
              putBefore (uintText (vaWord ap).1.toNat 10 false) (formatted h (vaWord ap).2)
            else if d=37 then putBefore [37] (formatted (u::h) ap)
            else putBefore [37,d] (formatted (u::h) ap)

/-- The format loop appends what `formatted` says. -/
theorem formatLoop_formatted (f : List UInt8) (ap : List VaArg) (k : Sink) :
    formatLoop f ap k=appendStr k (formatted f ap).1 := by
  induction f,ap using formatted.induct generalizing k with
  | case1 ap => rfl
  | _ =>
    rw [formatLoop.eq_def,formatted.eq_def]
    simp_all [putBefore,appendStr_append,appendUint,-not_le,-Nat.not_le,-not_and]

section

variable {digits : List UInt8} {base : Nat} {glyph : Char → UInt8}

/-- The digits of the scratch array, read from its end, are those of the numeral. -/
theorem uintDigits_toDigits (hb : 1 < base)
    (hdigits : ∀ r < base,digits.getD r 0=glyph r.digitChar) (n : Nat) {v : Nat}
    (h : v < base^n) (hv : v≠0) :
    (uintDigits digits base n v).reverse=(Nat.toDigits base v).map glyph := by
  induction n generalizing v with
  | zero => exact absurd (by simpa using h) hv
  | succ n ih =>
    have hdigit := hdigits (v%base) (Nat.mod_lt v (by omega))
    rw [uintDigits,if_neg hv,List.reverse_cons,hdigit]
    by_cases hlt : v < base
    · have hnil : uintDigits digits base n 0=[] := by cases n <;> simp [uintDigits]
      rw [Nat.div_eq_of_lt hlt,hnil,Nat.toDigits_of_lt_base hlt,Nat.mod_eq_of_lt hlt]
      rfl
    · have hle : base ≤ v := Nat.le_of_not_lt hlt
      have hq : v/base≠0 := (Nat.div_pos hle (by omega)).ne'
      have hqlt : v/base < base^n := Nat.div_lt_of_lt_mul (by rwa [Nat.pow_succ'] at h)
      rw [ih hqlt hq,Nat.toDigits_of_base_le hb hle,List.map_append]
      rfl

end

theorem uintText_lower {base v : Nat} (hb : 1 < base) (hb16 : base ≤ 16) (h : v < base^32) :
    uintText v base false=Conversion.numeral base v := by
  have hglyph : ∀ r < 16,lowerDigits.getD r 0=UInt8.ofNat r.digitChar.toNat := by decide
  unfold uintText Conversion.numeral
  by_cases hv : v=0
  · rw [if_pos hv,hv,Nat.toDigits_zero]
    rfl
  · rw [if_neg hv]
    apply uintDigits_toDigits hb _ 32 h hv
    intro r hr
    exact hglyph r (by omega)

theorem uintText_upper {v : Nat} (h : v < 2^32) :
    uintText v 16 true=(Nat.toDigits 16 v).map (fun d => UInt8.ofNat d.toUpper.toNat) := by
  have hglyph : ∀ r < 16,(cstr "0123456789ABCDEF").getD r 0=
      UInt8.ofNat r.digitChar.toUpper.toNat := by decide
  unfold uintText
  by_cases hv : v=0
  · rw [if_pos hv,hv,Nat.toDigits_zero]
    rfl
  · rw [if_neg hv]
    exact uintDigits_toDigits (by decide) hglyph 32 (h.trans (by decide)) hv

theorem uintText_numeral (v : UInt32) :
    uintText v.toNat 10 false=Conversion.numeral 10 v.toNat :=
  uintText_lower (by decide) (by decide) (v.toNat_lt.trans (by decide))

theorem uintText_hexNumeral (v : UInt32) : uintText v.toNat 16 false=Conversion.numeral 16 v.toNat :=
  uintText_lower (by decide) (by decide) (v.toNat_lt.trans (by decide))

theorem intText_signed (i : Int32) : intText i=Conversion.signed i.toInt := by
  have hle := int_natAbs_le i
  have hlt : i.toInt.natAbs < 10^32 := by omega
  rw [intText,Conversion.signed,uintText_lower (by decide) (by decide) hlt]
  simp only [Int32.lt_iff_toInt_lt,Int32.toInt_zero]

/-- What a percent sign and the character behind it put out. -/
theorem formatted_conversion (d : UInt8) (g : List UInt8) (ap : List VaArg) :
    formatted (37::d::g) ap=
      if d=115 then putBefore (vaStr ap).1 (formatted g (vaStr ap).2)
      else if d=100 ∨ d=105 then
        if 2^31≤(vaWord ap).1.toNat then
          putBefore (45::uintText (-(vaWord ap).1).toNat 10 false) (formatted g (vaWord ap).2)
        else putBefore (uintText (vaWord ap).1.toNat 10 false) (formatted g (vaWord ap).2)
      else if d=117 then
        putBefore (uintText (vaWord ap).1.toNat 10 false) (formatted g (vaWord ap).2)
      else if d=120 then
        putBefore (uintText (vaWord ap).1.toNat 16 false) (formatted g (vaWord ap).2)
      else if d=88 then
        putBefore (uintText (vaWord ap).1.toNat 16 true) (formatted g (vaWord ap).2)
      else if d=112 then
        putBefore (cstr "0x"++uintText (vaWord ap).1.toNat 16 false) (formatted g (vaWord ap).2)
      else
        match g with
        | [] => if d=37 then ([37],ap) else ([37,d],ap)
        | u::h =>
          if d=122 ∧ u=117 then
            putBefore (uintText (vaWord ap).1.toNat 10 false) (formatted h (vaWord ap).2)
          else if d=37 then putBefore [37] (formatted (u::h) ap)
          else putBefore [37,d] (formatted (u::h) ap) := by
  rw [formatted.eq_def]
  rfl

theorem formatted_ne {c : UInt8} (hc : c≠37) (f : List UInt8) (ap : List VaArg) :
    formatted (c::f) ap=putBefore [c] (formatted f ap) := by
  rw [formatted.eq_def]
  simp [hc]

theorem putBefore_append (s t : List UInt8) (r : List UInt8 × List VaArg) :
    putBefore (s++t) r=putBefore s (putBefore t r) := by
  simp [putBefore]

/-- Text is printed as it stands. -/
theorem formatted_text {t : List UInt8} (ht : 37∉t) (g : List UInt8) (ap : List VaArg) :
    formatted (t++g) ap=putBefore t (formatted g ap) := by
  induction t with
  | nil => rfl
  | cons c t ih =>
    rw [List.mem_cons,not_or] at ht
    rw [List.cons_append,formatted_ne (Ne.symm ht.1),ih ht.2,← putBefore_append]
    rfl

section

variable (g : List UInt8) (more : List VaArg)

theorem formatted_string (t : List UInt8) :
    formatted (37::115::g) (.str (some t)::more)=putBefore t (formatted g more) := formatted_conversion 115 g _

theorem formatted_signed {d : UInt8} (hd : d=100 ∨ d=105) (v : Int32) :
    formatted (37::d::g) (.word v.toUInt32::more)=
      putBefore (Conversion.signed v.toInt) (formatted g more) := by
  have hs : d≠115 := by rcases hd with rfl | rfl <;> decide
  have hn := int32_negative v
  have ha := int32_natAbs v
  rw [← intText_signed,formatted_conversion,intText]
  by_cases hv : v < 0
  · have hle : 2^31 ≤ (vaWord (.word v.toUInt32::more)).1.toNat := hn.mp hv
    rw [if_pos hv] at ha
    rw [if_pos hv,ha]
    simp only [if_false,hs,hd,if_true,hle]
    rfl
  · have hlt : ¬2^31 ≤ (vaWord (.word v.toUInt32::more)).1.toNat := fun h => hv (hn.mpr h)
    rw [if_neg hv] at ha
    rw [if_neg hv,ha]
    simp only [if_false,hs,hd,if_true,hlt]
    rfl

theorem formatted_unsigned (v : UInt32) :
    formatted (37::117::g) (.word v::more)=
      putBefore (Conversion.numeral 10 v.toNat) (formatted g more) := by
  rw [← uintText_numeral,formatted_conversion]
  rfl

theorem formatted_hex (v : UInt32) :
    formatted (37::120::g) (.word v::more)=
      putBefore (Conversion.numeral 16 v.toNat) (formatted g more) := by
  rw [← uintText_hexNumeral,formatted_conversion]
  rfl

theorem formatted_upperHex (v : UInt32) :
    formatted (37::88::g) (.word v::more)=
      putBefore ((Nat.toDigits 16 v.toNat).map (fun d => UInt8.ofNat d.toUpper.toNat))
        (formatted g more) := by
  have hupper := uintText_upper v.toNat_lt
  rw [← hupper,formatted_conversion]
  rfl

theorem formatted_pointer (v : UInt32) :
    formatted (37::112::g) (.word v::more)=
      putBefore (cstr "0x"++Conversion.numeral 16 v.toNat) (formatted g more) := by
  rw [← uintText_hexNumeral,formatted_conversion]
  rfl

theorem formatted_size (v : UInt32) :
    formatted (37::122::117::g) (.word v::more)=
      putBefore (Conversion.numeral 10 v.toNat) (formatted g more) := by
  rw [← uintText_numeral,formatted_conversion]
  rfl

theorem formatted_percent (ap : List VaArg) :
    formatted (37::37::g) ap=putBefore [37] (formatted g ap) := by
  rw [formatted_conversion]
  cases g with
  | nil => rfl
  | cons u h => rfl

/-- What follows a percent sign without a branch of its own is printed with it. -/
theorem formatted_other {d : UInt8} (hd : d∉cstr "sdiuxXpz%") (ap : List VaArg) :
    formatted (37::d::g) ap=putBefore [37,d] (formatted g ap) := by
  have hl : cstr "sdiuxXpz%"=[115,100,105,117,120,88,112,122,37] := by decide
  rw [hl] at hd
  rw [formatted_conversion]
  cases g with
  | nil => simp_all [putBefore,formatted]
  | cons u h => simp_all [putBefore]

end

/-- A conversion with a branch of its own takes its argument and prints what C asks for. -/
theorem formatted_supported {c : Conversion} (hc : c.Supported) (a : c.Arg) (g : List UInt8)
    (more : List VaArg) :
    formatted (c.text++g) (c.words a++more)=putBefore (c.specified a) (formatted g more) := by
  cases c with
  | string => exact formatted_string g more a.val
  | decimal => exact formatted_signed g more (.inl rfl) a
  | integer => exact formatted_signed g more (.inr rfl) a
  | unsigned => exact formatted_unsigned g more a
  | hex => exact formatted_hex g more a
  | upperHex => exact formatted_upperHex g more a
  | pointer => exact formatted_pointer g more a
  | size => exact formatted_size g more a
  | percent => exact formatted_percent g more
  | character => cases hc
  | longLong => cases hc
  | hex8 => cases hc
  | hex4 => cases hc
  | longHex16 => cases hc

/-- A conversion without one is printed as it is spelled, and its argument stays. -/
theorem formatted_unsupported {c : Conversion} (hc : ¬c.Supported) (g : List UInt8)
    (ap : List VaArg) : formatted (c.text++g) ap=putBefore c.text (formatted g ap) := by
  have hfirst : ∀ {d : UInt8} {t : List UInt8},c.text=37::d::t → d∉cstr "sdiuxXpz%" → 37∉t →
      formatted (c.text++g) ap=putBefore c.text (formatted g ap) := by
    intro d t htext hd ht
    rw [htext]
    change formatted (37::d::(t++g)) ap=_
    rw [formatted_other _ hd,formatted_text ht,← putBefore_append]
    rfl
  cases c with
  | character => exact hfirst (t := []) rfl (by decide) (by decide)
  | longLong => exact hfirst (t := [108,100]) rfl (by decide) (by decide)
  | hex8 => exact hfirst (t := [56,120]) rfl (by decide) (by decide)
  | hex4 => exact hfirst (t := [52,120]) rfl (by decide) (by decide)
  | longHex16 => exact hfirst (t := [49,54,108,108,120]) rfl (by decide) (by decide)
  | _ => exact absurd trivial hc

namespace Piece

theorem formatted_supported {p : Piece} (hp : p.Supported) (g : List UInt8) (more : List VaArg) :
    formatted (p.spelled++g) (p.words++more)=putBefore p.specified (formatted g more) := by
  cases p with
  | text t h => exact formatted_text h.1 g more
  | conversion c a => exact Libc.formatted_supported hp a g more

end Piece

/-- Supported conversions take what was passed for them, and print what C asks for. -/
theorem formatted_of_supported {ps : List Piece} (h : ∀ p∈ps,p.Supported) (more : List VaArg) :
    formatted (formatOf ps) (wordsOf ps++more)=(specifiedOf ps,more) := by
  induction ps with
  | nil => rfl
  | cons p ps ih =>
    have hp := h p List.mem_cons_self
    have hps := ih (fun q hq => h q (List.mem_cons_of_mem p hq))
    change formatted (p.spelled++formatOf ps) (p.words++wordsOf ps++more)=_
    rw [List.append_assoc,Piece.formatted_supported hp,hps]
    rfl

theorem vaWord_left (ap : List VaArg) : (vaWord ap).2=ap.drop 1 := by
  cases ap with
  | nil => rfl
  | cons a ap => cases a <;> rfl

theorem vaStr_left (ap : List VaArg) : (vaStr ap).2=ap.drop 1 := by
  cases ap with
  | nil => rfl
  | cons a ap =>
    cases a with
    | str s => cases s <;> rfl
    | _ => rfl

@[simp] theorem putBefore_left (t : List UInt8) (r : List UInt8 × List VaArg) :
    (putBefore t r).2=r.2 := rfl

namespace Conversion

/-- Whatever the arguments are, a conversion takes the same number of them. -/
theorem formatted_left (c : Conversion) (g : List UInt8) (ap : List VaArg) :
    (formatted (c.text++g) ap).2=(formatted g (ap.drop c.taken)).2 := by
  by_cases hc : c.Supported
  · cases c with
    | string =>
      have h := vaStr_left ap
      change (formatted (37::115::g) ap).2=(formatted g (ap.drop 1)).2
      rw [← h,formatted_conversion]
      rfl
    | percent =>
      change (formatted (37::37::g) ap).2=(formatted g ap).2
      rw [formatted_percent,putBefore_left]
    | decimal | integer =>
      have h := vaWord_left ap
      change (formatted (37::_::g) ap).2=(formatted g (ap.drop 1)).2
      rw [← h,formatted_conversion]
      by_cases hv : 2^31 ≤ (vaWord ap).1.toNat
      · simp only [hv,if_true]
        rfl
      · simp only [hv,if_false]
        rfl
    | character | longLong | hex8 | hex4 | longHex16 => cases hc
    | _ =>
      have h := vaWord_left ap
      change (formatted (37::_::_) ap).2=(formatted g (ap.drop 1)).2
      rw [← h,formatted_conversion]
      rfl
  · rw [formatted_unsupported hc,putBefore_left]
    cases c with
    | character | longLong | hex8 | hex4 | longHex16 => rfl
    | _ => exact absurd trivial hc

theorem taken_of_supported {c : Conversion} (hc : c.Supported) (a : c.Arg) :
    c.taken=(c.words a).length := by
  cases c with
  | character | longLong | hex8 | hex4 | longHex16 => cases hc
  | _ => rfl

theorem taken_of_unsupported {c : Conversion} (hc : ¬c.Supported) (a : c.Arg) :
    c.taken < (c.words a).length := by
  cases c with
  | character | longLong | hex8 | hex4 | longHex16 => exact Nat.zero_lt_succ _
  | _ => exact absurd trivial hc

end Conversion

namespace Piece

theorem formatted_left (p : Piece) (g : List UInt8) (ap : List VaArg) :
    (formatted (p.spelled++g) ap).2=(formatted g (ap.drop p.taken)).2 := by
  cases p with
  | text t h =>
    change (formatted (t++g) ap).2=(formatted g ap).2
    rw [formatted_text h.1,putBefore_left]
  | conversion c a => exact c.formatted_left g ap

theorem taken_of_supported {p : Piece} (hp : p.Supported) : p.taken=p.words.length := by
  cases p with
  | text t h => rfl
  | conversion c a => exact Conversion.taken_of_supported hp a

theorem taken_of_unsupported {p : Piece} (hp : ¬p.Supported) : p.taken < p.words.length := by
  cases p with
  | text t h => exact absurd trivial hp
  | conversion c a => exact Conversion.taken_of_unsupported hp a

theorem taken_le (p : Piece) : p.taken ≤ p.words.length := by
  by_cases hp : p.Supported
  · exact (taken_of_supported hp).le
  · exact (taken_of_unsupported hp).le

end Piece

theorem formatted_left (ps : List Piece) (ap : List VaArg) :
    (formatted (formatOf ps) ap).2=ap.drop (ps.map Piece.taken).sum := by
  induction ps generalizing ap with
  | nil => rfl
  | cons p ps ih =>
    change (formatted (p.spelled++formatOf ps) ap).2=_
    rw [p.formatted_left,ih,List.drop_drop,List.map_cons,List.sum_cons]

theorem taken_le_wordsOf (ps : List Piece) : (ps.map Piece.taken).sum ≤ (wordsOf ps).length := by
  induction ps with
  | nil => exact le_rfl
  | cons p ps ih =>
    change (List.map Piece.taken (p::ps)).sum ≤ (p.words++wordsOf ps).length
    rw [List.map_cons,List.sum_cons,List.length_append]
    exact Nat.add_le_add p.taken_le ih

theorem taken_lt_wordsOf {ps : List Piece} {p : Piece} (hp : p∈ps) (hs : ¬p.Supported) :
    (ps.map Piece.taken).sum < (wordsOf ps).length := by
  obtain ⟨before,after,rfl⟩ := List.append_of_mem hp
  have hb := taken_le_wordsOf before
  have ha := taken_le_wordsOf after
  have hlt := Piece.taken_of_unsupported hs
  have hw : wordsOf (before++p::after)=wordsOf before++(p.words++wordsOf after) := by
    simp [wordsOf]
  rw [hw,List.map_append,List.map_cons,List.sum_append,List.sum_cons,List.length_append,
    List.length_append]
  omega

/-- printf takes what was passed for the conversions and no more, and its rendering is the one
C specifies. -/
def Renders (ps : List Piece) : Prop :=
  ∀ (more : List VaArg) (k : Sink),
    formatted (formatOf ps) (wordsOf ps++more)=(specifiedOf ps,more) ∧
    formatLoop (formatOf ps) (wordsOf ps++more) k=appendStr k (specifiedOf ps)

theorem renders_iff (ps : List Piece) : Renders ps ↔ ∀ p∈ps,p.Supported := by
  constructor
  · intro h p hp
    by_contra hs
    have hleft := congrArg Prod.snd (h [] ⟨[],0,0⟩).1
    rw [formatted_left,List.append_nil] at hleft
    have hlt := taken_lt_wordsOf hp hs
    exact absurd (List.drop_eq_nil_iff.mp hleft) (Nat.not_le_of_lt hlt)
  · intro h more k
    have hf := formatted_of_supported h more
    exact ⟨hf,by rw [formatLoop_formatted,hf]⟩

/-- `snprintf(buf, size, "%c%u", 'G', 3)` puts out `%c71`. -/
theorem character_shifts_arguments :
    ¬Renders [.conversion .character (71 : Int32),.conversion .unsigned (3 : UInt32)] := by
  intro h
  have htext := congrArg Prod.fst (h [] ⟨[],0,0⟩).1
  exact absurd htext (by decide)

/-- The sink after the rendering `f`: what fits before the last byte, then what was there. -/
def Sink.after (str : List UInt8) (size : Nat) (f : List UInt8) : Sink :=
  ⟨f.take (size-1)++str.drop (min (size-1) f.length),size,f.length⟩

theorem appendChar_after {str : List UInt8} {size : Nat} (hd : size ≤ str.length) (f : List UInt8)
    (c : UInt8) (hf : f.length+1 < 2^32) :
    appendChar (.after str size f) c=.after str size (f++[c]) := by
  have hoff : (f.length+1)%2^32=f.length+1 := Nat.mod_eq_of_lt hf
  unfold appendChar Sink.after
  simp only [hoff,List.length_append,List.length_singleton]
  by_cases h : f.length+1 < size
  · have htake : f.take (size-1)=f := List.take_of_length_le (by omega)
    have htake' : (f++[c]).take (size-1)=f++[c] :=
      List.take_of_length_le (by rw [List.length_append,List.length_singleton]; omega)
    have hmin : min (size-1) f.length=f.length := Nat.min_eq_right (by omega)
    have hmin' : min (size-1) (f.length+1)=f.length+1 := Nat.min_eq_right (by omega)
    have hdrop : str.drop f.length=str[f.length]::str.drop (f.length+1) :=
      List.drop_eq_getElem_cons (by omega)
    rw [if_pos h,htake,htake',hmin,hmin',hdrop,List.set_append_right _ _ le_rfl,Nat.sub_self,
      List.set_cons_zero,List.append_assoc]
    rfl
  · have hle : size-1 ≤ f.length := by omega
    rw [if_neg h,List.take_append_of_le_length hle,Nat.min_eq_left hle,
      Nat.min_eq_left (hle.trans (Nat.le_succ _))]

theorem appendStr_after {str : List UInt8} {size : Nat} (hd : size ≤ str.length) (f : List UInt8)
    (hf : f.length < 2^32) : appendStr ⟨str,size,0⟩ f=.after str size f := by
  induction f using List.reverseRecOn with
  | nil => simp [Sink.after]
  | append_singleton f c ih =>
    rw [List.length_append,List.length_singleton] at hf
    rw [appendStr_append,ih (by omega)]
    exact appendChar_after hd f c hf

section

variable {n : Nat} {format : List UInt8} {ap : List VaArg} (b : Buffer n)

theorem Buffer.snprintf_length (h : (formatted format ap).1.length < 2^32) :
    (b.snprintf format ap).2=(formatted format ap).1.length := by
  change (formatLoop format ap ⟨b.bytes,n,0⟩).off=_
  rw [formatLoop_formatted,appendStr_after b.size.ge _ h]
  rfl

theorem Buffer.snprintf_bytes (h : (formatted format ap).1.length < n) (hn : n ≤ 2^32) :
    (b.snprintf format ap).1.bytes=
      (formatted format ap).1++0::b.bytes.drop ((formatted format ap).1.length+1) :=
  (vsnprintf_fits (formatLoop_formatted format ap ⟨b.bytes,n,0⟩) h b.size.ge hn).2

end

/-- The value of vsnprintf, its offset cast to `int`. -/
def returned (off : Nat) : Int32 := (UInt32.ofNat off).toInt32

theorem returned_toInt {n : Nat} (h : n < 2^31) : (returned n).toInt=n := by
  have h32 : n < 2^32 := h.trans (by decide)
  change (BitVec.ofNat 32 n).toInt=n
  rw [BitVec.toInt_eq_toNat_cond,BitVec.toNat_ofNat,Nat.mod_eq_of_lt h32,if_pos (by omega)]

theorem returned_word {k : Nat} (h : k < 2^32) : (returned k).toUInt32.toNat=k :=
  Nat.mod_eq_of_lt h

theorem returned_negative {k : Nat} (h : 2^31 ≤ k) (h32 : k < 2^32) : returned k < 0 := by
  rw [int32_negative,returned_word h32]
  exact h

theorem returned_nonnegative {k : Nat} (h : k < 2^31) : ¬returned k < 0 := by
  rw [int32_negative,returned_word (h.trans (by decide))]
  exact Nat.not_le_of_lt h

theorem vsnprintf_after {str : List UInt8} {size : Nat} (hd : size ≤ str.length)
    {ps : List Piece} (hps : ∀ p∈ps,p.Supported) (hf : (specifiedOf ps).length < 2^32) :
    formatLoop (formatOf ps) (wordsOf ps) ⟨str,size,0⟩=.after str size (specifiedOf ps) := by
  have hr := ((renders_iff ps).mpr hps [] ⟨str,size,0⟩).2
  rw [List.append_nil] at hr
  rw [hr,appendStr_after hd _ hf]

/-- The array holds as much of the rendering as fits before a NUL, and the value is its length. -/
theorem vsnprintf_supported {str : List UInt8} {size : Nat} (hd : size ≤ str.length)
    {ps : List Piece} (hps : ∀ p∈ps,p.Supported) (hf : (specifiedOf ps).length < 2^32) :
    let r := vsnprintf str size (formatOf ps) (wordsOf ps)
    let f := specifiedOf ps
    (f.length < 2^31 → (returned r.2).toInt=f.length) ∧
    r.1=if size=0 then str
      else f.take (size-1)++0::str.drop (min (size-1) f.length+1) := by
  have hloop := vsnprintf_after hd hps hf
  generalize hF : specifiedOf ps=f at hloop
  simp only [vsnprintf,hloop,Sink.after]
  refine ⟨returned_toInt,?_⟩
  by_cases h0 : size=0
  · rw [if_pos h0,if_neg (by omega),h0]
    rfl
  · have hterm : (if f.length < size then f.length else size-1)=min (size-1) f.length := by
      split <;> omega
    have hlen : (f.take (size-1)).length=min (size-1) f.length := List.length_take
    have hlt : min (size-1) f.length < str.length := by omega
    rw [if_neg h0,if_pos (by omega),hterm,List.set_append_right _ _ hlen.le,hlen,Nat.sub_self,
      List.drop_eq_getElem_cons hlt,List.set_cons_zero]

theorem vsnprintf_supported_count :
    let ps := [Piece.text (cstr "n=") (by decide),.conversion .decimal (-2147483648 : Int32)]
    let r := vsnprintf [1,2,3,4,5,6] 5 (formatOf ps) (wordsOf ps)
    (returned r.2).toInt=13 ∧ r.1=cstr "n=-2"++[0,6] := by
  have hps : ∀ p∈[Piece.text (cstr "n=") (by decide),
      .conversion .decimal (-2147483648 : Int32)],p.Supported := by
    simp [Piece.Supported,Conversion.Supported]
  have hf : specifiedOf [Piece.text (cstr "n=") (by decide),
      .conversion .decimal (-2147483648 : Int32)]=cstr "n=-2147483648" := by decide
  have h := @vsnprintf_supported [1,2,3,4,5,6] 5 (by decide) _ hps (by rw [hf]; decide)
  dsimp only at h
  rw [hf] at h
  exact ⟨h.1 (by decide),h.2⟩

/-- `n` conversions of one string of `m` bytes. -/
def repeated (n m : Nat) : List Piece :=
  List.replicate n (.conversion .string
    ⟨List.replicate m 97,fun h => absurd (List.eq_of_mem_replicate h) (by decide)⟩)

theorem repeated_supported {n m : Nat} {p : Piece} (hp : p∈repeated n m) : p.Supported := by
  rw [List.eq_of_mem_replicate hp]
  trivial

theorem repeated_length (n m : Nat) : (specifiedOf (repeated n m)).length=n*m := by
  induction n with
  | zero => simp [repeated,specifiedOf]
  | succ n ih =>
    change (List.replicate m 97++specifiedOf (repeated n m)).length=(n+1)*m
    rw [List.length_append,List.length_replicate,ih,Nat.succ_mul,Nat.add_comm]

theorem zero_not_mem_repeated (n k : Nat) : 0∉specifiedOf (repeated n k) := by
  intro h
  obtain ⟨p,hp,hzero⟩ := List.mem_flatMap.mp h
  rw [List.eq_of_mem_replicate hp] at hzero
  exact absurd (List.eq_of_mem_replicate hzero) (by decide)

/-- A rendering of 2 GiB is reported with a negative length. -/
theorem two_gigabytes_negative :
    let ps := repeated (2^16) (2^15)
    (∀ p∈ps,p.Supported) ∧ (specifiedOf ps).length=2^31 ∧
    (returned (vsnprintf (List.replicate 64 0) 64 (formatOf ps) (wordsOf ps)).2).toInt=-2^31 := by
  have hlen := repeated_length (2^16) (2^15)
  have hsup : ∀ p∈repeated (2^16) (2^15),p.Supported := fun p hp => repeated_supported hp
  generalize repeated (2^16) (2^15)=ps at *
  have hsize : 64 ≤ (List.replicate 64 (0 : UInt8)).length := List.length_replicate.ge
  have hloop := vsnprintf_after hsize hsup (by rw [hlen]; decide)
  refine ⟨hsup,hlen,?_⟩
  simp only [vsnprintf,hloop,Sink.after,hlen]
  decide

end Cllm.Libc
