import Mathlib.Algebra.Field.Rat
import Mathlib.Tactic.Common
import Mathlib.Tactic.FieldSimp
import Mathlib.Tactic.Ring

namespace Cllm.Ieee754

/-- The smallest positive number is 2^-`scale`, the largest (2^`precision`-1)*2^(`top`-`scale`). -/
structure Format where
  precision : Nat
  scale : Nat
  top : Nat
  precision_pos : 0 < precision
  one_in_range : scale ≤ top

theorem binary32_range : 149 ≤ 253 := by decide

theorem binary64_range : 1074 ≤ 2045 := by decide

def binary32 : Format := ⟨24,149,253,Nat.succ_pos 23,binary32_range⟩

def binary64 : Format := ⟨53,1074,2045,Nat.succ_pos 52,binary64_range⟩

namespace Format

variable (f : Format)

def largest : Nat := (2^f.precision-1)*2^f.top

/-- `m` has no more significant places than the format. -/
def Significant (m : Nat) : Prop := ∃ c q,c < 2^f.precision ∧ m=c*2^q

def Representable (m : Nat) : Prop := f.Significant m ∧ m ≤ f.largest

/-- The places of `m` that go beyond the precision. -/
def excess (m : Nat) : Nat := m.log2+1-f.precision

end Format

/-- `num`/`den` to the nearest integer, and to the even one of two. -/
def halfEven (num den : Nat) : Nat :=
  if 2*(num%den) < den ∨ (2*(num%den)=den ∧ num/den%2=0) then num/den else num/den+1

/-- The number of units nearest to `num`/`den` units, were there no largest number. -/
def Format.nearest (f : Format) (num den : Nat) : Nat :=
  halfEven num (den*2^f.excess (num/den))*2^f.excess (num/den)

variable {f : Format}

theorem halfEven_le (num den : Nat) : halfEven num den ≤ num/den+1 := by
  unfold halfEven
  split <;> omega

theorem halfEven_mul (m : Nat) {den : Nat} (h : 0 < den) : halfEven (m*den) den=m := by
  have hr : m*den%den=0 := Nat.mul_mod_left m den
  unfold halfEven
  rw [hr,if_pos (Or.inl h),Nat.mul_div_cancel m h]

theorem lt_two_pow_excess (m : Nat) : m < 2^(f.precision+f.excess m) := by
  have hm : m < 2^(m.log2+1) := Nat.lt_log2_self
  apply Nat.lt_of_lt_of_le hm
  apply Nat.pow_le_pow_right Nat.two_pos
  unfold Format.excess
  omega

theorem nearest_significant (f : Format) (num den : Nat) : f.Significant (f.nearest num den) := by
  have hlt := lt_two_pow_excess (f := f) (num/den)
  have hq : num/(den*2^f.excess (num/den)) < 2^f.precision := by
    rw [← Nat.div_div_eq_div_mul]
    apply Nat.div_lt_of_lt_mul
    rwa [Nat.mul_comm,← Nat.pow_add]
  have hle := halfEven_le num (den*2^f.excess (num/den))
  by_cases hc : halfEven num (den*2^f.excess (num/den)) < 2^f.precision
  · exact ⟨_,_,hc,rfl⟩
  · -- the significand has been rounded up to a power of two
    have hp : halfEven num (den*2^f.excess (num/den))=2^f.precision := by omega
    refine ⟨1,f.precision+f.excess (num/den),Nat.one_lt_two_pow f.precision_pos.ne',?_⟩
    rw [Format.nearest,hp,Nat.one_mul,Nat.pow_add]

/-- Nothing is lost of a number that has a place in the format. -/
theorem nearest_of_significant {m den : Nat} (h : f.Significant m) (hd : 0 < den) :
    f.nearest (m*den) den=m := by
  obtain ⟨c,q,hc,rfl⟩ := h
  have hs : f.excess (c*2^q) ≤ q := by
    have hlog : (c*2^q).log2 < f.precision+q := by
      by_cases h0 : c*2^q=0
      · rw [h0,Nat.log2_zero]
        have hp := f.precision_pos
        omega
      · rw [Nat.log2_lt h0,Nat.pow_add]
        exact Nat.mul_lt_mul_of_pos_right hc (Nat.two_pow_pos q)
    unfold Format.excess
    omega
  have hsplit : 2^q=2^(q-f.excess (c*2^q))*2^f.excess (c*2^q) := by
    rw [← Nat.pow_add,Nat.sub_add_cancel hs]
  have hnum : c*2^q*den=(c*2^(q-f.excess (c*2^q)))*(den*2^f.excess (c*2^q)) := by
    calc c*2^q*den=c*(2^(q-f.excess (c*2^q))*2^f.excess (c*2^q))*den := by rw [← hsplit]
      _=_ := by ring
  have hdiv : c*2^q*den/den=c*2^q := Nat.mul_div_cancel _ hd
  have hpos : 0 < den*2^f.excess (c*2^q) := Nat.mul_pos hd (Nat.two_pow_pos _)
  rw [Format.nearest,hdiv,hnum,halfEven_mul _ hpos,Nat.mul_assoc,← hsplit]

theorem nearest_representable {num den : Nat} (h : f.nearest num den ≤ f.largest) :
    f.Representable (f.nearest num den) := ⟨nearest_significant f num den,h⟩

/-- A magnitude that the format has, in units of its smallest. -/
abbrev Magnitude (f : Format) := {m : Nat // f.Representable m}

inductive Number (f : Format) where
  | finite (negative : Bool) (m : Magnitude f)
  | infinite (negative : Bool)
  | nan

/-- `m` with its sign. -/
def signed (negative : Bool) (m : Nat) : Int := if negative then -m else m

namespace Number

/-- The number nearest to `num`/`den` units; what is too large is infinite. -/
def round (f : Format) (negative : Bool) (num den : Nat) : Number f :=
  if h : f.nearest num den ≤ f.largest then .finite negative ⟨_,nearest_representable h⟩
  else .infinite negative

def neg : Number f → Number f
  | .finite s m => .finite (!s) m
  | .infinite s => .infinite !s
  | .nan => .nan

/-- A sum of two numbers that cancel is a zero, negative when both were. -/
def add : Number f → Number f → Number f
  | .finite s m,.finite t n =>
    let sum := signed s m.1+signed t n.1
    round f (if sum=0 then s && t else decide (sum < 0)) sum.natAbs 1
  | .finite _ _,.infinite t => .infinite t
  | .infinite s,.finite _ _ => .infinite s
  | .infinite s,.infinite t => if s=t then .infinite s else .nan
  | _,_ => .nan

def mul : Number f → Number f → Number f
  | .finite s m,.finite t n => round f (s ^^ t) (m.1*n.1) (2^f.scale)
  | .finite s m,.infinite t => if m.1=0 then .nan else .infinite (s ^^ t)
  | .infinite s,.finite t n => if n.1=0 then .nan else .infinite (s ^^ t)
  | .infinite s,.infinite t => .infinite (s ^^ t)
  | _,_ => .nan

def div : Number f → Number f → Number f
  | .finite s m,.finite t n =>
    if n.1=0 then if m.1=0 then .nan else .infinite (s ^^ t)
    else round f (s ^^ t) (m.1*2^f.scale) n.1
  | .finite s _,.infinite t => round f (s ^^ t) 0 1
  | .infinite s,.finite t _ => .infinite (s ^^ t)
  | _,_ => .nan

instance : Add (Number f) := ⟨add⟩

instance : Mul (Number f) := ⟨mul⟩

instance : Div (Number f) := ⟨div⟩

instance : Neg (Number f) := ⟨neg⟩

def ofInt (f : Format) (i : Int) : Number f := round f (decide (i < 0)) (i.natAbs*2^f.scale) 1

/-- The number nearest to `m`/10^`k`. -/
def decimal (f : Format) (m k : Nat) : Number f := round f false (m*2^f.scale) (10^k)

/-- Towards zero. -/
def truncate : Number f → Option Int
  | .finite s m => some (signed s (m.1/2^f.scale))
  | _ => none

def convert (g : Format) : Number f → Number g
  | .finite s m => round g s (m.1*2^g.scale) (2^f.scale)
  | .infinite s => .infinite s
  | .nan => .nan

/-- What a finite number stands for. -/
def value : Number f → Option ℚ
  | .finite s m => some ((signed s m.1 : ℚ)/2^f.scale)
  | _ => none

end Number

/-- `q` is a number of the format. -/
def Format.Has (f : Format) (q : ℚ) : Prop :=
  ∃ z : Int,f.Representable z.natAbs ∧ q=z/2^f.scale

theorem two_pow_ne_zero (n : Nat) : (2 : ℚ)^n≠0 := pow_ne_zero n two_ne_zero

theorem has_int {i : Int} (h : i.natAbs < 2^f.precision) : f.Has i := by
  refine ⟨i*2^f.scale,⟨⟨i.natAbs,f.scale,h,?_⟩,?_⟩,?_⟩
  · rw [Int.natAbs_mul,Int.natAbs_pow]
    rfl
  · rw [Int.natAbs_mul,Int.natAbs_pow,Format.largest]
    exact Nat.mul_le_mul (Nat.le_sub_one_of_lt h) (Nat.pow_le_pow_right Nat.two_pos f.one_in_range)
  · rw [Int.cast_mul,Int.cast_pow,Int.cast_ofNat,mul_div_cancel_right₀ _ (two_pow_ne_zero _)]

theorem signed_natAbs (z : Int) : signed (decide (z < 0)) z.natAbs=z := by
  unfold signed
  split
  · next h =>
    have h' := of_decide_eq_true h
    omega
  · next h =>
    have h' : ¬z < 0 := fun hz => h (decide_eq_true hz)
    omega

theorem signed_mul (s t : Bool) (m n : Nat) :
    signed (s ^^ t) (m*n)=signed s m*signed t n := by
  cases s <;> cases t <;> simp [signed]

theorem natAbs_signed (s : Bool) (m : Nat) : (signed s m).natAbs=m := by
  cases s <;> simp [signed]

theorem signed_div (s : Bool) (m n : Nat) : signed s (m/n)=(signed s m).tdiv n := by
  cases s <;> simp [signed,Int.neg_tdiv]

theorem signed_mul_nat (s : Bool) (m n : Nat) : signed s (m*n)=signed s m*n := by
  cases s <;> simp [signed]

/-- A fraction whose denominator is a power of two. -/
theorem has_fraction {c k : Nat} (hc : c < 2^f.precision) (hk : k ≤ f.scale) :
    f.Has ((c : ℚ)/2^k) := by
  refine ⟨(c*2^(f.scale-k) : Nat),⟨⟨c,f.scale-k,hc,rfl⟩,?_⟩,?_⟩
  · rw [Format.largest]
    apply Nat.mul_le_mul (Nat.le_sub_one_of_lt hc)
    have hr := f.one_in_range
    exact Nat.pow_le_pow_right Nat.two_pos (by omega)
  · have hsplit : (2 : ℚ)^f.scale=2^(f.scale-k)*2^k := by
      rw [← pow_add,Nat.sub_add_cancel hk]
    rw [hsplit]
    push_cast
    have hp := two_pow_ne_zero (f.scale-k)
    have hq := two_pow_ne_zero k
    field_simp

theorem Format.Has.neg {q : ℚ} (h : f.Has q) : f.Has (-q) := by
  obtain ⟨z,hz,hq⟩ := h
  refine ⟨-z,?_,?_⟩
  · rwa [Int.natAbs_neg]
  · rw [hq,Int.cast_neg,neg_div]

theorem has_quotient {i : Int} {k : Nat} (hi : i.natAbs < 2^f.precision) (hk : k ≤ f.scale) :
    f.Has ((i : ℚ)/2^k) := by
  obtain ⟨n,rfl | rfl⟩ := i.eq_nat_or_neg
  · rw [Int.natAbs_natCast] at hi
    exact has_fraction hi hk
  · rw [Int.natAbs_neg,Int.natAbs_natCast] at hi
    rw [Int.cast_neg,neg_div]
    exact (has_fraction hi hk).neg

namespace Number

variable {x y : Number f} {a b : ℚ}

theorem value_round {m den : Nat} (h : f.Representable m) (hd : 0 < den) (s : Bool) :
    (round f s (m*den) den).value=some ((signed s m : ℚ)/2^f.scale) := by
  have hn := nearest_of_significant h.1 hd
  have hle : f.nearest (m*den) den ≤ f.largest := by
    rw [hn]
    exact h.2
  rw [round,dif_pos hle,value]
  dsimp only
  rw [hn]

theorem value_eq_some (h : x.value=some a) :
    ∃ s m,x=.finite s m ∧ a=(signed s m.1 : ℚ)/2^f.scale := by
  cases x with
  | finite s m => exact ⟨s,m,rfl,(Option.some.inj h).symm⟩
  | infinite s => cases h
  | nan => cases h

theorem value_neg (h : x.value=some a) : (-x).value=some (-a) := by
  obtain ⟨s,m,rfl,rfl⟩ := value_eq_some h
  have hs : signed (!s) m.1=-signed s m.1 := by cases s <;> simp [signed]
  change some _=_
  rw [hs,Int.cast_neg,neg_div]

theorem value_add (hx : x.value=some a) (hy : y.value=some b) (h : f.Has (a+b)) :
    (x+y).value=some (a+b) := by
  obtain ⟨s,m,rfl,rfl⟩ := value_eq_some hx
  obtain ⟨t,n,rfl,rfl⟩ := value_eq_some hy
  obtain ⟨z,hz,he⟩ := h
  have hsum : signed s m.1+signed t n.1=z := by
    rw [← add_div,div_left_inj' (two_pow_ne_zero _)] at he
    exact_mod_cast he
  change (round f _ (signed s m.1+signed t n.1).natAbs 1).value=_
  rw [hsum,he]
  have hr := value_round hz Nat.one_pos
  simp only [Nat.mul_one] at hr
  rw [hr]
  split
  · next h0 =>
    subst h0
    cases s <;> cases t <;> rfl
  · rw [signed_natAbs]

theorem value_mul (hx : x.value=some a) (hy : y.value=some b) (h : f.Has (a*b)) :
    (x*y).value=some (a*b) := by
  obtain ⟨s,m,rfl,rfl⟩ := value_eq_some hx
  obtain ⟨t,n,rfl,rfl⟩ := value_eq_some hy
  obtain ⟨z,hz,he⟩ := h
  have hprod : signed (s ^^ t) (m.1*n.1)=z*2^f.scale := by
    rw [signed_mul]
    have hp := two_pow_ne_zero f.scale
    field_simp at he
    rw [mul_comm z]
    exact_mod_cast he
  have habs : m.1*n.1=z.natAbs*2^f.scale := by
    have ha := congrArg Int.natAbs hprod
    rw [natAbs_signed,Int.natAbs_mul,Int.natAbs_pow] at ha
    exact ha
  have hsign : signed (s ^^ t) z.natAbs=z := by
    have hpos : (2 : Int)^f.scale≠0 := pow_ne_zero _ two_ne_zero
    rw [habs] at hprod
    apply mul_right_cancel₀ hpos
    rw [← hprod]
    cases s <;> cases t <;> simp [signed]
  change (round f _ (m.1*n.1) (2^f.scale)).value=_
  rw [habs,value_round hz (Nat.two_pow_pos _),hsign,he]

theorem value_ofInt {i : Int} (h : i.natAbs < 2^f.precision) :
    (ofInt f i).value=some (i : ℚ) := by
  obtain ⟨z,hz,he⟩ := has_int h
  have hi : i*2^f.scale=z := by
    rw [eq_div_iff (two_pow_ne_zero _)] at he
    exact_mod_cast he
  have habs : i.natAbs*2^f.scale=z.natAbs := by
    rw [← hi,Int.natAbs_mul,Int.natAbs_pow]
    rfl
  have hsign : signed (decide (i < 0)) z.natAbs=z := by
    have hpos : (0 : Int) < 2^f.scale := Int.pow_pos two_pos
    have hneg : i < 0 ↔ z < 0 := by
      rw [← hi]
      constructor
      · intro h0
        exact Int.mul_neg_of_neg_of_pos h0 hpos
      · intro h0
        exact neg_of_mul_neg_left h0 hpos.le
    rw [decide_eq_decide.mpr hneg,signed_natAbs]
  have hr := value_round hz Nat.one_pos (decide (i < 0))
  rw [Nat.mul_one] at hr
  rw [ofInt,habs,hr,hsign,he]

theorem truncate_of_value {i : Int} (h : x.value=some (i : ℚ)) : x.truncate=some i := by
  obtain ⟨s,m,rfl,hi⟩ := value_eq_some h
  have hm : signed s m.1=i*2^f.scale := by
    rw [eq_div_iff (two_pow_ne_zero _)] at hi
    exact_mod_cast hi.symm
  rw [truncate,signed_div,hm,Option.some.injEq]
  push_cast
  exact Int.mul_tdiv_cancel _ (pow_ne_zero _ two_ne_zero)

theorem value_convert {g : Format} (hx : x.value=some a) (h : g.Has a) :
    (x.convert g).value=some a := by
  obtain ⟨s,m,rfl,rfl⟩ := value_eq_some hx
  obtain ⟨z,hz,he⟩ := h
  have hprod : signed s (m.1*2^g.scale)=z*2^f.scale := by
    rw [signed_mul_nat]
    rw [div_eq_div_iff (two_pow_ne_zero _) (two_pow_ne_zero _)] at he
    exact_mod_cast he
  have habs : m.1*2^g.scale=z.natAbs*2^f.scale := by
    have ha := congrArg Int.natAbs hprod
    rw [natAbs_signed,Int.natAbs_mul,Int.natAbs_pow] at ha
    exact ha
  have hsign : signed s z.natAbs=z := by
    have hpos : (2 : Int)^f.scale≠0 := pow_ne_zero _ two_ne_zero
    rw [habs,signed_mul_nat] at hprod
    apply mul_right_cancel₀ hpos
    rw [← hprod]
    push_cast
    rfl
  change (round g s (m.1*2^g.scale) (2^f.scale)).value=_
  rw [habs,value_round hz (Nat.two_pow_pos _),hsign,he]

theorem truncate_quotient {i : Int} {k : Nat} (h : x.value=some ((i : ℚ)/2^k)) :
    x.truncate=some (i.tdiv (2^k)) := by
  obtain ⟨s,m,rfl,hi⟩ := value_eq_some h
  have hm : signed s m.1*2^k=i*2^f.scale := by
    rw [div_eq_div_iff (two_pow_ne_zero _) (two_pow_ne_zero _)] at hi
    exact_mod_cast hi.symm
  have hk : (0 : Int) < 2^k := Int.pow_pos two_pos
  have hscale : (0 : Int) < 2^f.scale := Int.pow_pos two_pos
  rw [truncate,signed_div,Option.some.injEq]
  push_cast
  calc (signed s m.1).tdiv (2^f.scale)=(signed s m.1*2^k).tdiv (2^f.scale*2^k) :=
        (Int.mul_tdiv_mul_of_pos_left _ _ hk).symm
    _=(i*2^f.scale).tdiv (2^k*2^f.scale) := by rw [hm,mul_comm (2^f.scale)]
    _=i.tdiv (2^k) := Int.mul_tdiv_mul_of_pos_left _ _ hscale

end Number

end Cllm.Ieee754
