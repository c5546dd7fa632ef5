import LocatedJson.Binary64
import Mathlib

/-! Correct rounding. The bits of a binary64 tell a sign, an exponent and a significand, and these a
rational number; a decimal number is rounded to the one nearest to it. The proof counts units of
`2^-1074`, in which every finite magnitude is an integer, and compares patterns: they are ordered
as the magnitudes are. -/
namespace LocatedJson

def signed (negative : Bool) (a : ℚ) : ℚ := if negative then -a else a

theorem abs_signed (negative : Bool) (a : ℚ) : |signed negative a| = |a| := by
  cases negative <;> simp [signed]

theorem abs_signed_sub (negative : Bool) (a b : ℚ) :
    |signed negative a - signed negative b| = |a - b| := by
  cases negative with
  | false => rfl
  | true =>
    simp only [signed, ↓reduceIte, neg_sub_neg]
    rw [abs_sub_comm]

theorem abs_signed_not_sub (negative : Bool) (a b : ℚ) :
    |signed (!negative) a - signed negative b| = |a + b| := by
  cases negative with
  | false =>
    simp only [signed, Bool.not_false, Bool.false_eq_true, ↓reduceIte]
    rw [← neg_add', abs_neg]
  | true => simp [signed]

theorem signed_injective (negative : Bool) : Function.Injective (signed negative) := by
  cases negative
  · exact Function.injective_id
  · exact neg_injective

theorem abs_mul_sub {step : ℚ} (hstep : 0 < step) (k v : ℚ) :
    |k * step - v| = |k - v / step| * step := by
  rw [← abs_of_pos hstep, ← abs_mul, abs_of_pos hstep, sub_mul, div_mul_cancel₀ _ hstep.ne']

namespace Binary64

def isNegative (x : Binary64) : Bool := x.bits.msb

def biasedExponent (x : Binary64) : ℕ := (x.bits.extractLsb' 52 11).toNat

def fraction (x : Binary64) : ℕ := (x.bits.extractLsb' 0 52).toNat

def significand (x : Binary64) : ℕ :=
  if x.biasedExponent = 0 then x.fraction else 2 ^ 52 + x.fraction

def IsFinite (x : Binary64) : Prop := x.biasedExponent ≠ 2047

def IsInfinite (x : Binary64) : Prop := x.biasedExponent = 2047 ∧ x.fraction = 0

def IsZero (x : Binary64) : Prop := x.biasedExponent = 0 ∧ x.fraction = 0

def magnitude (x : Binary64) : ℚ :=
  x.significand * 2 ^ ((max x.biasedExponent 1 : ℕ) - 1075 : ℤ)

def value (x : Binary64) : ℚ := signed x.isNegative x.magnitude

/-- The finite number nearest to a rational one; of two, that with the even significand. -/
structure Nearest (w : ℚ) (x : Binary64) : Prop where
  finite : x.IsFinite
  nearest : ∀ y : Binary64, y.IsFinite → |x.value - w| ≤ |y.value - w|
  even : ∀ y : Binary64, y.IsFinite → y.value ≠ x.value → |y.value - w| = |x.value - w| →
    Even x.significand

/-- What a rational number is rounded to. The sign is given as well, for zero has either. -/
structure CorrectlyRounded (negative : Bool) (w : ℚ) (x : Binary64) : Prop where
  sign : x.isNegative = negative
  overflow : 2 ^ 1024 - 2 ^ 970 ≤ |w| → x.IsInfinite
  nearest : |w| < 2 ^ 1024 - 2 ^ 970 → x.Nearest w
  underflow : |w| ≤ 1 / 2 ^ 1075 → x.IsZero

/-- The bits without the sign. -/
def pattern (x : Binary64) : ℕ := x.bits.toNat % 2 ^ 63

section Patterns

variable (x : Binary64)

theorem biasedExponent_eq : x.biasedExponent = x.pattern / 2 ^ 52 := by
  rw [biasedExponent, BitVec.extractLsb'_toNat, Nat.shiftRight_eq_div_pow, pattern]
  omega

theorem fraction_eq : x.fraction = x.pattern % 2 ^ 52 := by
  rw [fraction, BitVec.extractLsb'_toNat, Nat.shiftRight_eq_div_pow, pattern]
  omega

theorem isNegative_eq : x.isNegative = decide (2 ^ 63 ≤ x.bits.toNat) :=
  BitVec.msb_eq_decide x.bits

theorem isFinite_iff : x.IsFinite ↔ x.pattern < infinityPattern := by
  rw [IsFinite, biasedExponent_eq, pattern, show infinityPattern = 2047 * 2 ^ 52 from rfl]
  omega

theorem isInfinite_iff : x.IsInfinite ↔ x.pattern = infinityPattern := by
  rw [IsInfinite, biasedExponent_eq, fraction_eq, show infinityPattern = 2047 * 2 ^ 52 from rfl]
  omega

theorem isZero_iff : x.IsZero ↔ x.pattern = 0 := by
  rw [IsZero, biasedExponent_eq, fraction_eq]
  omega

theorem even_significand_iff : Even x.significand ↔ Even x.pattern := by
  rw [significand, biasedExponent_eq, fraction_eq, Nat.even_iff, Nat.even_iff]
  split_ifs <;> omega

theorem eq_of_pattern_eq {x y : Binary64} (hsign : x.isNegative = y.isNegative)
    (hpattern : x.pattern = y.pattern) : x = y := by
  have hbits : x.bits = y.bits := by
    rw [isNegative_eq, isNegative_eq, decide_eq_decide] at hsign
    rw [pattern, pattern] at hpattern
    apply BitVec.eq_of_toNat_eq
    omega
  cases x
  cases y
  exact congrArg mk hbits

theorem toNat_ofPattern (negative : Bool) {p : ℕ} (hp : p < 2 ^ 63) :
    (ofPattern negative p).bits.toNat = (if negative then 2 ^ 63 else 0) + p := by
  rw [ofPattern, BitVec.toNat_ofNat, Nat.mod_eq_of_lt]
  · rfl
  · cases negative <;> simp <;> omega

theorem isNegative_ofPattern (negative : Bool) {p : ℕ} (hp : p < 2 ^ 63) :
    (ofPattern negative p).isNegative = negative := by
  rw [isNegative_eq, toNat_ofPattern negative hp]
  cases negative with
  | false => simpa using hp
  | true => simp

theorem pattern_ofPattern (negative : Bool) {p : ℕ} (hp : p < 2 ^ 63) :
    (ofPattern negative p).pattern = p := by
  rw [pattern, toNat_ofPattern negative hp]
  cases negative <;> simp <;> omega

end Patterns

/-- The magnitude of a pattern in units of `2^-1074`, as if exponents had no end. -/
def units (p : ℕ) : ℕ :=
  (if p / 2 ^ 52 = 0 then p % 2 ^ 52 else 2 ^ 52 + p % 2 ^ 52) * 2 ^ (p / 2 ^ 52 - 1)

theorem magnitude_eq (x : Binary64) : x.magnitude = units x.pattern / 2 ^ 1074 := by
  have hexponent : ((max x.biasedExponent 1 : ℕ) - 1075 : ℤ) =
      ((x.pattern / 2 ^ 52 - 1 : ℕ) : ℤ) - (1074 : ℕ) := by
    rw [biasedExponent_eq]
    omega
  rw [magnitude, hexponent, zpow_sub₀ (by norm_num), zpow_natCast, zpow_natCast, units,
    significand, biasedExponent_eq, fraction_eq, ← mul_div_assoc]
  push_cast
  rfl

/-- A block holds patterns of one spacing: those up to `2^53` times it, and of these the upper half
unless the spacing is the least. -/
theorem units_block {s k : ℕ} (hk : k ≤ 2 ^ 53) (hs : s = 0 ∨ 2 ^ 52 ≤ k) :
    units (s * 2 ^ 52 + k) = k * 2 ^ s := by
  rcases lt_or_eq_of_le hk with h | rfl
  · rcases lt_or_ge k (2 ^ 52) with hlow | hhigh
    · obtain rfl : s = 0 := by omega
      rw [units, if_pos (by omega), show (0 * 2 ^ 52 + k) % 2 ^ 52 = k by omega,
        show (0 * 2 ^ 52 + k) / 2 ^ 52 - 1 = 0 by omega]
    · rw [units, if_neg (by omega), show (s * 2 ^ 52 + k) / 2 ^ 52 - 1 = s by omega,
        show 2 ^ 52 + (s * 2 ^ 52 + k) % 2 ^ 52 = k by omega]
  · rw [units, if_neg (by omega), show (s * 2 ^ 52 + 2 ^ 53) / 2 ^ 52 - 1 = s + 1 by omega,
      show (s * 2 ^ 52 + 2 ^ 53) % 2 ^ 52 = 0 by omega, pow_succ 2 s]
    ring

theorem exists_block (p : ℕ) :
    ∃ s k, p = s * 2 ^ 52 + k ∧ k < 2 ^ 53 ∧ (s = 0 ∨ 2 ^ 52 ≤ k) :=
  ⟨p / 2 ^ 52 - 1, p - (p / 2 ^ 52 - 1) * 2 ^ 52, by omega, by omega, by omega⟩

theorem units_strictMono : StrictMono units := by
  refine strictMono_nat_of_lt_succ fun p => ?_
  obtain ⟨s, k, rfl, hk, hs⟩ := exists_block p
  rw [add_assoc, units_block hk.le hs, units_block hk (by omega)]
  exact Nat.mul_lt_mul_of_pos_right (Nat.lt_succ_self k) (by positivity)

/-- A magnitude is a multiple of a spacing or lies below the block with that spacing. -/
theorem units_cases (s p : ℕ) :
    (∃ k, units p = k * 2 ^ s) ∨ (0 < s ∧ units p < 2 ^ 52 * 2 ^ s) := by
  obtain ⟨t, k, rfl, hk, ht⟩ := exists_block p
  rw [units_block hk.le ht]
  rcases le_or_gt s t with hle | hlt
  · refine .inl ⟨k * 2 ^ (t - s), ?_⟩
    rw [mul_assoc, ← pow_add, Nat.sub_add_cancel hle]
  · refine .inr ⟨by omega, ?_⟩
    calc k * 2 ^ t < 2 ^ 53 * 2 ^ t := Nat.mul_lt_mul_of_pos_right hk (by positivity)
      _ = 2 ^ 52 * 2 ^ (t + 1) := by ring
      _ ≤ 2 ^ 52 * 2 ^ s := Nat.mul_le_mul_left _ (Nat.pow_le_pow_right (by omega) hlt)

/-- Among the patterns below a bound, the one nearest to a number of units; of two, the even. -/
structure NearestBelow (top : ℕ) (v : ℚ) (p : ℕ) : Prop where
  lt : p < top
  nearest : ∀ p' < top, |(units p : ℚ) - v| ≤ |(units p' : ℚ) - v|
  even : ∀ p' < top, p' ≠ p → |(units p' : ℚ) - v| = |(units p : ℚ) - v| → Even p

theorem abs_roundHalfEven_sub (n : ℕ) {d : ℕ} (hd : 0 < d) :
    |(roundHalfEven n d : ℚ) - n / d| ≤ 1 / 2 ∧
      (|(roundHalfEven n d : ℚ) - n / d| = 1 / 2 → Even (roundHalfEven n d)) := by
  have hd' : (0 : ℚ) < d := by exact_mod_cast hd
  obtain ⟨t, ht⟩ : ∃ t : ℚ, t = (n % d : ℕ) / d := ⟨_, rfl⟩
  have hquotient : (n : ℚ) / d = (n / d : ℕ) + t := by
    rw [ht, div_eq_iff hd'.ne', add_mul, div_mul_cancel₀ _ hd'.ne']
    exact_mod_cast (Nat.div_add_mod' n d).symm
  have htwice : t * d = (n % d : ℕ) := by rw [ht, div_mul_cancel₀ _ hd'.ne']
  have hpos : 0 ≤ t := by rw [ht]; positivity
  have hlt : t < 1 := by
    rw [ht, div_lt_one hd']
    exact_mod_cast Nat.mod_lt n hd
  rw [hquotient, roundHalfEven]
  split_ifs with hlow hhigh
  · have hhalf : t < 1 / 2 := by
      have : (2 * (n % d : ℕ) : ℚ) < d := by exact_mod_cast hlow
      nlinarith
    rw [abs_sub_comm, add_sub_cancel_left, abs_of_nonneg hpos]
    exact ⟨hhalf.le, fun h => absurd h hhalf.ne⟩
  · have hhalf : 1 / 2 < t := by
      have : (d : ℚ) < 2 * (n % d : ℕ) := by exact_mod_cast hhigh
      nlinarith
    rw [Nat.cast_succ, add_sub_add_left_eq_sub, abs_of_nonneg (by linarith)]
    exact ⟨by linarith, fun h => by linarith⟩
  · have hhalf : t = 1 / 2 := by
      have : (2 * (n % d : ℕ) : ℚ) = d := by exact_mod_cast (by omega : 2 * (n % d) = d)
      nlinarith
    rw [hhalf, Nat.cast_add, add_sub_add_left_eq_sub]
    rcases Nat.mod_two_eq_zero_or_one (n / d) with h | h
    · exact ⟨by norm_num [h], fun _ => by rw [h]; exact Nat.even_iff.2 h⟩
    · exact ⟨by norm_num [h], fun _ => by rw [h]; exact (Nat.odd_iff.2 h).add_one⟩

theorem roundHalfEven_nearest (n : ℕ) {d : ℕ} (hd : 0 < d) {k : ℕ} (hk : k ≠ roundHalfEven n d) :
    |(roundHalfEven n d : ℚ) - n / d| ≤ |(k : ℚ) - n / d| ∧
      (|(k : ℚ) - n / d| = |(roundHalfEven n d : ℚ) - n / d| → Even (roundHalfEven n d)) := by
  obtain ⟨hhalf, heven⟩ := abs_roundHalfEven_sub n hd
  have hapart : (1 : ℚ) ≤ |(k : ℚ) - roundHalfEven n d| := by
    have hne : (k : ℤ) - roundHalfEven n d ≠ 0 := sub_ne_zero.2 (Nat.cast_injective.ne hk)
    exact_mod_cast Int.one_le_abs hne
  have htriangle := abs_sub_le (k : ℚ) (n / d) (roundHalfEven n d)
  rw [abs_sub_comm ((n : ℚ) / d)] at htriangle
  exact ⟨by linarith, fun htie => heven (by linarith)⟩

section Block

variable {n d s : ℕ}

/-- The block that a number of units falls into, by its spacing. -/
structure InBlock (v : ℚ) (s : ℕ) : Prop where
  low : 0 < s → 2 ^ 52 * 2 ^ s ≤ v
  high : v < 2 ^ 53 * 2 ^ s

/-- The leading bit tells the block. -/
theorem inBlock_log2 (n : ℕ) (hd : 0 < d) : InBlock ((n : ℚ) / d) (Nat.log2 (n / d) - 52) := by
  have hd' : (0 : ℚ) < d := by exact_mod_cast hd
  constructor
  · intro hs
    have hne : n / d ≠ 0 := by
      intro hzero
      simp [hzero] at hs
    have hle : 2 ^ (52 + (Nat.log2 (n / d) - 52)) ≤ n / d := by
      rw [Nat.add_sub_cancel' (by omega)]
      exact Nat.log2_self_le hne
    rw [← pow_add, le_div_iff₀ hd']
    exact_mod_cast (Nat.le_div_iff_mul_le hd).1 hle
  · have hlt : n / d < 2 ^ (53 + (Nat.log2 (n / d) - 52)) := by
      refine lt_of_lt_of_le Nat.lt_log2_self (Nat.pow_le_pow_right (by omega) ?_)
      omega
    rw [← pow_add, div_lt_iff₀ hd']
    exact_mod_cast (Nat.div_lt_iff_lt_mul hd).1 hlt

theorem div_spacing (n d s : ℕ) : (n : ℚ) / (d * 2 ^ s : ℕ) = n / d / 2 ^ s := by
  rw [Nat.cast_mul, Nat.cast_pow, Nat.cast_ofNat, div_mul_eq_div_div]

/-- Rounding within a block stays in it or lands on the first pattern of the next. -/
theorem roundHalfEven_inBlock (hd : 0 < d) (h : InBlock ((n : ℚ) / d) s) :
    roundHalfEven n (d * 2 ^ s) ≤ 2 ^ 53 ∧ (s = 0 ∨ 2 ^ 52 ≤ roundHalfEven n (d * 2 ^ s)) := by
  have hhalf := (abs_roundHalfEven_sub n (d := d * 2 ^ s) (by positivity)).1
  rw [div_spacing] at hhalf
  obtain ⟨hlow, hhigh⟩ := abs_le.1 hhalf
  have hspacing : (0 : ℚ) < 2 ^ s := by positivity
  constructor
  · have hlt := (div_lt_iff₀ hspacing).2 h.high
    have : (roundHalfEven n (d * 2 ^ s) : ℚ) < (2 ^ 53 + 1 : ℕ) := by
      push_cast
      linarith
    exact Nat.lt_succ_iff.1 (by exact_mod_cast this)
  · rcases Nat.eq_zero_or_pos s with hs | hs
    · exact .inl hs
    · have hle := (le_div_iff₀ hspacing).2 (h.low hs)
      have : ((2 ^ 52 : ℕ) : ℚ) < (roundHalfEven n (d * 2 ^ s) + 1 : ℕ) := by
        push_cast
        linarith
      exact .inr (Nat.lt_succ_iff.1 (by exact_mod_cast this))

/-- Rounding to a multiple of the spacing finds the nearest pattern of all: those that are no
multiples lie below the block, farther off than its first. -/
theorem nearest_block (hd : 0 < d) (h : InBlock ((n : ℚ) / d) s) {p : ℕ}
    (hp : units p ≠ roundHalfEven n (d * 2 ^ s) * 2 ^ s) :
    |(roundHalfEven n (d * 2 ^ s) : ℚ) * 2 ^ s - n / d| ≤ |(units p : ℚ) - n / d| ∧
      (|(units p : ℚ) - n / d| = |(roundHalfEven n (d * 2 ^ s) : ℚ) * 2 ^ s - n / d| →
        Even (roundHalfEven n (d * 2 ^ s))) := by
  have hspacing : (0 : ℚ) < 2 ^ s := by positivity
  have hmultiple {k : ℕ} (hk : k ≠ roundHalfEven n (d * 2 ^ s)) :
      |(roundHalfEven n (d * 2 ^ s) : ℚ) * 2 ^ s - n / d| ≤ |(k : ℚ) * 2 ^ s - n / d| ∧
        (|(k : ℚ) * 2 ^ s - n / d| = |(roundHalfEven n (d * 2 ^ s) : ℚ) * 2 ^ s - n / d| →
          Even (roundHalfEven n (d * 2 ^ s))) := by
    obtain ⟨hle, htie⟩ := roundHalfEven_nearest n (d := d * 2 ^ s) (by positivity) hk
    rw [div_spacing] at hle htie
    rw [abs_mul_sub hspacing, abs_mul_sub hspacing]
    exact ⟨mul_le_mul_of_nonneg_right hle hspacing.le,
      fun heq => htie (mul_right_cancel₀ hspacing.ne' heq)⟩
  rcases units_cases s p with ⟨k, hk⟩ | ⟨hs, hlt⟩
  · rw [hk, Nat.cast_mul, Nat.cast_pow, Nat.cast_ofNat]
    refine hmultiple fun hsame => hp ?_
    rw [hk, hsame]
  · have hfirst : |(roundHalfEven n (d * 2 ^ s) : ℚ) * 2 ^ s - n / d| ≤
        |(2 : ℚ) ^ 52 * 2 ^ s - n / d| := by
      by_cases hk : 2 ^ 52 = roundHalfEven n (d * 2 ^ s)
      · rw [← hk]
        norm_num
      · exact_mod_cast (hmultiple hk).1
    have hlow := h.low hs
    have hbelow : (units p : ℚ) < 2 ^ 52 * 2 ^ s := by exact_mod_cast hlt
    rw [abs_of_nonpos (sub_nonpos.2 hlow)] at hfirst
    rw [abs_of_neg (sub_neg.2 (hbelow.trans_le hlow))]
    exact ⟨by linarith, fun htie => by linarith⟩

def unboundedPattern (n d : ℕ) : ℕ :=
  (Nat.log2 (n / d) - 52) * 2 ^ 52 + roundHalfEven n (d * 2 ^ (Nat.log2 (n / d) - 52))

theorem nearestBelow_unboundedPattern (n : ℕ) (hd : 0 < d) {top : ℕ}
    (htop : unboundedPattern n d < top) : NearestBelow top (n / d) (unboundedPattern n d) := by
  have hblock := inBlock_log2 n hd
  obtain ⟨hk, hs⟩ := roundHalfEven_inBlock hd hblock
  have hunits : units (unboundedPattern n d) = _ := units_block hk hs
  have hcast := congrArg (Nat.cast (R := ℚ)) hunits
  rw [Nat.cast_mul, Nat.cast_pow, Nat.cast_ofNat] at hcast
  have hother {p : ℕ} (hne : p ≠ unboundedPattern n d) :=
    nearest_block hd hblock (hunits ▸ units_strictMono.injective.ne hne)
  refine ⟨htop, fun p _ => ?_, fun p _ hne htie => ?_⟩
  · by_cases hsame : p = unboundedPattern n d
    · rw [hsame]
    · rw [hcast]
      exact (hother hsame).1
  · rw [hcast] at htie
    have heven := (hother hne).2 htie
    rw [Nat.even_iff] at heven ⊢
    rw [unboundedPattern]
    omega

end Block

/-- From here on numbers of units are rounded to infinity: half-way from the greatest finite
number to the next pattern's. -/
def overflowUnits : ℚ := 2 ^ 1074 * (2 ^ 1024 - 2 ^ 970)

/-- What the pattern for a number of units is: the nearest finite one or infinity. -/
structure Rounds (v : ℚ) (p : ℕ) : Prop where
  finite : v < overflowUnits → NearestBelow infinityPattern v p
  infinite : overflowUnits ≤ v → p = infinityPattern

theorem units_infinityPattern : units infinityPattern = 2 ^ 53 * 2 ^ 2045 := by
  rw [show infinityPattern = 2045 * 2 ^ 52 + 2 ^ 53 from rfl]
  exact units_block le_rfl (by omega)

theorem units_greatest : units (infinityPattern - 1) = (2 ^ 53 - 1) * 2 ^ 2045 := by
  rw [show infinityPattern - 1 = 2045 * 2 ^ 52 + (2 ^ 53 - 1) from rfl]
  exact units_block (by omega) (by omega)

theorem overflowUnits_eq :
    overflowUnits = ((units (infinityPattern - 1) : ℚ) + units infinityPattern) / 2 := by
  have hbound : (2 : ℚ) ^ 1024 = 2 ^ 54 * 2 ^ 970 := by rw [← pow_add]
  have hspacing : (2 : ℚ) ^ 2045 = 2 * (2 ^ 1074 * 2 ^ 970) := by rw [← pow_add, ← pow_succ']
  rw [units_infinityPattern, units_greatest, overflowUnits, hbound, Nat.cast_mul, Nat.cast_mul,
    Nat.cast_pow 2 2045, Nat.cast_ofNat, hspacing]
  generalize (2 : ℚ) ^ 970 = a
  generalize (2 : ℚ) ^ 1074 = b
  norm_num
  ring

theorem units_greatest_lt : (units (infinityPattern - 1) : ℚ) < units infinityPattern := by
  exact_mod_cast units_strictMono (by decide : infinityPattern - 1 < infinityPattern)

theorem unboundedPattern_lt {n d : ℕ} (hd : 0 < d) (hv : (n : ℚ) / d < overflowUnits) :
    unboundedPattern n d < infinityPattern := by
  by_contra hge
  have hle : (units infinityPattern : ℚ) ≤ units (unboundedPattern n d) := by
    exact_mod_cast units_strictMono.monotone (not_lt.1 hge)
  -- the greatest finite number would be nearer
  have hcloser := (nearestBelow_unboundedPattern n hd (Nat.lt_succ_self _)).nearest
    (infinityPattern - 1) (by omega)
  rw [overflowUnits_eq] at hv
  have hlt := units_greatest_lt
  rcases abs_cases ((units (infinityPattern - 1) : ℚ) - n / d) with ⟨h, -⟩ | ⟨h, -⟩ <;>
    rw [h, abs_of_nonneg (by linarith)] at hcloser <;> linarith

theorem le_unboundedPattern {n d : ℕ} (hd : 0 < d) (hv : overflowUnits ≤ (n : ℚ) / d) :
    infinityPattern ≤ unboundedPattern n d := by
  by_contra hlt
  have hle : (units (unboundedPattern n d) : ℚ) ≤ units (infinityPattern - 1) := by
    exact_mod_cast units_strictMono.monotone (Nat.le_sub_one_of_lt (not_le.1 hlt))
  obtain ⟨-, hnearest, heven⟩ :=
    nearestBelow_unboundedPattern n hd ((not_le.1 hlt).trans (Nat.lt_succ_self _))
  have hcloser := hnearest infinityPattern (Nat.lt_succ_self _)
  rw [overflowUnits_eq] at hv
  have hgreatest := units_greatest_lt
  have hsign : |(units (unboundedPattern n d) : ℚ) - n / d| =
      n / d - units (unboundedPattern n d) := by
    rw [abs_of_nonpos (by linarith), neg_sub]
  rcases abs_cases ((units infinityPattern : ℚ) - n / d) with ⟨h, -⟩ | ⟨h, -⟩
  · -- it is half-way, and the greatest finite pattern is odd
    have hsame : unboundedPattern n d = infinityPattern - 1 := by
      refine units_strictMono.injective (Nat.cast_injective (R := ℚ) ?_)
      linarith
    have hodd := heven infinityPattern (Nat.lt_succ_self _) (by omega) (by linarith)
    rw [hsame] at hodd
    exact absurd hodd (by decide)
  · linarith

theorem rounds_nearestPattern (n : ℕ) {d : ℕ} (hd : 0 < d) :
    Rounds (n / d) (nearestPattern n d) := by
  have hmin : nearestPattern n d = min (unboundedPattern n d) infinityPattern := rfl
  rw [hmin]
  constructor
  · intro hv
    have hlt := unboundedPattern_lt hd hv
    rw [min_eq_left hlt.le]
    exact nearestBelow_unboundedPattern n hd hlt
  · intro hv
    exact min_eq_right (le_unboundedPattern hd hv)

theorem nearestBelow_zero {v : ℚ} (hpos : 0 ≤ v) (hle : v ≤ 1 / 2) :
    NearestBelow infinityPattern v 0 := by
  refine ⟨by decide, fun p _ => ?_, fun _ _ _ _ => Even.zero⟩
  rcases Nat.eq_zero_or_pos p with rfl | hp
  · exact le_rfl
  · have hone : (1 : ℚ) ≤ units p := by
      exact_mod_cast hp.trans_le units_strictMono.le_apply
    rw [show units 0 = 0 by decide, Nat.cast_zero, zero_sub, abs_neg, abs_of_nonneg hpos,
      abs_of_nonneg (by linarith)]
    linarith

theorem abs_sub_lt_of_between {a b c v : ℚ} (hab : a < b) (hbc : b < c)
    (h : |a - v| = |c - v|) : |b - v| < |a - v| := by
  rcases abs_eq_abs.1 h with hsame | hopposite
  · linarith
  · rw [abs_of_neg (by linarith : a - v < 0), abs_lt]
    constructor <;> linarith

/-- No two patterns are nearest: between two even ones is another, nearer than both. -/
theorem NearestBelow.unique {top p q : ℕ} {v : ℚ} (hp : NearestBelow top v p)
    (hq : NearestBelow top v q) : p = q := by
  wlog hlt : p < q generalizing p q
  · rcases eq_or_lt_of_le (not_lt.1 hlt) with h | h
    · exact h.symm
    · exact (this hq hp h).symm
  have htie := le_antisymm (hp.nearest q hq.lt) (hq.nearest p hp.lt)
  have hpe := Nat.even_iff.1 (hp.even q hq.lt hlt.ne' htie.symm)
  have hqe := Nat.even_iff.1 (hq.even p hp.lt hlt.ne htie)
  have hbetween := hp.nearest (p + 1) (by have := hq.lt; omega)
  have hleft : (units p : ℚ) < units (p + 1) := by exact_mod_cast units_strictMono (by omega)
  have hright : (units (p + 1) : ℚ) < units q := by exact_mod_cast units_strictMono (by omega)
  exact absurd hbetween (abs_sub_lt_of_between hleft hright htie).not_ge

theorem Rounds.unique {v : ℚ} {p q : ℕ} (hp : Rounds v p) (hq : Rounds v q) : p = q := by
  rcases lt_or_ge v overflowUnits with h | h
  · exact (hp.finite h).unique (hq.finite h)
  · rw [hp.infinite h, hq.infinite h]

theorem half_lt_overflowUnits : 1 / 2 < overflowUnits := by
  have hlarge : ((2 : ℕ) : ℚ) ≤ units infinityPattern := by
    exact_mod_cast (by decide : 2 ≤ infinityPattern).trans units_strictMono.le_apply
  have hpos : (0 : ℚ) ≤ units (infinityPattern - 1) := Nat.cast_nonneg _
  rw [overflowUnits_eq]
  push_cast at hlarge
  linarith

theorem rounds_zero {v : ℚ} (hpos : 0 ≤ v) (hle : v ≤ 1 / 2) : Rounds v 0 :=
  ⟨fun _ => nearestBelow_zero hpos hle, fun h => absurd half_lt_overflowUnits (by linarith)⟩

theorem rounds_infinityPattern {v : ℚ} (h : overflowUnits ≤ v) : Rounds v infinityPattern :=
  ⟨fun hlt => absurd h hlt.not_ge, fun _ => rfl⟩

theorem overflowUnits_le {m : ℕ} (hm : m ≠ 0) {e : ℤ} (he : 310 ≤ e) :
    overflowUnits ≤ m * 10 ^ e * 2 ^ 1074 := by
  have hpower : (2 : ℚ) ^ 1024 ≤ 10 ^ 310 := by
    exact_mod_cast (by decide +kernel : 2 ^ 1024 ≤ 10 ^ 310)
  calc overflowUnits ≤ 2 ^ 1074 * 10 ^ 310 := by
        refine mul_le_mul_of_nonneg_left ?_ (by positivity)
        exact (sub_le_self _ (by positivity)).trans hpower
    _ ≤ 2 ^ 1074 * 10 ^ e := by
        refine mul_le_mul_of_nonneg_left ?_ (by positivity)
        exact_mod_cast zpow_le_zpow_right₀ (by norm_num : (1 : ℚ) ≤ 10) he
    _ ≤ 2 ^ 1074 * (m * 10 ^ e) := by
        refine mul_le_mul_of_nonneg_left ?_ (by positivity)
        exact le_mul_of_one_le_left (by positivity) (by exact_mod_cast Nat.one_le_iff_ne_zero.2 hm)
    _ = m * 10 ^ e * 2 ^ 1074 := mul_comm _ _

/-- Leading bits that end low enough: a tenth is less than an eighth. -/
theorem le_half_of_log2 {m : ℕ} {e : ℤ} (h : (Nat.log2 m : ℤ) + 1 + 3 * e ≤ -1075) :
    m * 10 ^ e * 2 ^ 1074 ≤ (1 / 2 : ℚ) := by
  obtain ⟨k, rfl⟩ : ∃ k : ℕ, e = -k := ⟨e.natAbs, by omega⟩
  have hbits : (m : ℚ) ≤ 2 ^ (Nat.log2 m + 1) := by exact_mod_cast Nat.lt_log2_self.le
  have hpower : (10 : ℚ) ^ (-k : ℤ) ≤ (2 ^ (3 * k))⁻¹ := by
    rw [zpow_neg, zpow_natCast, pow_mul]
    exact inv_anti₀ (by positivity) (pow_le_pow_left₀ (by norm_num) (by norm_num) k)
  calc (m : ℚ) * 10 ^ (-k : ℤ) * 2 ^ 1074
      ≤ 2 ^ (Nat.log2 m + 1) * (2 ^ (3 * k))⁻¹ * 2 ^ 1074 := by gcongr
    _ = 2 ^ (Nat.log2 m + 1 + 1074) / 2 ^ (3 * k) := by
        rw [pow_add 2 (Nat.log2 m + 1) 1074, div_eq_mul_inv, mul_right_comm]
    _ ≤ 1 / 2 := by
        rw [div_le_div_iff₀ (by positivity) (by positivity), ← pow_succ, one_mul]
        exact pow_le_pow_right₀ (by norm_num) (by omega)

theorem rounds_decimalPattern (m : ℕ) (e : ℤ) :
    Rounds (m * 10 ^ e * 2 ^ 1074) (decimalPattern m e) := by
  simp only [decimalPattern, Nat.pow_eq, -Nat.reducePow]
  split_ifs with hm hlarge hsmall he
  · simpa [hm] using rounds_zero le_rfl (by norm_num)
  · exact rounds_infinityPattern (overflowUnits_le hm hlarge)
  · exact rounds_zero (by positivity) (le_half_of_log2 hsmall)
  · obtain ⟨k, rfl⟩ := Int.eq_ofNat_of_zero_le he
    have hrounds := rounds_nearestPattern (m * 10 ^ k * 2 ^ 1074) one_pos
    rw [Nat.cast_one, div_one, Nat.cast_mul, Nat.cast_mul, Nat.cast_pow, Nat.cast_pow] at hrounds
    rwa [zpow_natCast]
  · obtain ⟨k, rfl⟩ : ∃ k : ℕ, e = -k := ⟨e.natAbs, by omega⟩
    have hrounds := rounds_nearestPattern (m * 2 ^ 1074) (pow_pos (by omega : 0 < 10) k)
    rw [Nat.cast_mul, Nat.cast_pow, Nat.cast_pow, mul_div_right_comm] at hrounds
    rwa [zpow_neg, zpow_natCast, ← div_eq_mul_inv, neg_neg]

section Values

variable {negative : Bool} {a : ℚ} {x : Binary64}

theorem value_eq (hsign : x.isNegative = negative) :
    x.value = signed negative (units x.pattern / 2 ^ 1074) := by
  rw [value, hsign, magnitude_eq]

theorem abs_value_sub (hsign : x.isNegative = negative) (a : ℚ) :
    |x.value - signed negative a| = |(units x.pattern : ℚ) - a * 2 ^ 1074| / 2 ^ 1074 := by
  rw [value_eq hsign, abs_signed_sub, div_eq_mul_inv, abs_mul_sub (by positivity),
    div_inv_eq_mul, div_eq_mul_inv]

theorem isFinite_ofPattern (negative : Bool) {p : ℕ} (hp : p < infinityPattern) :
    (ofPattern negative p).IsFinite := by
  rwa [isFinite_iff, pattern_ofPattern negative (hp.trans (by decide))]

theorem Nearest.nearestBelow (hsign : x.isNegative = negative) (h : x.Nearest (signed negative a)) :
    NearestBelow infinityPattern (a * 2 ^ 1074) x.pattern := by
  have hscale : (0 : ℚ) < 2 ^ 1074 := by positivity
  have hdistance {p : ℕ} (hp : p < infinityPattern) :
      |(ofPattern negative p).value - signed negative a| =
        |(units p : ℚ) - a * 2 ^ 1074| / 2 ^ 1074 := by
    have hp' : p < 2 ^ 63 := hp.trans (by decide)
    rw [abs_value_sub (isNegative_ofPattern negative hp'), pattern_ofPattern negative hp']
  refine ⟨(isFinite_iff x).1 h.finite, fun p hp => ?_, fun p hp hne htie => ?_⟩
  · have hle := h.nearest _ (isFinite_ofPattern negative hp)
    rwa [abs_value_sub hsign, hdistance hp, div_le_div_iff_of_pos_right hscale] at hle
  · rw [← even_significand_iff]
    refine h.even _ (isFinite_ofPattern negative hp) (fun hsame => hne ?_) ?_
    · have hp' : p < 2 ^ 63 := hp.trans (by decide)
      rw [value_eq hsign, value_eq (isNegative_ofPattern negative hp'), (signed_injective _).eq_iff,
        pattern_ofPattern negative hp', div_left_inj' hscale.ne', Nat.cast_inj] at hsame
      exact units_strictMono.injective hsame
    · rw [abs_value_sub hsign, hdistance hp, htie]

/-- No finite number is nearer than all with the sign: one with the other sign is no nearer than
zero. -/
theorem exists_pattern_as_near (negative : Bool) (ha : 0 ≤ a) {y : Binary64} (hy : y.IsFinite) :
    ∃ p < infinityPattern,
      |(units p : ℚ) - a * 2 ^ 1074| / 2 ^ 1074 ≤ |y.value - signed negative a| ∧
        (|(units p : ℚ) - a * 2 ^ 1074| / 2 ^ 1074 = |y.value - signed negative a| →
          y.value = signed negative (units p / 2 ^ 1074)) := by
  by_cases hsign : y.isNegative = negative
  · rw [abs_value_sub hsign]
    exact ⟨y.pattern, (isFinite_iff y).1 hy, le_rfl, fun _ => value_eq hsign⟩
  · have hvalue : y.value = signed (!negative) (units y.pattern / 2 ^ 1074) :=
      value_eq (Bool.eq_not.2 hsign)
    have hpositive : (0 : ℚ) ≤ units y.pattern / 2 ^ 1074 := by positivity
    refine ⟨0, by decide, ?_⟩
    rw [hvalue, abs_signed_not_sub, show units 0 = 0 by decide, Nat.cast_zero, zero_sub, abs_neg,
      abs_of_nonneg (by positivity), mul_div_cancel_right₀ _ (by positivity), zero_div,
      abs_of_nonneg (by positivity)]
    refine ⟨le_add_of_nonneg_left hpositive, fun heq => ?_⟩
    rw [right_eq_add.1 heq]
    cases negative <;> simp [signed]

theorem NearestBelow.nearest_signed (hsign : x.isNegative = negative) (ha : 0 ≤ a)
    (h : NearestBelow infinityPattern (a * 2 ^ 1074) x.pattern) :
    x.Nearest (signed negative a) := by
  have hscale : (0 : ℚ) < 2 ^ 1074 := by positivity
  have hnearest {p : ℕ} (hp : p < infinityPattern) : |x.value - signed negative a| ≤
      |(units p : ℚ) - a * 2 ^ 1074| / 2 ^ 1074 := by
    rw [abs_value_sub hsign, div_le_div_iff_of_pos_right hscale]
    exact h.nearest p hp
  refine ⟨(isFinite_iff x).2 h.lt, fun y hy => ?_, fun y hy hne htie => ?_⟩
  · obtain ⟨p, hp, hle, -⟩ := exists_pattern_as_near negative ha hy
    exact (hnearest hp).trans hle
  · obtain ⟨p, hp, hle, hvalue⟩ := exists_pattern_as_near negative ha hy
    have heq := le_antisymm hle (htie.trans_le (hnearest hp))
    rw [even_significand_iff]
    refine h.even p hp (fun hsame => hne ?_) ?_
    · rw [hvalue heq, hsame, value_eq hsign]
    · rwa [htie, abs_value_sub hsign, div_left_inj' hscale.ne'] at heq

theorem correctlyRounded_iff (ha : 0 ≤ a) :
    CorrectlyRounded negative (signed negative a) x ↔
      x.isNegative = negative ∧ Rounds (a * 2 ^ 1074) x.pattern := by
  have hscale : (0 : ℚ) < 2 ^ 1074 := by positivity
  have habs : |signed negative a| = a := by rw [abs_signed, abs_of_nonneg ha]
  have hbound : a < 2 ^ 1024 - 2 ^ 970 ↔ a * 2 ^ 1074 < overflowUnits := by
    rw [overflowUnits, mul_comm (2 ^ 1074), mul_lt_mul_iff_left₀ hscale]
  constructor
  · rintro ⟨hsign, hover, hnearest, -⟩
    rw [habs] at hover hnearest
    refine ⟨hsign, fun hlt => (hnearest (hbound.2 hlt)).nearestBelow hsign, fun hle => ?_⟩
    rw [← isInfinite_iff]
    exact hover (not_lt.1 fun hlt => (hbound.1 hlt).not_ge hle)
  · rintro ⟨hsign, hrounds⟩
    refine ⟨hsign, fun hle => ?_, fun hlt => ?_, fun hle => ?_⟩
    · rw [habs] at hle
      rw [isInfinite_iff]
      exact hrounds.infinite (not_lt.1 fun hlt => (hbound.2 hlt).not_ge hle)
    · rw [habs, hbound] at hlt
      exact (hrounds.finite hlt).nearest_signed hsign ha
    · rw [habs, pow_succ', ← div_div, le_div_iff₀ hscale] at hle
      rw [isZero_iff]
      exact hrounds.unique (rounds_zero (by positivity) hle)

end Values

/-- A decimal number is correctly rounded, and no other result is correct. -/
theorem correctlyRounded_iff_eq_ofDecimal (negative : Bool) (m : ℕ) (e : ℤ) (x : Binary64) :
    CorrectlyRounded negative (signed negative (m * 10 ^ e)) x ↔ x = ofDecimal negative m e := by
  have hrounds := rounds_decimalPattern m e
  have hle : decimalPattern m e < 2 ^ 63 := by
    rcases lt_or_ge (m * 10 ^ e * 2 ^ 1074 : ℚ) overflowUnits with h | h
    · exact (hrounds.finite h).lt.trans (by decide)
    · rw [hrounds.infinite h]
      decide
  have hsign : (ofDecimal negative m e).isNegative = negative := isNegative_ofPattern negative hle
  have hpattern : (ofDecimal negative m e).pattern = decimalPattern m e :=
    pattern_ofPattern negative hle
  rw [correctlyRounded_iff (by positivity)]
  constructor
  · rintro ⟨hx, hx'⟩
    exact eq_of_pattern_eq (hx.trans hsign.symm) ((hx'.unique hrounds).trans hpattern.symm)
  · rintro rfl
    exact ⟨hsign, hpattern ▸ hrounds⟩

-- half-way between two numbers whose significands are `2^52` and `2^52 + 1`
example : ofDecimal false 9007199254740993 0 = ⟨0x4340000000000000⟩ := by decide +kernel

end Binary64

end LocatedJson
