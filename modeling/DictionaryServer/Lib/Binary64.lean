/-
Doubles, and which of them a decimal number is rounded to.

A double has a sign bit and below it the bits of its magnitude: 52 of the
fraction under 11 of the exponent. Counted in units of 2^-1074, the least
positive double, a magnitude stands for a natural number (`units`), and from
one magnitude to the next that number grows by a power of two (`units_succ`).
So a number lies at or between two magnitudes that follow each other, and
`nearest` takes the nearer, or the even one if it lies in their middle
(`nearest_le`, `nearest_even`).
-/
import Mathlib.Algebra.Order.Field.Rat
import Mathlib.Algebra.Order.Field.Basic
import Mathlib.Data.Nat.Dist
import Mathlib.Data.Nat.Log
import Mathlib.Order.Monotone.Basic
import Mathlib.Tactic.FieldSimp
import Mathlib.Tactic.Ring

namespace Lib

/-- A double, by its bits. -/
structure Binary64 where
  bits : UInt64
  deriving DecidableEq

namespace Binary64

/-! ## Magnitudes -/

/-- The last bit of a magnitude counts 2 to this power of the units. -/
def exponent (magnitude : Nat) : Nat := magnitude / 2 ^ 52 - 1

def units (magnitude : Nat) : Nat := (magnitude - exponent magnitude * 2 ^ 52) * 2 ^ exponent magnitude

theorem units_add (e significand : Nat) (hle : significand ≤ 2 ^ 53) (hnormal : e = 0 ∨ 2 ^ 52 ≤ significand) :
    units (e * 2 ^ 52 + significand) = significand * 2 ^ e := by
  rcases Nat.lt_or_ge significand (2 ^ 53) with hlt | hge
  · have he : exponent (e * 2 ^ 52 + significand) = e := by
      unfold exponent
      omega
    rw [units, he, Nat.add_sub_cancel_left]
  · -- The significand is carried into the exponent.
    have he : exponent (e * 2 ^ 52 + significand) = e + 1 := by
      unfold exponent
      omega
    have hrest : e * 2 ^ 52 + significand - (e + 1) * 2 ^ 52 = 2 ^ 52 := by omega
    rw [units, he, hrest, Nat.le_antisymm hle hge, pow_succ 2 e, pow_succ 2 52]
    ring

/-- Every magnitude is a significand with an exponent. -/
theorem exists_significand (magnitude : Nat) : ∃ e significand, magnitude = e * 2 ^ 52 + significand ∧
    exponent magnitude = e ∧ significand < 2 ^ 53 ∧ (e = 0 ∨ 2 ^ 52 ≤ significand) := by
  refine ⟨exponent magnitude, magnitude - exponent magnitude * 2 ^ 52, ?_, rfl, ?_, ?_⟩
  all_goals
    unfold exponent
    omega

theorem units_succ (magnitude : Nat) : units (magnitude + 1) = units magnitude + 2 ^ exponent magnitude := by
  obtain ⟨e, significand, rfl, he, hlt, hnormal⟩ := exists_significand magnitude
  rw [he, Nat.add_assoc, units_add e (significand + 1) hlt (by omega), units_add e significand hlt.le hnormal]
  ring

theorem units_strictMono : StrictMono units :=
  strictMono_nat_of_lt_succ fun magnitude => by
    rw [units_succ]
    exact Nat.lt_add_of_pos_right (Nat.two_pow_pos _)

/-! ## The nearest magnitude -/

/-- `n / d` to the nearest, and to the even one of two. -/
def roundEven (n d : Nat) : Nat :=
  if 2 * (n % d) < d ∨ 2 * (n % d) = d ∧ n / d % 2 = 0 then n / d else n / d + 1

/-- The magnitude next to `n / d` units, were there room for every exponent. -/
def nearest (n d : Nat) : Nat :=
  let e := (n / d).log2 - 52
  e * 2 ^ 52 + roundEven n (d * 2 ^ e)

/-- The exponent is the one that leaves 53 bits, or all there are. -/
theorem significand_bounds (n d : Nat) :
    let e := (n / d).log2 - 52
    n / (d * 2 ^ e) < 2 ^ 53 ∧ (e = 0 ∨ 2 ^ 52 ≤ n / (d * 2 ^ e)) := by
  intro e
  rw [← Nat.div_div_eq_div_mul]
  constructor
  · rw [Nat.div_lt_iff_lt_mul (Nat.two_pow_pos _), ← pow_add]
    have hlt : n / d < 2 ^ ((n / d).log2 + 1) := Nat.lt_log2_self
    exact hlt.trans_le (Nat.pow_le_pow_right (by decide) (by omega))
  · by_cases he : e = 0
    · exact .inl he
    · have hne : n / d ≠ 0 := by
        intro h
        simp [e, h] at he
      refine .inr ((Nat.le_div_iff_mul_le (Nat.two_pow_pos _)).mpr ?_)
      rw [← pow_add]
      exact (Nat.pow_le_pow_right (by decide) (by omega)).trans (Nat.log2_self_le hne)

/-- The number lies between two magnitudes, and `nearest` is the one on its side of their middle. -/
theorem nearest_between (n : Nat) {d : Nat} (hd : 0 < d) : ∃ low, units low * d ≤ n ∧ n < units (low + 1) * d ∧
    (nearest n d = low ∧ (2 * n < units low * d + units (low + 1) * d ∨
        2 * n = units low * d + units (low + 1) * d ∧ low % 2 = 0) ∨
      nearest n d = low + 1 ∧ (units low * d + units (low + 1) * d < 2 * n ∨
        2 * n = units low * d + units (low + 1) * d ∧ low % 2 = 1)) := by
  obtain ⟨hlt, hnormal⟩ := significand_bounds n d
  obtain ⟨e, he⟩ : ∃ e, e = (n / d).log2 - 52 := ⟨_, rfl⟩
  rw [← he] at hlt hnormal
  obtain ⟨significand, hsignificand⟩ : ∃ significand, significand = n / (d * 2 ^ e) := ⟨_, rfl⟩
  rw [← hsignificand] at hlt hnormal
  have hlow : units (e * 2 ^ 52 + significand) * d = significand * (d * 2 ^ e) := by
    rw [units_add e significand hlt.le hnormal]
    ring
  have hhigh : units (e * 2 ^ 52 + significand + 1) * d = significand * (d * 2 ^ e) + d * 2 ^ e := by
    rw [Nat.add_assoc, units_add e (significand + 1) hlt (by omega)]
    ring
  have hdiv := Nat.div_add_mod' n (d * 2 ^ e)
  have hmod := Nat.mod_lt n (Nat.mul_pos hd (Nat.two_pow_pos e))
  rw [← hsignificand] at hdiv
  have heven : (e * 2 ^ 52 + significand) % 2 = significand % 2 := by omega
  have hround : nearest n d = e * 2 ^ 52 + roundEven n (d * 2 ^ e) := by rw [nearest, ← he]
  refine ⟨e * 2 ^ 52 + significand, by omega, by omega, ?_⟩
  rw [hround, hlow, hhigh, heven, roundEven, ← hsignificand]
  by_cases hside : 2 * (n % (d * 2 ^ e)) < d * 2 ^ e ∨ 2 * (n % (d * 2 ^ e)) = d * 2 ^ e ∧ significand % 2 = 0
  · rw [if_pos hside]
    exact .inl ⟨rfl, by omega⟩
  · rw [if_neg hside]
    exact .inr ⟨(Nat.add_assoc _ _ _).symm, by omega⟩

/-- **No magnitude is nearer.** -/
theorem nearest_le (n : Nat) {d : Nat} (hd : 0 < d) (magnitude : Nat) :
    Nat.dist (units (nearest n d) * d) n ≤ Nat.dist (units magnitude * d) n := by
  obtain ⟨low, hlow, hhigh, hnearest⟩ := nearest_between n hd
  have hside : units magnitude * d ≤ units low * d ∨ units (low + 1) * d ≤ units magnitude * d := by
    rcases Nat.lt_or_ge low magnitude with hlt | hge
    · exact .inr (Nat.mul_le_mul_right d (units_strictMono.monotone hlt))
    · exact .inl (Nat.mul_le_mul_right d (units_strictMono.monotone hge))
  unfold Nat.dist
  rcases hnearest with ⟨h, hhalf⟩ | ⟨h, hhalf⟩
  · rw [h]
    omega
  · rw [h]
    omega

/-- **And if one is as near, it is the even one.** -/
theorem nearest_even {n d magnitude : Nat} (hd : 0 < d) (hne : magnitude ≠ nearest n d)
    (hdist : Nat.dist (units (nearest n d) * d) n = Nat.dist (units magnitude * d) n) : nearest n d % 2 = 0 := by
  obtain ⟨low, hlow, hhigh, hnearest⟩ := nearest_between n hd
  have hside : units magnitude * d < units low * d ∨ magnitude = low ∨ magnitude = low + 1 ∨
      units (low + 1) * d < units magnitude * d := by
    rcases Nat.lt_trichotomy magnitude low with hlt | heq | hgt
    · exact .inl (Nat.mul_lt_mul_of_pos_right (units_strictMono hlt) hd)
    · exact .inr (.inl heq)
    · rcases Nat.lt_or_ge (low + 1) magnitude with hlt | hge
      · exact .inr (.inr (.inr (Nat.mul_lt_mul_of_pos_right (units_strictMono hlt) hd)))
      · exact .inr (.inr (.inl (by omega)))
  unfold Nat.dist at hdist
  rcases hnearest with ⟨h, hhalf⟩ | ⟨h, hhalf⟩
  · rw [h] at hne hdist ⊢
    rcases hside with hlt | heq | rfl | hgt <;> omega
  · rw [h] at hne hdist ⊢
    rcases hside with hlt | rfl | heq | hgt <;> omega

/-! ## Doubles -/

def ofMagnitude (negative : Bool) (magnitude : Nat) : Binary64 where
  bits := .ofNat (magnitude + if negative then 2 ^ 63 else 0)

def negative (x : Binary64) : Bool := 2 ^ 63 ≤ x.bits.toNat

def magnitude (x : Binary64) : Nat := x.bits.toNat % 2 ^ 63

def zero : Binary64 := ofMagnitude false 0

/-- The magnitude of the greatest finite double. Above it is infinity. -/
def greatest : Nat := 2047 * 2 ^ 52 - 1

def IsFinite (x : Binary64) : Prop := x.magnitude ≤ greatest

/-- The units in one. -/
@[irreducible] def scale : Nat := 2 ^ 1074

/-- The value of a finite double. -/
def toRat (x : Binary64) : ℚ := (if x.negative then -1 else 1) * (units x.magnitude / scale)

theorem toNat_ofMagnitude {sign : Bool} {bits : Nat} (h : bits ≤ greatest) :
    (ofMagnitude sign bits).bits.toNat = bits + if sign then 2 ^ 63 else 0 := by
  have hlt : bits < 2047 * 2 ^ 52 := Nat.lt_of_le_sub_one (by decide) h
  rw [ofMagnitude, UInt64.toNat_ofNat']
  split <;> omega

theorem magnitude_ofMagnitude (sign : Bool) {bits : Nat} (h : bits ≤ greatest) :
    (ofMagnitude sign bits).magnitude = bits := by
  have hlt : bits < 2047 * 2 ^ 52 := Nat.lt_of_le_sub_one (by decide) h
  rw [magnitude, toNat_ofMagnitude h]
  split <;> omega

theorem negative_ofMagnitude (sign : Bool) {bits : Nat} (h : bits ≤ greatest) :
    (ofMagnitude sign bits).negative = sign := by
  have hlt : bits < 2047 * 2 ^ 52 := Nat.lt_of_le_sub_one (by decide) h
  rw [negative, toNat_ofMagnitude h]
  cases sign
  · simp
    omega
  · simp

theorem even_ofMagnitude {sign : Bool} {bits : Nat} (h : bits ≤ greatest) (heven : bits % 2 = 0) :
    (ofMagnitude sign bits).bits.toNat % 2 = 0 := by
  rw [toNat_ofMagnitude h]
  split <;> omega

/-- A double is its sign and its magnitude. -/
theorem eq_of_parts {x y : Binary64} (hsign : x.negative = y.negative) (hmagnitude : x.magnitude = y.magnitude) : x = y := by
  have hx := x.bits.toNat_lt
  have hy := y.bits.toNat_lt
  rcases x with ⟨x⟩
  rcases y with ⟨y⟩
  simp only [negative, magnitude, decide_eq_decide] at hsign hmagnitude hx hy
  congr 1
  exact UInt64.toNat_inj.mp (by omega)

theorem scale_pos : 0 < scale := by
  unfold scale
  apply Nat.two_pow_pos

theorem cast_scale_pos : (0 : ℚ) < scale := Nat.cast_pos.mpr scale_pos

theorem abs_cast_sub (m n : Nat) : |(m : ℚ) - n| = (Nat.dist m n : Nat) := by
  rcases Nat.le_total m n with hle | hle
  · rw [Nat.dist_eq_sub_of_le hle, Nat.cast_sub hle, abs_sub_comm, abs_of_nonneg]
    exact sub_nonneg.mpr (Nat.cast_le.mpr hle)
  · rw [Nat.dist_eq_sub_of_le_right hle, Nat.cast_sub hle, abs_of_nonneg]
    exact sub_nonneg.mpr (Nat.cast_le.mpr hle)

theorem abs_sign (negative : Bool) : |(if negative then -1 else 1 : ℚ)| = 1 := by cases negative <;> simp

theorem abs_toRat (x : Binary64) : |x.toRat| = units x.magnitude / scale := by
  rw [toRat, abs_mul, abs_sign, one_mul, abs_of_nonneg (div_nonneg (Nat.cast_nonneg _) cast_scale_pos.le)]

end Binary64

/-! ## Decimal numbers -/

/-- `digits * 10 ^ exponent`, and a sign that a zero has too. -/
structure Decimal where
  negative : Bool
  digits : Nat
  exponent : Int

namespace Decimal

open Binary64

def toRat (number : Decimal) : ℚ := (if number.negative then -1 else 1) * (number.digits * 10 ^ number.exponent)

/-- In units the number is `numerator / denominator`. -/
def numerator (number : Decimal) : Nat := number.digits * 10 ^ number.exponent.toNat * scale

def denominator (number : Decimal) : Nat := 10 ^ (-number.exponent).toNat

def magnitude (number : Decimal) : Nat := nearest number.numerator number.denominator

/-- There is a finite double next to the number. -/
def Fits (number : Decimal) : Prop := number.magnitude ≤ greatest

instance (number : Decimal) : Decidable number.Fits := inferInstanceAs (Decidable (_ ≤ _))

/-- The double next to the number, and the greatest finite one for what does not fit. -/
def toBinary64 (number : Decimal) : Binary64 := ofMagnitude number.negative (min number.magnitude greatest)

/-- Rounding to the nearest, and to the even one of two. -/
structure RoundsTo (number : Decimal) (x : Binary64) : Prop where
  finite : x.IsFinite
  sign : x.negative = number.negative
  nearest : ∀ y : Binary64, y.IsFinite → |x.toRat - number.toRat| ≤ |y.toRat - number.toRat|
  even : ∀ y : Binary64, y.negative = number.negative → y ≠ x →
    |x.toRat - number.toRat| = |y.toRat - number.toRat| → x.bits.toNat % 2 = 0

theorem denominator_pos (number : Decimal) : 0 < number.denominator := Nat.pow_pos (by decide)

theorem toRat_eq (number : Decimal) : number.toRat =
    (if number.negative then -1 else 1) * (number.numerator / (number.denominator * scale)) := by
  have hscale := cast_scale_pos.ne'
  have hpow : (10 : ℚ) ^ number.exponent = 10 ^ number.exponent.toNat / 10 ^ (-number.exponent).toNat := by
    rw [eq_div_iff (pow_ne_zero _ (by norm_num)), ← zpow_natCast, ← zpow_natCast, ← zpow_add₀ (by norm_num)]
    congr 1
    omega
  rw [toRat, hpow, numerator, denominator]
  push_cast
  field_simp

/-- How far a magnitude is from the number's, in units. -/
def distance (number : Decimal) (magnitude : Nat) : Nat :=
  Nat.dist (units magnitude * number.denominator) number.numerator

theorem abs_units_sub (number : Decimal) (magnitude : Nat) :
    |(units magnitude / scale : ℚ) - number.numerator / (number.denominator * scale)| =
      number.distance magnitude / (number.denominator * scale) := by
  have hscale := cast_scale_pos
  have hpos : (0 : ℚ) < number.denominator := Nat.cast_pos.mpr number.denominator_pos
  have hsub : (units magnitude / scale : ℚ) - number.numerator / (number.denominator * scale) =
      ((units magnitude * number.denominator : Nat) - number.numerator) / (number.denominator * scale) := by
    push_cast
    field_simp
  rw [hsub, abs_div, abs_cast_sub, abs_of_pos (mul_pos hpos hscale), distance]

/-- The distance of a double of the number's sign. -/
theorem abs_sub_eq {number : Decimal} {x : Binary64} (hsign : x.negative = number.negative) :
    |x.toRat - number.toRat| = number.distance x.magnitude / (number.denominator * scale) := by
  rw [toRat_eq, Binary64.toRat, hsign, ← mul_sub, abs_mul, abs_sign, one_mul, abs_units_sub]

/-- One of the other sign is not nearer. -/
theorem le_abs_sub (number : Decimal) (x : Binary64) :
    number.distance x.magnitude / (number.denominator * scale) ≤ |x.toRat - number.toRat| := by
  have habs : |number.toRat| = number.numerator / (number.denominator * scale) := by
    rw [toRat_eq, abs_mul, abs_sign, one_mul, abs_of_nonneg]
    exact div_nonneg (Nat.cast_nonneg _) (mul_nonneg (Nat.cast_nonneg _) cast_scale_pos.le)
  rw [← abs_units_sub, ← abs_toRat, ← habs]
  exact abs_abs_sub_abs_le_abs_sub _ _

theorem distance_magnitude_le (number : Decimal) (magnitude : Nat) :
    number.distance number.magnitude ≤ number.distance magnitude := by
  rw [distance, distance, Decimal.magnitude]
  exact nearest_le _ number.denominator_pos _

theorem magnitude_even {number : Decimal} {magnitude : Nat} (hne : magnitude ≠ number.magnitude)
    (hdistance : number.distance number.magnitude = number.distance magnitude) : number.magnitude % 2 = 0 := by
  rw [distance, distance, Decimal.magnitude] at hdistance
  rw [Decimal.magnitude] at hne ⊢
  exact nearest_even number.denominator_pos hne hdistance

/-- **What fits is rounded.** -/
theorem toBinary64_roundsTo {number : Decimal} (h : number.Fits) : number.RoundsTo number.toBinary64 := by
  have hx : number.toBinary64 = ofMagnitude number.negative number.magnitude := by
    rw [toBinary64, Nat.min_eq_left h]
  have hmagnitude := magnitude_ofMagnitude number.negative h
  have hsign := negative_ofMagnitude number.negative h
  have hpos : (0 : ℚ) < number.denominator * scale := mul_pos (Nat.cast_pos.mpr number.denominator_pos) cast_scale_pos
  rw [hx]
  refine ⟨hmagnitude.le.trans h, hsign, ?_, ?_⟩
  · intro y _
    refine le_trans ?_ (le_abs_sub number y)
    rw [abs_sub_eq hsign, hmagnitude]
    exact div_le_div_of_nonneg_right (Nat.cast_le.mpr (number.distance_magnitude_le _)) hpos.le
  · intro y hnegative hne hdist
    rw [abs_sub_eq hsign, abs_sub_eq hnegative, hmagnitude, div_left_inj' hpos.ne', Nat.cast_inj] at hdist
    have hother : y.magnitude ≠ number.magnitude := by
      intro hsame
      exact hne (eq_of_parts (hnegative.trans hsign.symm) (hsame.trans hmagnitude.symm))
    exact even_ofMagnitude h (magnitude_even hother hdist)

end Decimal
end Lib
