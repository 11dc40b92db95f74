import LoxCalc.Number.Decimal
import LoxCalc.Proofs.Rounding
import Mathlib.Algebra.Order.Field.Power
import Mathlib.Algebra.Order.Field.Rat
import Mathlib.Tactic.FieldSimp
import Mathlib.Tactic.Positivity

/-!
# Decimals and the magnitudes they round to

`Decimal.value` is the number that a decimal denotes.  The decimal is rounded to
the nearest magnitude (`toBits_nearest`), which depends on this number alone and
grows with it (`toBits_mono`), and where the number is a magnitude itself, rounding
does not change it (`toBits_of_value`).  The bounds on the exponent that `toBits`
settles first do not show: they agree with rounding (`toBits_eq_nearest`).

The search for a short decimal keeps only what reads back, so that its result
reads back (`toBits_shortest`).
-/

namespace LoxCalc

open Binary64

/-- The number that a finite magnitude stands for. -/
def Binary64.value (bits : Nat) : ℚ :=
  units bits / unitsOfOne

namespace Decimal

/-- The number that a decimal denotes. -/
def value (d : Decimal) : ℚ :=
  d.digits * 10 ^ d.exponent

/-! ## Far exponents -/

/-- Every number from `2 ^ 1024` on is rounded to infinity. -/
theorem nearest_eq_infinityBits {a b : Nat} (hb : 0 < b) (h : 2 ^ 1024 * b ≤ a) :
    nearest a b = infinityBits := by
  have hinfinity : nearest (2 ^ 1024) 1 = infinityBits := by decide +kernel
  apply Nat.le_antisymm (nearest_le a b)
  rw [← hinfinity]
  exact nearest_mono Nat.one_pos hb (h.trans_eq (Nat.mul_one a).symm)

/-- Half a unit and all that is less is rounded to zero. -/
theorem nearest_eq_zero {a b : Nat} (hb : 0 < b) (h : a * 2 ^ 1075 ≤ b) : nearest a b = 0 := by
  have hzero : nearest 1 (2 ^ 1075) = 0 := by decide +kernel
  apply Nat.eq_zero_of_le_zero
  rw [← hzero]
  exact nearest_mono hb (pow_pos Nat.two_pos 1075) (h.trans_eq (Nat.one_mul b).symm)

/-- The powers of ten that `toBits` does not form. -/
theorem two_pow_le_ten_pow (k : Nat) {n : Nat} (h : 400 + k < n) :
    2 ^ (k + 1076) ≤ 10 ^ n :=
  calc 2 ^ (k + 1076) = 2 ^ k * 2 ^ 1076 := pow_add 2 k 1076
    _ ≤ 10 ^ k * 10 ^ 401 :=
      Nat.mul_le_mul (pow_le_pow_left₀ (by omega) (by omega) k) (by decide +kernel)
    _ = 10 ^ (k + 401) := (pow_add 10 k 401).symm
    _ ≤ 10 ^ n := pow_le_pow_right₀ (by omega) (by omega)

/-- **A decimal is rounded to the nearest magnitude**, however far its exponent. -/
theorem toBits_eq_nearest (d : Decimal) :
    d.toBits = nearest (d.digits * 10 ^ d.exponent.toNat) (10 ^ (-d.exponent).toNat) := by
  have hten : 0 < 10 ^ (-d.exponent).toNat := pow_pos (by omega) _
  unfold toBits
  split
  · next hzero =>
    rw [hzero, Nat.zero_mul]
    refine (nearest_eq_zero hten ?_).symm
    rw [Nat.zero_mul]
    exact Nat.zero_le _
  · next hzero =>
    split
    · next hgreat =>
      refine (nearest_eq_infinityBits hten ?_).symm
      have hpow : (-d.exponent).toNat = 0 := by omega
      rw [hpow, pow_zero, Nat.mul_one]
      calc 2 ^ 1024 ≤ 2 ^ (0 + 1076) := pow_le_pow_right₀ (by omega) (by omega)
        _ ≤ 10 ^ d.exponent.toNat := two_pow_le_ten_pow 0 (by omega)
        _ ≤ d.digits * 10 ^ d.exponent.toNat := Nat.le_mul_of_pos_left _ (by omega)
    · next hgreat =>
      split
      · next hsmall =>
        refine (nearest_eq_zero hten ?_).symm
        have hpow : d.exponent.toNat = 0 := by omega
        rw [hpow, pow_zero, Nat.mul_one]
        calc d.digits * 2 ^ 1075 ≤ 2 ^ (d.digits.log2 + 1) * 2 ^ 1075 :=
              Nat.mul_le_mul_right _ (Nat.le_of_lt Nat.lt_log2_self)
          _ = 2 ^ (d.digits.log2 + 1076) := (pow_add 2 (d.digits.log2 + 1) 1075).symm
          _ ≤ 10 ^ (-d.exponent).toNat := two_pow_le_ten_pow _ (by omega)
      · rfl

/-! ## Values -/

theorem value_eq_div (d : Decimal) :
    d.value = (d.digits * 10 ^ d.exponent.toNat : Nat) / (10 ^ (-d.exponent).toNat : Nat) := by
  have hsplit : d.exponent = (d.exponent.toNat : Int) - ((-d.exponent).toNat : Int) := by omega
  push_cast
  rw [value, mul_div_assoc, ← zpow_natCast, ← zpow_natCast, ← zpow_sub₀ (by norm_num), ← hsplit]

/-- **A greater number is rounded to a greater magnitude.** -/
theorem toBits_mono {d d' : Decimal} (h : d.value ≤ d'.value) : d.toBits ≤ d'.toBits := by
  rw [toBits_eq_nearest, toBits_eq_nearest]
  have hten : ∀ n : Nat, 0 < 10 ^ n := fun n => Nat.pow_pos (by omega)
  apply nearest_mono (hten _) (hten _)
  rw [value_eq_div, value_eq_div,
    div_le_div_iff₀ (Nat.cast_pos.mpr (hten _)) (Nat.cast_pos.mpr (hten _))] at h
  exact_mod_cast h

/-- Decimals that denote one number are rounded alike. -/
theorem toBits_congr {d d' : Decimal} (h : d.value = d'.value) : d.toBits = d'.toBits :=
  Nat.le_antisymm (toBits_mono h.le) (toBits_mono h.ge)

/-- **A number that is a magnitude is rounded to itself.** -/
theorem toBits_of_value {d : Decimal} {bits : Nat} (hfinite : bits ≤ infinityBits)
    (h : d.value = Binary64.value bits) : d.toBits = bits := by
  have hten : 0 < 10 ^ (-d.exponent).toNat := pow_pos (by omega) _
  rw [toBits_eq_nearest]
  apply nearest_units hten hfinite
  rw [value_eq_div, Binary64.value, div_eq_div_iff (Nat.cast_ne_zero.mpr hten.ne')
    (Nat.cast_ne_zero.mpr unitsOfOne_pos.ne')] at h
  exact_mod_cast h

/-- The distance between a decimal and a magnitude, over a common denominator. -/
theorem abs_value_sub (d : Decimal) (bits : Nat) :
    |d.value - Binary64.value bits|
      = (|((d.digits * 10 ^ d.exponent.toNat * unitsOfOne : Nat) : Int)
          - units bits * (10 ^ (-d.exponent).toNat : Nat)| : Int)
        / ((10 ^ (-d.exponent).toNat : Nat) * unitsOfOne : ℚ) := by
  have hten : 0 < ((10 ^ (-d.exponent).toNat : Nat) : ℚ) :=
    Nat.cast_pos.mpr (pow_pos (by omega) _)
  have hunit : 0 < (unitsOfOne : ℚ) := Nat.cast_pos.mpr unitsOfOne_pos
  rw [value_eq_div, Binary64.value, Int.cast_abs, ← abs_of_pos (mul_pos hten hunit), ← abs_div]
  congr 1
  rw [div_sub_div _ _ hten.ne' hunit.ne']
  push_cast
  ring

/-- **Decimals are correctly rounded**: no magnitude is nearer to the number that a
decimal denotes than its own, if this is finite. -/
theorem toBits_nearest {d : Decimal} (hfinite : d.toBits < infinityBits) (bits : Nat) :
    |d.value - Binary64.value d.toBits| ≤ |d.value - Binary64.value bits| := by
  have hten : 0 < 10 ^ (-d.exponent).toNat := pow_pos (by omega) _
  have hrounded : d.toBits = rounded (d.digits * 10 ^ d.exponent.toNat * unitsOfOne)
      (10 ^ (-d.exponent).toNat) := by
    rw [toBits_eq_nearest, nearest_eq] at hfinite ⊢
    omega
  rw [abs_value_sub, abs_value_sub, hrounded]
  apply div_le_div_of_nonneg_right _ (by positivity)
  exact Int.cast_le.mpr (rounded_nearest _ hten bits)

/-! ## The search -/

/-- Halves are written with fives. -/
theorem value_fives (u n : Nat) :
    (Decimal.mk (u * Nat.pow 5 n) (-n)).value = u / (Nat.pow 2 n : Nat) := by
  have hten : (10 : ℚ) ^ n = 5 ^ n * 2 ^ n := by rw [← mul_pow]; norm_num
  rw [value, zpow_neg, zpow_natCast, hten, Nat.pow_eq, Nat.pow_eq]
  push_cast
  field_simp

theorem exact_eq (bits : Nat) :
    exact bits = ⟨units bits * Nat.pow 5 unitExponent, -(unitExponent : Int)⟩ := by
  have hcast : (unitExponent : Int) = 1074 := by
    rw [unitExponent_eq]
    rfl
  rw [exact, hcast, ← unitExponent_eq]

/-- The exact expansion denotes the magnitude. -/
theorem value_exact (bits : Nat) : (exact bits).value = Binary64.value bits := by
  rw [exact_eq, value_fives]
  rfl

/-- What is found on a grid is rounded to the magnitude. -/
theorem toBits_of_onGrid? {bits : Nat} {k : Int} {d : Decimal} (h : onGrid? bits k = some d) :
    d.toBits = bits := by
  unfold onGrid? at h
  have hfound := List.find?_some h
  simp only [beq_iff_eq] at hfound
  exact hfound

/-- **The decimal that the search finds is rounded to the magnitude it was found
for.** -/
theorem toBits_shortest {bits : Nat} (hfinite : bits ≤ infinityBits) :
    (shortest bits).toBits = bits := by
  unfold shortest
  cases hfound : (List.range 17).findSome? fun n : Nat =>
      onGrid? bits (leadingExponent bits - n) with
  | none =>
      rw [Option.getD_none]
      exact toBits_of_value hfinite (value_exact bits)
  | some d =>
      obtain ⟨n, -, hgrid⟩ := List.exists_of_findSome?_eq_some hfound
      exact toBits_of_onGrid? hgrid

end Decimal

end LoxCalc
