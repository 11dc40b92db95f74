import LoxCalc.Number.Binary64
import Mathlib.Data.Nat.Log
import Mathlib.Tactic.Linarith
import Mathlib.Tactic.Ring

/-!
# Rounding to magnitudes

No magnitude is nearer to a quotient than the one that it is rounded to
(`rounded_nearest`).  This magnitude grows with the quotient and depends on nothing
else (`nearest_mono`), and a magnitude is rounded to itself (`nearest_units`).

Rounding first finds the scale of the quotient, the power of two that is one step
from a magnitude to the next around it (`scaleOf_spec`).  Inside one scale it is
rounding to whole numbers, and where one scale ends, the patterns of the next one
go on without a gap.
-/

namespace LoxCalc.Binary64

/-! ## Whole numbers -/

/-- What rounding to a whole number does: the result is at most half a step away,
and even if it is exactly that. -/
theorem roundQuotient_spec (a : Nat) {b : Nat} (hb : 0 < b) :
    2 * (b * roundQuotient a b) ≤ 2 * a + b ∧ 2 * a ≤ 2 * (b * roundQuotient a b) + b ∧
      (2 * (b * roundQuotient a b) = 2 * a + b ∨ 2 * a = 2 * (b * roundQuotient a b) + b →
        roundQuotient a b % 2 = 0) := by
  have hsplit := Nat.div_add_mod a b
  have hrest := Nat.mod_lt a hb
  unfold roundQuotient
  split
  · next hbelow => omega
  · next hbelow =>
    split
    · next habove =>
      rw [Nat.mul_succ]
      omega
    · next habove =>
      rcases Nat.mod_two_eq_zero_or_one (a / b) with hparity | hparity
      · rw [hparity, Nat.add_zero]
        omega
      · rw [hparity, Nat.mul_succ]
        omega

/-- **Rounding to whole numbers is monotone.** -/
theorem roundQuotient_mono {a b c d : Nat} (hb : 0 < b) (hd : 0 < d) (h : a * d ≤ c * b) :
    roundQuotient a b ≤ roundQuotient c d := by
  obtain ⟨hlow, -, heven⟩ := roundQuotient_spec a hb
  obtain ⟨-, hhigh, heven'⟩ := roundQuotient_spec c hd
  generalize roundQuotient a b = q at *
  generalize roundQuotient c d = q' at *
  by_contra hlt
  -- both numbers would lie half a step from their results, which are neighbours and even
  have hstep : b * d * (q' + 1) ≤ b * d * q := Nat.mul_le_mul_left _ (by omega)
  have hlow' := Nat.mul_le_mul_left d hlow
  have hhigh' := Nat.mul_le_mul_left b hhigh
  have hhalf : d * (2 * (b * q)) = d * (2 * a + b) := by linarith
  have hhalf' : b * (2 * c) = b * (2 * (d * q') + d) := by linarith
  have hparity := heven (.inl (Nat.eq_of_mul_eq_mul_left hd hhalf))
  have hparity' := heven' (.inr (Nat.eq_of_mul_eq_mul_left hb hhalf'))
  have hneighbour : b * d * q ≤ b * d * (q' + 1) := by linarith
  have hle := Nat.le_of_mul_le_mul_left hneighbour (Nat.mul_pos hb hd)
  omega

/-- **No whole number is nearer.** -/
theorem roundQuotient_nearest (a : Nat) {b : Nat} (hb : 0 < b) (k : Nat) :
    |(a : Int) - roundQuotient a b * b| ≤ |(a : Int) - k * b| := by
  obtain ⟨hlow, hhigh, -⟩ := roundQuotient_spec a hb
  generalize roundQuotient a b = q at hlow hhigh ⊢
  have hclose : 2 * |(a : Int) - q * b| ≤ b := by
    have hlow' : 2 * ((b : Int) * q) ≤ 2 * a + b := by exact_mod_cast hlow
    have hhigh' : 2 * (a : Int) ≤ 2 * (b * q) + b := by exact_mod_cast hhigh
    rcases abs_cases ((a : Int) - q * b) with ⟨hside, -⟩ | ⟨hside, -⟩ <;> linarith
  rcases Nat.lt_trichotomy k q with hlt | rfl | hlt
  · have hstep : (k + 1 : Int) * b ≤ q * b := by exact_mod_cast Nat.mul_le_mul_right b hlt
    have hfar : (a : Int) - k * b ≤ |(a : Int) - k * b| := le_abs_self _
    have hside : -((a : Int) - q * b) ≤ |(a : Int) - q * b| := neg_le_abs _
    linarith
  · exact le_refl _
  · have hstep : (q + 1 : Int) * b ≤ k * b := by exact_mod_cast Nat.mul_le_mul_right b hlt
    have hfar : -((a : Int) - k * b) ≤ |(a : Int) - k * b| := neg_le_abs _
    have hside : (a : Int) - q * b ≤ |(a : Int) - q * b| := le_abs_self _
    linarith

/-- A whole number is rounded to itself. -/
theorem roundQuotient_mul {b : Nat} (hb : 0 < b) (k : Nat) : roundQuotient (k * b) b = k := by
  have hrest : k * b % b = 0 := Nat.mul_mod_left k b
  rw [roundQuotient, hrest, if_pos (by omega), Nat.mul_div_cancel k hb]

theorem roundQuotient_le {a b k : Nat} (hb : 0 < b) (h : a ≤ k * b) : roundQuotient a b ≤ k := by
  have hmono := roundQuotient_mono hb hb (Nat.mul_le_mul_right b h)
  rwa [roundQuotient_mul hb] at hmono

theorem le_roundQuotient {a b k : Nat} (hb : 0 < b) (h : k * b ≤ a) : k ≤ roundQuotient a b := by
  have hmono := roundQuotient_mono hb hb (Nat.mul_le_mul_right b h)
  rwa [roundQuotient_mul hb] at hmono

/-! ## Scales -/

/-- The scale of the quotient `a / b`, which counts units. -/
def scaleOf (a b : Nat) : Nat :=
  Nat.log2 (a / b) - 52

/-- The magnitude nearest to `a / b` units, if magnitudes went on for ever. -/
def rounded (a b : Nat) : Nat :=
  scaleOf a b * 2 ^ 52 + roundQuotient a (b * 2 ^ scaleOf a b)

/-- The exponent of a unit.  It is hidden, so that no proof computes a power with it. -/
@[irreducible] def unitExponent : Nat :=
  1074

/-- The units that make up one. -/
def unitsOfOne : Nat :=
  Nat.pow 2 unitExponent

theorem unitExponent_eq : unitExponent = 1074 := by
  unfold unitExponent
  rfl

theorem unitsOfOne_pos : 0 < unitsOfOne :=
  Nat.two_pow_pos unitExponent

theorem nearest_eq (a b : Nat) :
    nearest a b = min (rounded (a * unitsOfOne) b) infinityBits := by
  rw [nearest, ← unitExponent_eq]
  rfl

theorem nearest_le (a b : Nat) : nearest a b ≤ infinityBits := by
  rw [nearest_eq]
  exact Nat.min_le_right _ _

/-- A quotient fills the 53 bits above its scale, except that below the first scale
there is nothing to fill. -/
theorem scaleOf_spec (a : Nat) {b : Nat} (hb : 0 < b) :
    (scaleOf a b = 0 ∨ 2 ^ 52 * (b * 2 ^ scaleOf a b) ≤ a) ∧
      a < 2 ^ 53 * (b * 2 ^ scaleOf a b) := by
  have hlog : (a / b).log2 ≤ scaleOf a b + 52 := by
    unfold scaleOf
    omega
  constructor
  · by_cases hzero : scaleOf a b = 0
    · exact .inl hzero
    · right
      have hfull : scaleOf a b + 52 = (a / b).log2 := by
        unfold scaleOf at hzero ⊢
        omega
      have hne : a / b ≠ 0 := by
        intro h
        rw [h] at hfull
        simp at hfull
      have hle : 2 ^ (scaleOf a b + 52) ≤ a / b := by
        rw [hfull]
        exact Nat.log2_self_le hne
      calc 2 ^ 52 * (b * 2 ^ scaleOf a b) = 2 ^ (scaleOf a b + 52) * b := by rw [pow_add]; ring
        _ ≤ a := (Nat.le_div_iff_mul_le hb).mp hle
  · have hlt : a / b < 2 ^ (scaleOf a b + 53) :=
      calc a / b < 2 ^ ((a / b).log2 + 1) := Nat.lt_log2_self
        _ ≤ 2 ^ (scaleOf a b + 53) := Nat.pow_le_pow_right (by omega) (by omega)
    calc a < 2 ^ (scaleOf a b + 53) * b := (Nat.div_lt_iff_lt_mul hb).mp hlt
      _ = 2 ^ 53 * (b * 2 ^ scaleOf a b) := by rw [pow_add]; ring

/-- A greater quotient has no smaller scale. -/
theorem scaleOf_mono {a b c d : Nat} (hb : 0 < b) (hd : 0 < d) (h : a * d ≤ c * b) :
    scaleOf a b ≤ scaleOf c d := by
  have hquotient : a / b ≤ c / d := by
    rw [Nat.le_div_iff_mul_le hd]
    apply Nat.le_of_mul_le_mul_right _ hb
    calc a / b * d * b = a / b * b * d := by ring
      _ ≤ a * d := Nat.mul_le_mul_right d (Nat.div_mul_le_self a b)
      _ ≤ c * b := h
  unfold scaleOf
  rw [Nat.log2_eq_log_two, Nat.log2_eq_log_two]
  exact Nat.sub_le_sub_right (Nat.log_mono_right hquotient) 52

/-- **Rounding is monotone.** -/
theorem rounded_mono {a b c d : Nat} (hb : 0 < b) (hd : 0 < d) (h : a * d ≤ c * b) :
    rounded a b ≤ rounded c d := by
  obtain ⟨hlow, hhigh⟩ := scaleOf_spec a hb
  obtain ⟨hlow', hhigh'⟩ := scaleOf_spec c hd
  have hpos : 0 < b * 2 ^ scaleOf a b := Nat.mul_pos hb (Nat.two_pow_pos _)
  have hpos' : 0 < d * 2 ^ scaleOf c d := Nat.mul_pos hd (Nat.two_pow_pos _)
  unfold rounded
  rcases Nat.lt_or_ge (scaleOf a b) (scaleOf c d) with hlt | hge
  · -- what is rounded in a lower scale stays below all that is rounded in a higher one
    have hupper := roundQuotient_le hpos (Nat.le_of_lt hhigh)
    have hlower := le_roundQuotient hpos' (hlow'.resolve_left (by omega))
    have hstep : (scaleOf a b + 1) * 2 ^ 52 ≤ scaleOf c d * 2 ^ 52 :=
      Nat.mul_le_mul_right _ hlt
    omega
  · have heq : scaleOf a b = scaleOf c d := Nat.le_antisymm (scaleOf_mono hb hd h) hge
    rw [heq] at hpos ⊢
    have hscaled : a * (d * 2 ^ scaleOf c d) ≤ c * (b * 2 ^ scaleOf c d) := by
      rw [← Nat.mul_assoc, ← Nat.mul_assoc]
      exact Nat.mul_le_mul_right _ h
    exact Nat.add_le_add_left (roundQuotient_mono hpos hpos' hscaled) _

/-- **The nearest magnitude grows with the quotient.** -/
theorem nearest_mono {a b c d : Nat} (hb : 0 < b) (hd : 0 < d) (h : a * d ≤ c * b) :
    nearest a b ≤ nearest c d := by
  have hunits : a * unitsOfOne * d ≤ c * unitsOfOne * b := by
    have := Nat.mul_le_mul_right unitsOfOne h
    linarith
  rw [nearest_eq, nearest_eq]
  exact min_le_min_right _ (rounded_mono hb hd hunits)

/-! ## Magnitudes -/

/-- A magnitude is its significand above its scale. -/
theorem significand_spec (bits : Nat) :
    scale bits * 2 ^ 52 + significand bits = bits ∧ significand bits < 2 ^ 53 ∧
      (scale bits = 0 ∨ 2 ^ 52 ≤ significand bits) := by
  unfold scale significand
  simp only [Nat.pow_eq, Nat.reducePow]
  split <;> omega

/-- The units of a magnitude are a multiple of its step. -/
theorem pow_dvd_units {n bits : Nat} (h : n ≤ scale bits) : Nat.pow 2 n ∣ units bits := by
  rw [units, Nat.pow_eq, Nat.pow_eq]
  exact Nat.dvd_mul_left_of_dvd (Nat.pow_dvd_pow 2 h) (significand bits)

/-- The magnitudes of a scale do not go beyond the first one of any higher scale. -/
theorem units_le {bits s : Nat} (h : scale bits < s) : units bits ≤ 2 ^ 52 * 2 ^ s :=
  calc units bits ≤ 2 ^ 53 * 2 ^ scale bits :=
        Nat.mul_le_mul_right _ (significand_spec bits).2.1.le
    _ = 2 ^ 52 * 2 ^ (scale bits + 1) := by ring
    _ ≤ 2 ^ 52 * 2 ^ s := Nat.mul_le_mul_left _ (Nat.pow_le_pow_right (by omega) h)

/-- The scale of a magnitude is the scale of its units. -/
theorem scaleOf_units (bits : Nat) {b : Nat} (hb : 0 < b) :
    scaleOf (units bits * b) b = scale bits := by
  obtain ⟨-, hhigh, hlow⟩ := significand_spec bits
  rw [scaleOf, Nat.mul_div_cancel _ hb, units, Nat.pow_eq]
  rcases hlow with hzero | hlow
  · rw [hzero, Nat.pow_zero, Nat.mul_one]
    by_cases hne : significand bits = 0
    · rw [hne, Nat.log2_zero]
    · have := (Nat.log2_lt hne).mpr hhigh
      omega
  · have hlog : (significand bits * 2 ^ scale bits).log2 = 52 + scale bits := by
      have hpos := Nat.two_pow_pos (scale bits)
      rw [Nat.log2_eq_iff (Nat.mul_ne_zero (by omega) hpos.ne'), Nat.add_right_comm,
        Nat.pow_add, Nat.pow_add]
      exact ⟨Nat.mul_le_mul_right _ hlow, Nat.mul_lt_mul_of_pos_right hhigh hpos⟩
    rw [hlog]
    exact Nat.add_sub_cancel_left 52 (scale bits)

/-- The units of the pattern that a scale and a significand make up.  A significand that
is one too great is carried into the scale. -/
theorem units_pattern {s q : Nat} (hhigh : q ≤ 2 ^ 53) (hlow : s = 0 ∨ 2 ^ 52 ≤ q) :
    units (s * 2 ^ 52 + q) = q * 2 ^ s := by
  rcases Nat.lt_or_eq_of_le hhigh with hlt | rfl
  · have hscale : scale (s * 2 ^ 52 + q) = s := by
      unfold scale
      simp only [Nat.pow_eq, Nat.reducePow] at hlt hlow ⊢
      omega
    have hsignificand := (significand_spec (s * 2 ^ 52 + q)).1
    rw [hscale] at hsignificand
    rw [units, hscale, Nat.add_left_cancel hsignificand, Nat.pow_eq]
  · have hscale : scale (s * 2 ^ 52 + 2 ^ 53) = s + 1 := by
      unfold scale
      simp only [Nat.pow_eq, Nat.reducePow]
      omega
    have hsignificand := (significand_spec (s * 2 ^ 52 + 2 ^ 53)).1
    rw [hscale] at hsignificand
    have hhalf : significand (s * 2 ^ 52 + 2 ^ 53) = 2 ^ 52 := by omega
    rw [units, hscale, hhalf, Nat.pow_eq]
    ring

/-- **No magnitude is nearer** to a quotient than the one that it is rounded to. -/
theorem rounded_nearest (a : Nat) {b : Nat} (hb : 0 < b) (bits : Nat) :
    |(a : Int) - units (rounded a b) * b| ≤ |(a : Int) - units bits * b| := by
  obtain ⟨hlow, hhigh⟩ := scaleOf_spec a hb
  have hpos : 0 < b * 2 ^ scaleOf a b := Nat.mul_pos hb (Nat.two_pow_pos _)
  have hnearest := roundQuotient_nearest a hpos
  have hrounded : units (rounded a b)
      = roundQuotient a (b * 2 ^ scaleOf a b) * 2 ^ scaleOf a b := by
    refine units_pattern (roundQuotient_le hpos hhigh.le) ?_
    rcases hlow with hzero | hlow
    · exact .inl hzero
    · exact .inr (le_roundQuotient hpos hlow)
  have hstep : ∀ k : Nat, ((k * 2 ^ scaleOf a b : Nat) : Int) * b
      = k * ((b * 2 ^ scaleOf a b : Nat) : Int) := by
    intro k
    push_cast
    ring
  rw [hrounded, hstep]
  rcases Nat.lt_or_ge (scale bits) (scaleOf a b) with hlt | hge
  · -- the magnitude lies in a lower scale, and the first one of this scale lies between
    have hbelow : units bits * b ≤ 2 ^ 52 * (b * 2 ^ scaleOf a b) := by
      calc units bits * b ≤ 2 ^ 52 * 2 ^ scaleOf a b * b := Nat.mul_le_mul_right b (units_le hlt)
        _ = 2 ^ 52 * (b * 2 ^ scaleOf a b) := by ring
    have hfirst := hlow.resolve_left (by omega)
    calc |(a : Int) - roundQuotient a (b * 2 ^ scaleOf a b) * (b * 2 ^ scaleOf a b : Nat)|
        ≤ |(a : Int) - (2 ^ 52 : Nat) * (b * 2 ^ scaleOf a b : Nat)| := hnearest (2 ^ 52)
      _ = (a : Int) - (2 ^ 52 * (b * 2 ^ scaleOf a b) : Nat) := by
        rw [Nat.cast_mul (2 ^ 52)]
        exact abs_of_nonneg (sub_nonneg.mpr (by exact_mod_cast hfirst))
      _ ≤ (a : Int) - (units bits * b : Nat) := sub_le_sub_left (by exact_mod_cast hbelow) _
      _ ≤ |(a : Int) - units bits * b| := by
        rw [Nat.cast_mul]
        exact le_abs_self _
  · -- the magnitude is a multiple of the step
    obtain ⟨k, hk⟩ := pow_dvd_units hge
    have hmultiple : units bits = k * 2 ^ scaleOf a b := by
      rw [hk, Nat.mul_comm, Nat.pow_eq]
    rw [hmultiple, hstep]
    exact hnearest k

/-- **A finite magnitude is the nearest one to itself.** -/
theorem nearest_units {bits a b : Nat} (hb : 0 < b) (hfinite : bits ≤ infinityBits)
    (h : a * unitsOfOne = units bits * b) : nearest a b = bits := by
  have hstep : 0 < b * 2 ^ scale bits := Nat.mul_pos hb (Nat.two_pow_pos _)
  have hunits : units bits * b = significand bits * (b * 2 ^ scale bits) := by
    rw [units, Nat.pow_eq]
    ring
  rw [nearest_eq, h, rounded, scaleOf_units bits hb, hunits, roundQuotient_mul hstep,
    (significand_spec bits).1]
  exact Nat.min_eq_left hfinite

end LoxCalc.Binary64
