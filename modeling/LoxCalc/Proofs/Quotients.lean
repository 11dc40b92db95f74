import LoxCalc.Expr.Eval
import LoxCalc.Proofs.BitPatterns

/-!
# Quotients of doubles

The quotient of two numbers is a NaN, whatever their signs, or its magnitude
depends on their magnitudes alone and its sign is the combined one.

* `div_withSign`: on unpacked numbers the sign goes its own way through the whole
  division, rounding included;
* `pack_withSign`: packing keeps it apart from the magnitude as well;
* `div_ofMagnitude` says both of doubles.

A zero divisor is treated apart by `divide`, and yet `divide_eq_div`: there is one
rule for all divisors.  `divide_total` reads off what follows for the language.
-/

namespace LoxCalc

namespace Binary64

open Float.Model

open UnpackedFloat (Sign roundWithAccuracy packComponents)

/-- The same number with another sign; what is not a number has none. -/
def withSign (s : Sign) : UnpackedFloat → UnpackedFloat
  | .notANumber => .notANumber
  | .infinity _ => .infinity s
  | .zero _ => .zero s
  | .finite _ m e hpos => .finite s m e hpos

/-! ## Signs of unpacked numbers -/

/-- Rounding does not look at the sign. -/
theorem roundWithAccuracy_withSign (spec : Format) (s t : Sign) (m : Nat) (e : Int)
    (accuracy : UnpackedFloat.Accuracy) :
    roundWithAccuracy spec s m e accuracy
      = withSign s (roundWithAccuracy spec t m e accuracy) := by
  unfold roundWithAccuracy
  simp only
  split <;> rfl

/-- **Dividing keeps signs apart from magnitudes.** -/
theorem div_withSign (spec : Format) (s t : Sign) (u v : UnpackedFloat) :
    UnpackedFloat.div spec (withSign s u) (withSign t v)
      = withSign (s / t) (UnpackedFloat.div spec u v) := by
  cases u with
  | notANumber => rfl
  | infinity => cases v <;> rfl
  | zero => cases v <;> rfl
  | finite su m e hpos =>
      cases v with
      | notANumber => rfl
      | infinity => rfl
      | zero => rfl
      | finite sv m' e' hpos' => exact roundWithAccuracy_withSign spec (s / t) (su / sv) _ _ _

/-- Numbers of one magnitude differ in their signs alone. -/
theorem Encodes.eq_withSign {u v : UnpackedFloat} {s t : Sign} {bits bits' : Nat}
    (hu : Encodes u s bits) (hv : Encodes v t bits') (hbits : bits = bits') :
    u = withSign s v := by
  have hpositive : 0 < infinityBits := by decide
  cases hu with
  | infinity =>
      cases hv with
      | infinity => rfl
      | zero => omega
      | finite => omega
  | zero =>
      cases hv with
      | infinity => omega
      | zero => rfl
      | finite => omega
  | @finite _ m k e hpos he hm hk hlt =>
      cases hv with
      | infinity => omega
      | zero => omega
      | @finite _ m' k' e' hpos' he' hm' hk' hlt' =>
          -- the leading bit of a significand tells where it ends
          simp only [Nat.pow_eq, Nat.reducePow] at hbits hm hm' hk hk'
          have hmantissa : m = m' := by omega
          have hexponent : e = e' := by omega
          subst hmantissa hexponent
          rfl

/-- The double of a sign and a magnitude is unpacked into them. -/
theorem encodes_ofMagnitude (negative : Bool) {bits : Nat} (h : bits ≤ infinityBits) :
    Encodes (ofMagnitude negative bits).toModel.unpack (signOf negative) bits := by
  obtain ⟨hsign, hmagnitude⟩ := fields_ofMagnitude negative h
  have hencodes := encodes_toModel (Nat.le_trans (Nat.le_of_eq hmagnitude) h)
  rwa [hsign, hmagnitude] at hencodes

/-- The sign of a double does not matter for what its magnitude is unpacked into. -/
theorem unpack_ofMagnitude (negative : Bool) {bits : Nat} (h : bits ≤ infinityBits) :
    (ofMagnitude negative bits).toModel.unpack
      = withSign (signOf negative) (ofMagnitude false bits).toModel.unpack :=
  (encodes_ofMagnitude negative h).eq_withSign (encodes_ofMagnitude false h) rfl

/-- **Packing keeps signs apart from magnitudes**, also where it rounds to infinity. -/
theorem pack_withSign {u : UnpackedFloat} (h : u ≠ .notANumber) :
    ∃ bits, bits ≤ infinityBits ∧ ∀ s, (UnpackedFloat.pack Format.binary64 (withSign s u)).toNat
      = s.toBitVec.toNat * Nat.pow 2 63 + bits := by
  cases u with
  | notANumber => exact absurd rfl h
  | infinity => exact ⟨infinityBits, Nat.le_refl _, fun s => (Encodes.infinity s).toNat_pack⟩
  | zero => exact ⟨0, Nat.zero_le _, fun s => (Encodes.zero s).toNat_pack⟩
  | finite t m e hpos =>
      -- neither the exponent of infinity nor a bit above the significand is packed
      have hm : (BitVec.ofNat 52 m).toNat < 4503599627370496 := (BitVec.ofNat 52 m).isLt
      simp only [withSign, UnpackedFloat.pack]
      split
      · exact ⟨infinityBits, Nat.le_refl _, fun s => (Encodes.infinity s).toNat_pack⟩
      · next hexponent =>
        simp only [Nat.reducePow] at hexponent
        split
        · refine ⟨_, ?_, fun s => toNat_packComponents s _ _⟩
          have he := Nat.mod_le (e + (Format.binary64.exponentBias : Int) + (52 : Nat)).toNat
            (Nat.pow 2 11)
          simp only [BitVec.toNat_ofNat, infinityBits, Nat.pow_eq, Nat.reducePow] at hm he ⊢
          omega
        · refine ⟨_, ?_, fun s => toNat_packComponents s _ _⟩
          simp only [BitVec.toNat_ofNat, infinityBits, Nat.pow_eq, Nat.reducePow] at hm ⊢
          omega

/-- What is packed under a sign is the double of that sign. -/
theorem ofModel_pack_withSign {u : UnpackedFloat} (h : u ≠ .notANumber) :
    ∃ bits, bits ≤ infinityBits ∧ ∀ negative,
      Float.ofModel (.pack (withSign (signOf negative) u)) = ofMagnitude negative bits := by
  obtain ⟨bits, hbits, hpack⟩ := pack_withSign h
  refine ⟨bits, hbits, fun negative => ?_⟩
  have hnat : (Float.ofModel (.pack (withSign (signOf negative) u))).toBits.toNat
      = (if negative then Nat.pow 2 63 else 0) + bits := by
    refine (hpack (signOf negative)).trans ?_
    cases negative <;> rfl
  rw [ofMagnitude, ← hnat, UInt64.ofNat_toNat, Float.ofBits_toBits]

/-! ## Quotients -/

/-- The one double that is not a number. -/
def notNumber : Float :=
  ofMagnitude false nanBits

theorem ofModel_pack_notANumber : Float.ofModel (.pack .notANumber) = notNumber := by
  decide +kernel

theorem unpack_notNumber : notNumber.toModel.unpack = .notANumber :=
  unpack_of_lt (by decide +kernel)

/-- The sign of a quotient of signs. -/
theorem signOf_div (a b : Bool) : signOf a / signOf b = signOf (a != b) := by
  cases a <;> cases b <;> rfl

/-- Rounding gives a number. -/
theorem roundWithAccuracy_ne (spec : Format) (s : Sign) (m : Nat) (e : Int)
    (accuracy : UnpackedFloat.Accuracy) : roundWithAccuracy spec s m e accuracy ≠ .notANumber := by
  unfold roundWithAccuracy
  simp only
  split <;> exact UnpackedFloat.noConfusion

section Special

variable {u v : UnpackedFloat} {s t : Sign} {bits : Nat}

/-- Zeros are the numbers of magnitude zero. -/
theorem Encodes.eq_zero_iff (h : Encodes u s bits) : u = .zero s ↔ bits = 0 := by
  have hpositive : infinityBits ≠ 0 := by decide
  cases h with
  | infinity => simp [hpositive]
  | zero => simp
  | finite _ hpos => simp [Nat.ne_of_gt hpos]

/-- Infinities are the numbers of the greatest magnitude. -/
theorem Encodes.eq_infinity_iff (h : Encodes u s bits) : u = .infinity s ↔ bits = infinityBits := by
  have hpositive : 0 ≠ infinityBits := by decide
  cases h with
  | infinity => simp
  | zero => simp [hpositive]
  | finite _ _ _ _ _ hlt => simp [Nat.ne_of_lt hlt]

/-- Two numbers have no quotient exactly if both are zero or both are infinite. -/
theorem Encodes.div_eq_notANumber_iff {bits' : Nat} (hu : Encodes u s bits)
    (hv : Encodes v t bits') :
    UnpackedFloat.div Format.binary64 u v = .notANumber ↔
      bits = 0 ∧ bits' = 0 ∨ bits = infinityBits ∧ bits' = infinityBits := by
  rw [← hu.eq_zero_iff, ← hv.eq_zero_iff, ← hu.eq_infinity_iff, ← hv.eq_infinity_iff]
  cases hu <;> cases hv <;> simp [UnpackedFloat.div, roundWithAccuracy_ne]

/-- A zero divides every other number into infinity. -/
theorem Encodes.div_zero (h : Encodes u s bits) (hbits : bits ≠ 0) :
    UnpackedFloat.div Format.binary64 u (.zero t) = .infinity (s / t) := by
  cases h with
  | infinity => rfl
  | zero => exact absurd rfl hbits
  | finite => rfl

end Special

/-- The quotient of doubles is that of the numbers they are unpacked into. -/
theorem div_eq_pack (x y : Float) :
    x / y = .ofModel (.pack (UnpackedFloat.div Format.binary64 x.toModel.unpack
      y.toModel.unpack)) :=
  rfl

/-- **The quotient of two numbers** that are not both zero or both infinite: its
magnitude is that of their magnitudes, and its sign is the combined one. -/
theorem div_ofMagnitude {a b : Nat} (ha : a ≤ infinityBits) (hb : b ≤ infinityBits)
    (h : ¬(a = 0 ∧ b = 0 ∨ a = infinityBits ∧ b = infinityBits)) :
    ∃ bits, bits ≤ infinityBits ∧ ∀ s t,
      ofMagnitude s a / ofMagnitude t b = ofMagnitude (s != t) bits := by
  have hnumber : UnpackedFloat.div Format.binary64 (ofMagnitude false a).toModel.unpack
      (ofMagnitude false b).toModel.unpack ≠ .notANumber :=
    fun hnone => h (((encodes_ofMagnitude false ha).div_eq_notANumber_iff
      (encodes_ofMagnitude false hb)).mp hnone)
  obtain ⟨bits, hbits, hpack⟩ := ofModel_pack_withSign hnumber
  refine ⟨bits, hbits, fun s t => ?_⟩
  rw [div_eq_pack, unpack_ofMagnitude s ha, unpack_ofMagnitude t hb, div_withSign, signOf_div,
    hpack]

/-- Over a zero of either sign every other number is infinite. -/
theorem div_ofMagnitude_zero {a : Nat} (ha : a ≤ infinityBits) (hpos : a ≠ 0) (s t : Bool) :
    ofMagnitude s a / ofMagnitude t 0 = ofMagnitude (s != t) infinityBits := by
  have hzero : (ofMagnitude t 0).toModel.unpack = .zero (signOf t) :=
    (encodes_ofMagnitude t (Nat.zero_le _)).eq_zero_iff.mpr rfl
  have hinfinity : ∀ negative,
      Float.ofModel (.pack (.infinity (signOf negative))) = ofMagnitude negative infinityBits := by
    decide +kernel
  rw [div_eq_pack, hzero, (encodes_ofMagnitude s ha).div_zero hpos, signOf_div, hinfinity]

/-- An infinity times one, each with a sign of its own, is the infinity of the combined sign. -/
theorem copySign_infinity_mul (x y : Float) :
    copySign (ofMagnitude false infinityBits) x * copySign 1.0 y
      = ofMagnitude (isNegative x != isNegative y) infinityBits := by
  have hinfinity : magnitude (ofMagnitude false infinityBits) = infinityBits :=
    (fields_ofMagnitude false (Nat.le_refl _)).2
  have hproduct : ∀ s t, ofMagnitude s infinityBits * ofMagnitude t (magnitude 1.0)
      = ofMagnitude (s != t) infinityBits := by
    decide +kernel
  rw [copySign, copySign, hinfinity]
  exact hproduct (isNegative x) (isNegative y)

/-- A quotient of numbers that are both zero or both infinite. -/
theorem div_ofMagnitude_none {a b : Nat} (h : a = 0 ∧ b = 0 ∨ a = infinityBits ∧ b = infinityBits)
    (s t : Bool) : ofMagnitude s a / ofMagnitude t b = notNumber := by
  rcases h with ⟨rfl, rfl⟩ | ⟨rfl, rfl⟩ <;> cases s <;> cases t <;> decide +kernel

/-- What is not a number has no quotient with anything. -/
theorem notNumber_div (y : Float) : notNumber / y = notNumber := by
  rw [div_eq_pack, unpack_notNumber]
  exact ofModel_pack_notANumber

theorem div_notNumber (x : Float) : x / notNumber = notNumber := by
  rw [div_eq_pack, unpack_notNumber]
  cases x.toModel.unpack <;> exact ofModel_pack_notANumber

/-- A double is a number of some sign and magnitude, or the one that is no number. -/
theorem eq_notNumber_or (x : Float) :
    x = notNumber ∨ ∃ s a, a ≤ infinityBits ∧ x = ofMagnitude s a := by
  by_cases h : magnitude x ≤ infinityBits
  · exact .inr ⟨isNegative x, magnitude x, h, (ofMagnitude_magnitude x).symm⟩
  · have hunpack : x.toModel.unpack = .notANumber := unpack_of_lt (Nat.lt_of_not_le h)
    have hpack : Float.ofModel (.pack x.toModel.unpack) = x := Float.ofBits_toBits x
    rw [hunpack, ofModel_pack_notANumber] at hpack
    exact .inl hpack.symm

/-! ## Special doubles -/

theorem isNaN_notNumber : notNumber.isNaN = true := by
  decide +kernel

/-- A double of at most the magnitude of infinity is a number. -/
theorem isNaN_ofMagnitude (s : Bool) {a : Nat} (h : a ≤ infinityBits) :
    (ofMagnitude s a).isNaN = false := by
  have hencodes := encodes_ofMagnitude s h
  rw [Float.isNaN, Float.Model.isNaN]
  generalize (ofMagnitude s a).toModel.unpack = u at hencodes
  cases hencodes <;> rfl

theorem isInf_ofMagnitude (s : Bool) {a : Nat} (h : a ≤ infinityBits) :
    (ofMagnitude s a).isInf = true ↔ a = infinityBits := by
  have hencodes := encodes_ofMagnitude s h
  rw [Float.isInf, Float.Model.isInf, ← hencodes.eq_infinity_iff]
  generalize (ofMagnitude s a).toModel.unpack = u at hencodes
  cases hencodes <;> simp [UnpackedFloat.isInf]

theorem beq_zero_ofMagnitude (s : Bool) {a : Nat} (h : a ≤ infinityBits) :
    (ofMagnitude s a == 0) = true ↔ a = 0 := by
  have hencodes := encodes_ofMagnitude s h
  have hzero : (0 : Float).toModel.unpack = .zero .positive := by
    rw [show (0 : Float) = ofMagnitude false 0 by decide +kernel]
    exact (encodes_ofMagnitude false (Nat.zero_le _)).eq_zero_iff.mpr rfl
  have hbeq : (ofMagnitude s a == 0)
      = (ofMagnitude s a).toModel.unpack.beq (0 : Float).toModel.unpack := rfl
  rw [hbeq, hzero, ← hencodes.eq_zero_iff]
  generalize (ofMagnitude s a).toModel.unpack = u at hencodes
  generalize signOf s = sign at hencodes ⊢
  cases hencodes <;> cases sign <;> simp [UnpackedFloat.beq, UnpackedFloat.compare]

/-- **Two doubles have no quotient** exactly if one of them is no number, both are
zero or both are infinite. -/
theorem isNaN_div_iff (x y : Float) :
    (x / y).isNaN = true ↔ x.isNaN = true ∨ y.isNaN = true ∨
      (x == 0) = true ∧ (y == 0) = true ∨ x.isInf = true ∧ y.isInf = true := by
  rcases eq_notNumber_or x with rfl | ⟨s, a, ha, rfl⟩
  · simp only [notNumber_div, isNaN_notNumber, true_or]
  rcases eq_notNumber_or y with rfl | ⟨t, b, hb, rfl⟩
  · simp only [div_notNumber, isNaN_notNumber, true_or, or_true]
  simp only [isNaN_ofMagnitude, isInf_ofMagnitude, beq_zero_ofMagnitude, ha, hb,
    Bool.false_eq_true, false_or]
  by_cases h : a = 0 ∧ b = 0 ∨ a = infinityBits ∧ b = infinityBits
  · simp only [div_ofMagnitude_none h, isNaN_notNumber, h]
  · obtain ⟨bits, hbits, hdiv⟩ := div_ofMagnitude ha hb h
    simp only [hdiv, isNaN_ofMagnitude _ hbits, h, Bool.false_eq_true]

/-- A quotient that is a number comes from two numbers, and with other signs they have
the same quotient under the combined sign. -/
theorem exists_quotient {x y : Float} (h : (x / y).isNaN = false) :
    ∃ s t a b bits, a ≤ infinityBits ∧ b ≤ infinityBits ∧ bits ≤ infinityBits ∧
      x = ofMagnitude s a ∧ y = ofMagnitude t b ∧
      ∀ s t, ofMagnitude s a / ofMagnitude t b = ofMagnitude (s != t) bits := by
  rcases eq_notNumber_or x with rfl | ⟨s, a, ha, rfl⟩
  · rw [notNumber_div, isNaN_notNumber] at h
    cases h
  rcases eq_notNumber_or y with rfl | ⟨t, b, hb, rfl⟩
  · rw [div_notNumber, isNaN_notNumber] at h
    cases h
  by_cases hnone : a = 0 ∧ b = 0 ∨ a = infinityBits ∧ b = infinityBits
  · rw [div_ofMagnitude_none hnone, isNaN_notNumber] at h
    cases h
  · obtain ⟨bits, hbits, hdiv⟩ := div_ofMagnitude ha hb hnone
    exact ⟨s, t, a, b, bits, ha, hb, hbits, rfl, rfl, hdiv⟩

/-- The sign of a quotient is the combined sign. -/
theorem isNegative_div {x y : Float} (h : (x / y).isNaN = false) :
    isNegative (x / y) = (isNegative x != isNegative y) := by
  obtain ⟨s, t, a, b, bits, ha, hb, hbits, rfl, rfl, hdiv⟩ := exists_quotient h
  rw [hdiv, (fields_ofMagnitude _ hbits).1, (fields_ofMagnitude s ha).1,
    (fields_ofMagnitude t hb).1]

/-- A quotient changes its sign with the dividend. -/
theorem neg_div_of_number {x y : Float} (h : (x / y).isNaN = false) : -x / y = -(x / y) := by
  obtain ⟨s, t, a, b, bits, ha, hb, hbits, rfl, rfl, hdiv⟩ := exists_quotient h
  rw [neg_ofMagnitude s ha, hdiv, hdiv, neg_ofMagnitude _ hbits]
  cases s <;> cases t <;> rfl

/-- A quotient changes its sign with the divisor. -/
theorem div_neg_of_number {x y : Float} (h : (x / y).isNaN = false) : x / -y = -(x / y) := by
  obtain ⟨s, t, a, b, bits, ha, hb, hbits, rfl, rfl, hdiv⟩ := exists_quotient h
  rw [neg_ofMagnitude t hb, hdiv, hdiv, neg_ofMagnitude _ hbits]
  cases s <;> cases t <;> rfl

/-- A number other than zero over a zero is infinite. -/
theorem isInf_div_of_zero {x y : Float} (hx : (x == 0) = false) (hnumber : x.isNaN = false)
    (hy : (y == 0) = true) : (x / y).isInf = true := by
  rcases eq_notNumber_or x with rfl | ⟨s, a, ha, rfl⟩
  · rw [isNaN_notNumber] at hnumber
    cases hnumber
  rcases eq_notNumber_or y with rfl | ⟨t, b, hb, rfl⟩
  · cases (by decide +kernel : (notNumber == 0) = false).symm.trans hy
  obtain rfl : b = 0 := (beq_zero_ofMagnitude t hb).mp hy
  have hdividend : a ≠ 0 := fun ha0 => by
    rw [(beq_zero_ofMagnitude s ha).mpr ha0] at hx
    cases hx
  rw [div_ofMagnitude_zero ha hdividend]
  exact (isInf_ofMagnitude _ (Nat.le_refl _)).mpr rfl

end Binary64

open Binary64

/-- **There is one rule for all divisors.**  A zero divisor, which is treated apart,
gives the quotient that it has anyway. -/
theorem divide_eq_div (x y : Float) : divide x y = x / y := by
  unfold divide
  split
  · rfl
  · next hdivisor =>
    have hy : y = ofMagnitude (isNegative y) 0 := by
      rw [← Decidable.not_not.mp hdivisor, ofMagnitude_magnitude]
    rcases eq_notNumber_or x with rfl | ⟨s, a, ha, rfl⟩
    · rw [notNumber_div, if_pos (.inr (by decide +kernel))]
      rfl
    · obtain ⟨hsign, hmagnitude⟩ := fields_ofMagnitude s ha
      rw [copySign_infinity_mul, hsign, hmagnitude, hy]
      split
      · next hdividend =>
        have hzero : a = 0 := hdividend.resolve_right (Nat.not_lt.mpr ha)
        exact (div_ofMagnitude_none (.inl ⟨hzero, rfl⟩) s _).symm
      · next hdividend =>
        rw [div_ofMagnitude_zero ha (fun hzero => hdividend (.inl hzero)), ← hy]

/-- **Division is total**, and it follows one rule over all doubles, whether the
divisor is zero or not.  The operator never complains about two numbers.  The result
is not a number exactly if one of the two is none, or both are zero, or both are
infinite; any other result has the combined sign of the two, so that it changes its
sign with either of them.  A number other than zero over a zero of either sign is
infinite.  The result is the quotient of binary64 arithmetic. -/
theorem divide_total (x y : Float) :
    (∀ op : Token, op.kind = .symbol .slash →
      Expr.applyBinary op (.number x) (.number y) = .ok (.number (divide x y))) ∧
    divide x y = x / y ∧
    ((divide x y).isNaN = true ↔ x.isNaN = true ∨ y.isNaN = true ∨
      (x == 0) = true ∧ (y == 0) = true ∨ x.isInf = true ∧ y.isInf = true) ∧
    ((x == 0) = false → x.isNaN = false → (y == 0) = true → (divide x y).isInf = true) ∧
    ((divide x y).isNaN = false →
      isNegative (divide x y) = (isNegative x != isNegative y) ∧
      divide (-x) y = -divide x y ∧ divide x (-y) = -divide x y) := by
  refine ⟨fun op hop => ?_, divide_eq_div x y, ?_⟩
  · simp only [Expr.applyBinary, hop]
    rfl
  simp only [divide_eq_div]
  exact ⟨isNaN_div_iff x y, isInf_div_of_zero,
    fun h => ⟨isNegative_div h, neg_div_of_number h, div_neg_of_number h⟩⟩

end LoxCalc
