import LoxCalc.Number.Binary64
import Mathlib

/-!
# Bit patterns of doubles

A double that is a number is its sign and its magnitude, the 63 bits below the
sign.  The operations on doubles first unpack the bits into a significand and an
exponent and pack their result again.

* `Encodes` says which magnitude belongs to an unpacked number.  The exponent
  counts the steps of `2 ^ 52` that stand above the significand.
* `encodes_unpack` and `Encodes.toNat_pack` say once what unpacking and packing
  do; that signs are changed and magnitudes compared as one expects follows from
  these two.
-/

namespace LoxCalc.Binary64

open Float.Model

open UnpackedFloat (Sign unpackMantissa unpackExponent unpackSign packComponents)

/-- The unpacked number has the sign and the magnitude. -/
inductive Encodes : UnpackedFloat → Sign → Nat → Prop
  | infinity (s : Sign) : Encodes (.infinity s) s infinityBits
  | zero (s : Sign) : Encodes (.zero s) s 0
  | finite (s : Sign) {m k : Nat} {e : Int} (hpos : 0 < m) (he : e = k - 1074)
      (hm : m < Nat.pow 2 53) (hk : k = 0 ∨ Nat.pow 2 52 ≤ m)
      (hlt : k * Nat.pow 2 52 + m < infinityBits) :
      Encodes (.finite s m e hpos) s (k * Nat.pow 2 52 + m)

/-- The sign of an unpacked number. -/
def signOf (negative : Bool) : Sign :=
  if negative then .negative else .positive

/-! ## Unpacking -/

/-- Fields that stand side by side. -/
theorem toNat_append {n k : Nat} (x : BitVec n) (y : BitVec k) :
    (x ++ y).toNat = x.toNat * Nat.pow 2 k + y.toNat := by
  rw [BitVec.toNat_append, ← Nat.shiftLeft_add_eq_or_of_lt y.isLt, Nat.shiftLeft_eq]
  rfl

section Fields

variable (b : BitVec Format.binary64.numBits)

theorem toNat_unpackMantissa : (unpackMantissa b).toNat = b.toNat % Nat.pow 2 52 := by
  simp [unpackMantissa]

theorem toNat_unpackExponent :
    (unpackExponent b).toNat = b.toNat / Nat.pow 2 52 % Nat.pow 2 11 := by
  simp [unpackExponent, Nat.shiftRight_eq_div_pow]

theorem ofBitVec_unpackSign :
    Sign.ofBitVec (unpackSign b) = signOf (decide (Nat.pow 2 63 ≤ b.toNat)) := by
  have hb : b.toNat < 18446744073709551616 := b.isLt
  have hsign : (unpackSign b).toNat = b.toNat / 9223372036854775808 % 2 := by
    simp [unpackSign, Nat.shiftRight_eq_div_pow]
  have hiff : unpackSign b = 0#1 ↔ ¬ 9223372036854775808 ≤ b.toNat := by
    rw [← BitVec.toNat_inj, hsign]
    simp only [BitVec.toNat_ofNat, Nat.zero_mod]
    omega
  by_cases h : 9223372036854775808 ≤ b.toNat <;> simp [Sign.ofBitVec, signOf, hiff, h]

/-- The exponent and the significand of a pattern make up its magnitude. -/
theorem magnitude_eq_fields :
    b.toNat % Nat.pow 2 63
      = (unpackExponent b).toNat * Nat.pow 2 52 + (unpackMantissa b).toNat := by
  have hm := toNat_unpackMantissa b
  have he := toNat_unpackExponent b
  simp only [Nat.pow_eq, Nat.reducePow] at hm he ⊢
  omega

end Fields

/-- **What unpacking does.**  A pattern whose magnitude is at most that of infinity
is unpacked into a number of that magnitude. -/
theorem encodes_unpack (b : BitVec Format.binary64.numBits)
    (h : b.toNat % Nat.pow 2 63 ≤ infinityBits) :
    Encodes (UnpackedFloat.unpack Format.binary64 b) (signOf (decide (Nat.pow 2 63 ≤ b.toNat)))
      (b.toNat % Nat.pow 2 63) := by
  have hm : (unpackMantissa b).toNat < 4503599627370496 := (unpackMantissa b).isLt
  have he : (unpackExponent b).toNat < 2048 := (unpackExponent b).isLt
  rw [magnitude_eq_fields] at h ⊢
  simp only [UnpackedFloat.unpack, ofBitVec_unpackSign]
  split
  · next hlast =>
    -- the greatest exponent is that of infinity, which has nothing below it
    have hexponent : (unpackExponent b).toNat = 2047 := by rw [hlast]; rfl
    have hzero : unpackMantissa b = 0#52 := by
      apply BitVec.eq_of_toNat_eq
      rw [hexponent] at h
      simp only [infinityBits, Nat.pow_eq, Nat.reducePow] at h
      show (unpackMantissa b).toNat = 0
      omega
    rw [if_pos hzero, hexponent, hzero]
    exact .infinity _
  · next hlast =>
    have hexponent : (unpackExponent b).toNat ≠ 2047 :=
      fun hexponent => hlast (BitVec.eq_of_toNat_eq hexponent)
    split
    · next hfirst =>
      have hexponent : (unpackExponent b).toNat = 0 := by rw [hfirst]; rfl
      rw [hexponent]
      split
      · next hzero =>
        rw [hzero]
        exact .zero _
      · refine .finite _ _ ?_ ?_ (.inl rfl) ?_
        · simp [Format.exponentBias]
        · exact Nat.lt_trans hm (by decide)
        · simp only [infinityBits, Nat.pow_eq, Nat.reducePow]
          omega
    · next hfirst =>
      -- a normal number has one more bit than its pattern shows
      have hpositive : (unpackExponent b).toNat ≠ 0 :=
        fun hexponent => hfirst (BitVec.eq_of_toNat_eq hexponent)
      obtain ⟨k, hk⟩ := Nat.exists_eq_succ_of_ne_zero hpositive
      have hone : (1#1 ++ unpackMantissa b).toNat = Nat.pow 2 52 + (unpackMantissa b).toNat :=
        toNat_append 1#1 (unpackMantissa b)
      have hbits : (unpackExponent b).toNat * Nat.pow 2 52 + (unpackMantissa b).toNat
          = k * Nat.pow 2 52 + (1#1 ++ unpackMantissa b).toNat := by
        rw [hone, hk, Nat.succ_mul, Nat.add_assoc]
      rw [hbits]
      simp only [Nat.pow_eq, Nat.reducePow] at hone
      refine .finite _ _ ?_ ?_ (.inr ?_) ?_
      · simp only [Format.exponentBias, Nat.reduceSub, Nat.reducePow, hk]
        omega
      · simp only [hone, Nat.pow_eq, Nat.reducePow]
        omega
      · simp only [hone, Nat.pow_eq, Nat.reducePow]
        omega
      · simp only [hone, infinityBits, Nat.pow_eq, Nat.reducePow]
        omega

/-- Any other pattern is not a number. -/
theorem unpack_of_lt {b : BitVec Format.binary64.numBits}
    (h : infinityBits < b.toNat % Nat.pow 2 63) :
    UnpackedFloat.unpack Format.binary64 b = .notANumber := by
  have hm : (unpackMantissa b).toNat < 4503599627370496 := (unpackMantissa b).isLt
  have he : (unpackExponent b).toNat < 2048 := (unpackExponent b).isLt
  rw [magnitude_eq_fields] at h
  simp only [infinityBits, Nat.pow_eq, Nat.reducePow] at h
  have hlast : unpackExponent b = -1#11 := BitVec.eq_of_toNat_eq (by
    show (unpackExponent b).toNat = 2047
    omega)
  have hsome : unpackMantissa b ≠ 0#52 := by
    intro hzero
    have hnat : (unpackMantissa b).toNat = 0 := by rw [hzero]; rfl
    omega
  simp only [UnpackedFloat.unpack]
  rw [if_pos hlast, if_neg hsome]

/-! ## Packing -/

theorem toNat_packComponents (s : Sign) (e : BitVec 11) (m : BitVec 52) :
    (packComponents Format.binary64 s e m).toNat
      = s.toBitVec.toNat * Nat.pow 2 63 + (e.toNat * Nat.pow 2 52 + m.toNat) := by
  rw [packComponents, toNat_append, toNat_append]
  simp only [Nat.pow_eq, Nat.reducePow]
  omega

namespace Encodes

variable {u v : UnpackedFloat} {s : Sign} {bits : Nat}

/-- **What packing does.** -/
theorem toNat_pack (h : Encodes u s bits) :
    (UnpackedFloat.pack Format.binary64 u).toNat
      = s.toBitVec.toNat * Nat.pow 2 63 + bits := by
  cases h with
  | infinity =>
      rw [UnpackedFloat.pack, UnpackedFloat.packedInfinity, toNat_packComponents]
      rfl
  | zero =>
      rw [UnpackedFloat.pack, UnpackedFloat.packedZero, toNat_packComponents]
      rfl
  | @finite _ m k e hpos he hm hk hlt =>
      simp only [infinityBits, Nat.pow_eq, Nat.reducePow] at hm hk hlt ⊢
      have hbiased : (e + Format.binary64.exponentBias
          + Format.binary64.mantissaBitsWithoutImplicit).toNat = k + 1 := by
        simp only [he, Format.exponentBias, Nat.reduceSub, Nat.reducePow]
        omega
      have hne : m ≠ 0 := Nat.pos_iff_ne_zero.mp hpos
      have hbelow : m.log2 < 53 := (Nat.log2_lt hne).mpr hm
      have hnormal : m.log2 + 1 = Format.binary64.mantissaBits ↔ 4503599627370496 ≤ m := by
        have habove : 52 ≤ m.log2 ↔ 4503599627370496 ≤ m := Nat.le_log2 hne
        simp only [Format.mantissaBits]
        omega
      simp only [UnpackedFloat.pack, hbiased, hnormal]
      rw [if_neg (by omega)]
      split
      · rw [toNat_packComponents]
        simp only [BitVec.toNat_ofNat, Nat.pow_eq, Nat.reducePow]
        omega
      · rw [toNat_packComponents]
        simp only [BitVec.toNat_ofNat, Nat.pow_eq, Nat.reducePow]
        omega

/-- Negation changes the sign alone. -/
theorem neg (h : Encodes u s bits) : Encodes u.neg (-s) bits := by
  cases h with
  | infinity => exact .infinity _
  | zero => exact .zero _
  | finite _ hpos he hm hk hlt => exact .finite _ hpos he hm hk hlt

/-- The absolute value has no sign. -/
theorem abs (h : Encodes u s bits) : Encodes u.abs .positive bits := by
  cases h with
  | infinity => exact .infinity _
  | zero => exact .zero _
  | finite _ hpos he hm hk hlt => exact .finite _ hpos he hm hk hlt

/-- **Magnitudes are ordered like the numbers that have them.** -/
theorem le_of_le {bits' : Nat} (hu : Encodes u .positive bits) (hv : Encodes v .positive bits')
    (h : u.le v = true) : bits ≤ bits' := by
  cases hu with
  | zero => exact Nat.zero_le _
  | infinity =>
      cases hv with
      | infinity => exact Nat.le_refl _
      | zero => cases h
      | finite => cases h
  | @finite _ m k e hpos he hm hk hlt =>
      cases hv with
      | infinity => exact Nat.le_of_lt hlt
      | zero => cases h
      | @finite _ m' k' e' hpos' he' hm' hk' hlt' =>
          have hcompare : ((compare e e').then (compare m m')).isLE = true := h
          simp only [Nat.pow_eq, Nat.reducePow] at hm hk' ⊢
          rcases Int.lt_trichotomy e e' with hexponent | hexponent | hexponent
          · -- one step up is more than any significand
            omega
          · rw [Int.compare_eq_eq.mpr hexponent] at hcompare
            have hle : m ≤ m' := Nat.isLE_compare.mp hcompare
            omega
          · rw [Int.compare_eq_gt.mpr hexponent] at hcompare
            cases hcompare

end Encodes

/-! ## Doubles -/

/-- **A double is made up of its sign and its magnitude.** -/
theorem ofMagnitude_magnitude (x : Float) : ofMagnitude (isNegative x) (magnitude x) = x := by
  have hbits : x.toBits.toNat < 18446744073709551616 := x.toBits.toNat_lt
  have hpattern : (if isNegative x then Nat.pow 2 63 else 0) + magnitude x = x.toBits.toNat := by
    simp only [isNegative, magnitude, Nat.pow_eq, Nat.reducePow, decide_eq_true_eq]
    split <;> omega
  rw [ofMagnitude, hpattern, UInt64.ofNat_toNat, Float.ofBits_toBits]

/-- Doubles that agree in sign and magnitude are the same. -/
theorem eq_of_fields_eq {x y : Float} (hsign : isNegative x = isNegative y)
    (hmagnitude : magnitude x = magnitude y) : x = y := by
  rw [← ofMagnitude_magnitude x, hsign, hmagnitude, ofMagnitude_magnitude]

/-- A number is unpacked into its sign and its magnitude. -/
theorem encodes_toModel {x : Float} (h : magnitude x ≤ infinityBits) :
    Encodes x.toModel.unpack (signOf (isNegative x)) (magnitude x) :=
  encodes_unpack x.toBits.toBitVec h

/-- The magnitude of a double that is a number. -/
theorem magnitude_le_of_isNaN {x : Float} (h : x.isNaN = false) : magnitude x ≤ infinityBits := by
  apply Nat.le_of_not_lt
  intro hlt
  have hunpack : x.toModel.unpack = .notANumber := unpack_of_lt hlt
  rw [Float.isNaN, Float.Model.isNaN, hunpack] at h
  cases h

/-- The magnitude of a finite double. -/
theorem magnitude_lt_of_isFinite {x : Float} (h : x.isFinite = true) :
    magnitude x < infinityBits := by
  rw [Float.isFinite, Float.Model.isFinite] at h
  have hnumber : x.isNaN = false := by
    rw [Float.isNaN, Float.Model.isNaN]
    generalize x.toModel.unpack = u at h
    cases u with
    | notANumber => cases h
    | infinity => rfl
    | zero => rfl
    | finite => rfl
  have hencodes := encodes_toModel (magnitude_le_of_isNaN hnumber)
  generalize x.toModel.unpack = u at h hencodes
  generalize magnitude x = bits at hencodes ⊢
  cases hencodes with
  | infinity => cases h
  | zero => decide
  | finite => assumption

/-- The pattern of a sign and a magnitude is split into the two again. -/
theorem split_pattern {bits : Nat} (h : bits ≤ infinityBits) (negative : Bool) :
    decide (Nat.pow 2 63 ≤ (if negative then Nat.pow 2 63 else 0) + bits) = negative ∧
      ((if negative then Nat.pow 2 63 else 0) + bits) % Nat.pow 2 63 = bits := by
  simp only [infinityBits, Nat.pow_eq, Nat.reducePow] at h ⊢
  cases negative with
  | false =>
      simp only [Bool.false_eq_true, if_false, decide_eq_false_iff_not]
      omega
  | true =>
      simp only [if_true, decide_eq_true_eq]
      omega

/-- What is packed has the sign and the magnitude that were unpacked. -/
theorem Encodes.fields_pack {u : UnpackedFloat} {negative : Bool} {bits : Nat}
    (h : Encodes u (signOf negative) bits) (hbits : bits ≤ infinityBits) :
    isNegative (.ofModel (.pack u)) = negative ∧ magnitude (.ofModel (.pack u)) = bits := by
  have hsign : (signOf negative).toBitVec.toNat * Nat.pow 2 63
      = if negative then Nat.pow 2 63 else 0 := by
    cases negative <;> rfl
  have hpack : (Float.ofModel (.pack u)).toBits.toNat
      = (signOf negative).toBitVec.toNat * Nat.pow 2 63 + bits := h.toNat_pack
  unfold isNegative magnitude
  rw [hpack, hsign]
  exact split_pattern hbits negative

/-- The double of a sign and a magnitude has them. -/
theorem fields_ofMagnitude (negative : Bool) {bits : Nat} (h : bits ≤ infinityBits) :
    isNegative (ofMagnitude negative bits) = negative ∧
      magnitude (ofMagnitude negative bits) = bits := by
  obtain ⟨hsign, hmagnitude⟩ := split_pattern h negative
  have hnat : (UInt64.ofNat ((if negative then Nat.pow 2 63 else 0) + bits)).toBitVec.toNat
      = (if negative then Nat.pow 2 63 else 0) + bits := by
    refine Nat.mod_eq_of_lt ?_
    simp only [infinityBits, Nat.pow_eq, Nat.reducePow] at h ⊢
    split <;> omega
  have hunpack := encodes_unpack
    (UInt64.ofNat ((if negative then Nat.pow 2 63 else 0) + bits)).toBitVec
  rw [hnat, hmagnitude, hsign] at hunpack
  exact (hunpack h).fields_pack h

/-- **Negation changes the sign and keeps the magnitude.** -/
theorem neg_ofMagnitude (negative : Bool) {bits : Nat} (h : bits ≤ infinityBits) :
    -ofMagnitude negative bits = ofMagnitude (!negative) bits := by
  obtain ⟨hsign, hmagnitude⟩ := fields_ofMagnitude negative h
  have hencodes := encodes_toModel (Nat.le_trans (Nat.le_of_eq hmagnitude) h)
  rw [hsign, hmagnitude] at hencodes
  have hopposite : -signOf negative = signOf (!negative) := by cases negative <;> rfl
  have hneg := hencodes.neg
  rw [hopposite] at hneg
  obtain ⟨hsign', hmagnitude'⟩ := hneg.fields_pack h
  obtain ⟨hsign'', hmagnitude''⟩ := fields_ofMagnitude (!negative) h
  exact eq_of_fields_eq (hsign'.trans hsign''.symm) (hmagnitude'.trans hmagnitude''.symm)

/-- The absolute value has no sign and the same magnitude. -/
theorem fields_abs {x : Float} (h : magnitude x ≤ infinityBits) :
    isNegative x.abs = false ∧ magnitude x.abs = magnitude x := by
  have habs : Encodes x.toModel.unpack.abs (signOf false) (magnitude x) := (encodes_toModel h).abs
  exact habs.fields_pack h

/-- **A number that is at least as great as another one**, signs apart, has at least
its magnitude. -/
theorem magnitude_le_of_le_abs {x y : Float} (hx : magnitude x ≤ infinityBits)
    (hy : magnitude y ≤ infinityBits) (hsign : isNegative y = false) (h : y ≤ x.abs) :
    magnitude y ≤ magnitude x := by
  obtain ⟨hpositive, hmagnitude⟩ := fields_abs hx
  have hlower := encodes_toModel hy
  have hupper := encodes_toModel (Nat.le_trans (Nat.le_of_eq hmagnitude) hx)
  rw [hsign] at hlower
  rw [hpositive, hmagnitude] at hupper
  have hle : y.toModel.unpack.le x.abs.toModel.unpack = true := of_decide_eq_true h
  exact hlower.le_of_le hupper hle

end LoxCalc.Binary64
