import LoxCalc.Proofs.BitPatterns
import LoxCalc.Proofs.Decimals
import LoxCalc.Proofs.Numerals
import LoxCalc.Proofs.Unambiguous

/-!
# Printed numbers read back

A printed number loses nothing: read as a numeral, it is the same double again.

`Spells` relates a numeral without a sign to the number it spells.  A printed
magnitude spells either the magnitude itself, if this is a whole number, or the
decimal that was found for it.  Reading goes the other way, from the numeral to
some decimal of the same value, and rounding does not tell decimals of one value
apart.
-/

namespace LoxCalc

open Binary64

/-! ## Values of digits -/

namespace Numeral

theorem digitsValue_eq (ds : List Char) : digitsValue ds = Nat.ofDigitChars 10 ds 0 := by
  rw [Nat.ofDigitChars_eq_foldl]
  rfl

theorem digitsValue_append (ds fs : List Char) :
    digitsValue (ds ++ fs) = 10 ^ fs.length * digitsValue ds + digitsValue fs := by
  rw [digitsValue_eq, digitsValue_eq, digitsValue_eq, Nat.ofDigitChars_append,
    Nat.ofDigitChars_eq_ofDigitChars_zero]

theorem isDigit_zeros (n : Nat) : ∀ d ∈ List.replicate n '0', d.isDigit = true := by
  intro d hd
  rw [List.eq_of_mem_replicate hd]
  rfl

theorem digitsValue_zeros (n : Nat) : digitsValue (List.replicate n '0') = 0 := by
  rw [digitsValue_eq, Nat.ofDigitChars_replicate_zero, Nat.mul_zero]

theorem digitsValue_zeros_append (n : Nat) (ds : List Char) :
    digitsValue (List.replicate n '0' ++ ds) = digitsValue ds := by
  rw [digitsValue_append, digitsValue_zeros, Nat.mul_zero, Nat.zero_add]

theorem digitsValue_toDigits (n : Nat) : digitsValue (Nat.toDigits 10 n) = n := by
  rw [digitsValue_eq, Nat.ofDigitChars_ten_toDigits]

/-- Zeros at the end of digits are powers of ten. -/
theorem value_append_zeros (ds : List Char) (n : Nat) (k : Int) :
    (digitsValue (ds ++ List.replicate n '0') : ℚ) * 10 ^ k = digitsValue ds * 10 ^ (k + n) := by
  rw [digitsValue_append, digitsValue_zeros, List.length_replicate, zpow_add₀ (by norm_num),
    zpow_natCast]
  push_cast
  ring

/-! ## Numerals and the numbers they spell -/

/-- Digits, or digits with a point between them, spell the number. -/
inductive Plainly : List Char → ℚ → Prop
  | whole {ds : List Char} (hne : ds ≠ []) (hds : ∀ d ∈ ds, d.isDigit = true) {q : ℚ}
      (hq : q = digitsValue ds) : Plainly ds q
  | fraction {ds fs : List Char} (hne : ds ≠ []) (hds : ∀ d ∈ ds, d.isDigit = true)
      (hfne : fs ≠ []) (hfs : ∀ d ∈ fs, d.isDigit = true) {q : ℚ}
      (hq : q = digitsValue (ds ++ fs) * 10 ^ (-(fs.length : Int))) :
      Plainly (ds ++ '.' :: fs) q

/-- A plain numeral, or one with an exponent, spells the number. -/
inductive Spells : List Char → ℚ → Prop
  | plain {cs : List Char} {q : ℚ} (h : Plainly cs q) : Spells cs q
  | scaled {cs es : List Char} {p q : ℚ} (h : Plainly cs p) (negative : Bool) (hne : es ≠ [])
      (hes : ∀ d ∈ es, d.isDigit = true)
      (hq : q = p * 10 ^ (if negative then -(digitsValue es : Int) else digitsValue es)) :
      Spells (cs ++ 'e' :: (if negative then '-' else '+') :: es) q

/-- What is read of a plain numeral that an exponent or nothing follows. -/
theorem Plainly.decimal?_append {cs rest : List Char} {q : ℚ} {e : Int} (h : Plainly cs q)
    (hrest : ∀ c ∈ rest.head?, c = 'e') (he : exponent? rest = some e) :
    ∃ d, decimal? (cs ++ rest) = some d ∧ d.value = q * 10 ^ e := by
  have hend : ∀ c ∈ rest.head?, c.isDigit = false := by
    intro c hc
    rw [hrest c hc]
    rfl
  cases h with
  | whole hne hds hq =>
      have hpoint : splitFraction rest = ([], rest) := by
        unfold splitFraction
        split
        · cases hrest '.' rfl
        · rfl
      refine ⟨⟨digitsValue cs, e⟩, ?_, by rw [Decimal.value, hq]⟩
      simp [decimal?, takeWhile_append_of_head hds hend, dropWhile_append_of_head hds hend, hpoint,
        he, hne]
  | @fraction ds fs hne hds hfne hfs _ hq =>
      refine ⟨⟨digitsValue (ds ++ fs), e - fs.length⟩, ?_, ?_⟩
      · have hcs : ds ++ '.' :: fs ++ rest = ds ++ '.' :: (fs ++ rest) := by simp
        rw [hcs]
        simp [decimal?, takeWhile_append_cons hds, dropWhile_append_cons hds, splitFraction,
          takeWhile_append_of_head hfs hend, dropWhile_append_of_head hfs hend, he, hne]
      · rw [Decimal.value, hq, mul_assoc, ← zpow_add₀ (by norm_num), neg_add_eq_sub]

theorem Spells.decimal?_eq {cs : List Char} {q : ℚ} (h : Spells cs q) :
    ∃ d, decimal? cs = some d ∧ d.value = q := by
  cases h with
  | plain h =>
      have hend : exponent? [] = some 0 := rfl
      have hread := h.decimal?_append (by simp) hend
      rwa [List.append_nil, zpow_zero, mul_one] at hread
  | @scaled cs es p q h negative hne hes hq =>
      have hexponent : exponent? ('e' :: (if negative then '-' else '+') :: es)
          = some (if negative then -(digitsValue es : Int) else digitsValue es) := by
        have hall : es.all Char.isDigit = true := List.all_eq_true.mpr hes
        have hsign : splitSign ((if negative then '-' else '+') :: es) = (negative, es) := by
          cases negative <;> rfl
        rw [exponent?, if_pos (.inl rfl), exponentDigits?, hsign]
        simp only [if_pos (And.intro hne hall)]
      rw [hq]
      exact h.decimal?_append (by simp) hexponent

theorem Plainly.head {cs : List Char} {q : ℚ} (h : Plainly cs q) (rest : List Char) :
    ∃ c tail, cs ++ rest = c :: tail ∧ c.isDigit = true := by
  cases h with
  | whole hne hds =>
      obtain ⟨c, ds, rfl⟩ := List.exists_cons_of_ne_nil hne
      exact ⟨c, ds ++ rest, rfl, hds c List.mem_cons_self⟩
  | fraction hne hds =>
      obtain ⟨c, ds, rfl⟩ := List.exists_cons_of_ne_nil hne
      exact ⟨c, _, rfl, hds c List.mem_cons_self⟩

/-- A numeral that spells a number starts with a digit. -/
theorem Spells.head {cs : List Char} {q : ℚ} (h : Spells cs q) :
    ∃ c tail, cs = c :: tail ∧ c.isDigit = true := by
  cases h with
  | plain h =>
      have hhead := h.head []
      rwa [List.append_nil] at hhead
  | scaled h => exact h.head _

/-- **What is read of a numeral that spells a number.** -/
theorem Spells.magnitude?_eq {cs : List Char} {q : ℚ} (h : Spells cs q) :
    splitSign cs = (false, cs) ∧ ∃ d, magnitude? cs = some (.decimal d) ∧ d.value = q := by
  obtain ⟨d, hd, hvalue⟩ := h.decimal?_eq
  obtain ⟨c, rest, rfl, hc⟩ := h.head
  exact ⟨splitSign_of_isDigit hc rest, d, by rw [magnitude?_of_isDigit hc, hd]; rfl, hvalue⟩

end Numeral

namespace Number

open Numeral

/-! ## Printed decimals -/

/-- The exponent of the leading digit. -/
def order (d : Decimal) : Int :=
  d.exponent + (Nat.toDigits 10 d.digits).length - 1

/-- Digits without the zeros at their end. -/
def trimmed (ds : List Char) : List Char :=
  ds.rdropWhile (· == '0')

theorem decimalText_eq (d : Decimal) :
    decimalText d =
      if order d < leastPositional ∨ positionalEnd ≤ order d then
        scientific (trimmed (Nat.toDigits 10 d.digits)) (order d)
      else positional (trimmed (Nat.toDigits 10 d.digits)) (order d) :=
  rfl

theorem exists_trimmed_append (ds : List Char) :
    ∃ n, ds = trimmed ds ++ List.replicate n '0' := by
  have hzeros : ∀ c ∈ ds.rtakeWhile (· == '0'), c = '0' := by
    intro c hc
    have hzero := List.mem_rtakeWhile_imp hc
    exact beq_iff_eq.mp hzero
  refine ⟨(ds.rtakeWhile (· == '0')).length, ?_⟩
  rw [← List.eq_replicate_of_mem hzeros]
  exact List.rdropWhile_append_rtakeWhile.symm

/-- The digits of an exponent. -/
theorem twoDigits_spec (n : Nat) :
    (twoDigits n).toList ≠ [] ∧ (∀ d ∈ (twoDigits n).toList, d.isDigit = true) ∧
      digitsValue (twoDigits n).toList = n := by
  have hdigits : ∀ d ∈ Nat.toDigits 10 n, d.isDigit = true :=
    fun d hd => Nat.isDigit_of_mem_toDigits (by omega) (by omega) hd
  unfold twoDigits
  rw [Nat.toString_eq_ofList_toDigits]
  split
  · have htext : ("0" ++ String.ofList (Nat.toDigits 10 n)).toList
        = List.replicate 1 '0' ++ Nat.toDigits 10 n := by
      simp only [String.toList_append, String.toList_ofList]
      rfl
    rw [htext, digitsValue_zeros_append, digitsValue_toDigits]
    exact ⟨by simp, List.forall_mem_append.mpr ⟨isDigit_zeros 1, hdigits⟩, rfl⟩
  · rw [String.toList_ofList, digitsValue_toDigits]
    exact ⟨Nat.toDigits_ne_nil, hdigits, rfl⟩

section Digits

variable {ds : List Char} (hne : ds ≠ []) (hds : ∀ c ∈ ds, c.isDigit = true)

include hne hds

/-- A positional fraction below one. -/
theorem plainly_zeros (n : Nat) :
    Plainly (['0'] ++ '.' :: (List.replicate n '0' ++ ds))
      (digitsValue ds * 10 ^ (-(n + ds.length : Int))) := by
  have hfraction : ∀ d ∈ List.replicate n '0' ++ ds, d.isDigit = true :=
    List.forall_mem_append.mpr ⟨isDigit_zeros n, hds⟩
  have hvalue : digitsValue (['0'] ++ (List.replicate n '0' ++ ds)) = digitsValue ds :=
    digitsValue_zeros_append (n + 1) ds
  refine .fraction (List.cons_ne_nil '0' []) (isDigit_zeros 1) (by simp [hne]) hfraction ?_
  rw [hvalue, List.length_append, List.length_replicate, Nat.cast_add]

/-- A whole number with zeros, then the point and one more zero. -/
theorem plainly_point_zero (n : Nat) :
    Plainly (ds ++ List.replicate n '0' ++ '.' :: ['0']) (digitsValue ds * 10 ^ (n : Int)) := by
  have hwhole : ∀ d ∈ ds ++ List.replicate n '0', d.isDigit = true :=
    List.forall_mem_append.mpr ⟨hds, isDigit_zeros n⟩
  refine .fraction (by simp [hne]) hwhole (by simp) (isDigit_zeros 1) ?_
  rw [List.append_assoc, List.replicate_append_replicate, value_append_zeros]
  congr 2
  simp

/-- A point between the digits. -/
theorem plainly_point {w : Nat} (hpos : 0 < w) (hlt : w < ds.length) :
    Plainly (ds.take w ++ '.' :: ds.drop w) (digitsValue ds * 10 ^ (w - ds.length : Int)) := by
  have htake : ds.take w ≠ [] := by
    rw [Ne, List.take_eq_nil_iff, not_or]
    exact ⟨by omega, hne⟩
  have hdrop : ds.drop w ≠ [] := by
    rw [Ne, List.drop_eq_nil_iff]
    omega
  refine .fraction htake (fun c hc => hds c (List.mem_of_mem_take hc)) hdrop
    (fun c hc => hds c (List.mem_of_mem_drop hc)) ?_
  rw [List.take_append_drop, List.length_drop]
  congr 2
  omega

/-- **What positional digits spell.** -/
theorem plainly_positional (e : Int) :
    Plainly (positional ds e).toList (digitsValue ds * 10 ^ (e + 1 - ds.length)) := by
  unfold positional
  split
  · next hneg =>
    -- all digits stand behind the point, after zeros
    have hexponent : e + 1 - ds.length = -((-e - 1).toNat + ds.length : Int) := by omega
    have hspelled := plainly_zeros hne hds (-e - 1).toNat
    rw [hexponent]
    simp only [String.toList_append, String.toList_ofList]
    exact hspelled
  · next hneg =>
    simp only [String.toList_append, String.toList_ofList]
    by_cases hdrop : ds.drop (e + 1).toNat = []
    · -- all digits stand before the point, and zeros fill the places up to it
      have hlength : ds.length ≤ (e + 1).toNat := List.drop_eq_nil_iff.mp hdrop
      have hspelled := plainly_point_zero hne hds ((e + 1).toNat - ds.length)
      have hexponent : e + 1 - ds.length = (((e + 1).toNat - ds.length : Nat) : Int) := by omega
      rw [if_pos hdrop, List.take_of_length_le hlength, hexponent]
      simpa using hspelled
    · -- the point stands between two digits
      have hlength : (e + 1).toNat < ds.length := by
        rw [List.drop_eq_nil_iff] at hdrop
        omega
      have hspelled := plainly_point hne hds (show 0 < (e + 1).toNat by omega) hlength
      have hexponent : e + 1 - ds.length = ((e + 1).toNat - ds.length : Int) := by omega
      rw [if_neg hdrop, hexponent, Nat.sub_eq_zero_of_le (Nat.le_of_lt hlength)]
      simpa using hspelled

/-- **What digits with an exponent spell.** -/
theorem spells_scientific (e : Int) :
    Spells (scientific ds e).toList (digitsValue ds * 10 ^ (e + 1 - ds.length)) := by
  obtain ⟨c, fs, rfl⟩ := List.exists_cons_of_ne_nil hne
  obtain ⟨hexponent, hes, hvalue⟩ := twoDigits_spec e.natAbs
  have hsigned : (if decide (e < 0) = true then -(digitsValue (twoDigits e.natAbs).toList : Int)
      else digitsValue (twoDigits e.natAbs).toList) = e := by
    rw [hvalue]
    split
    · next hneg =>
      have hneg := of_decide_eq_true hneg
      omega
    · next hneg =>
      have hneg : ¬e < 0 := by simpa using hneg
      omega
  have hmark : (if e < 0 then "e-" else "e+").toList
      = ['e', if decide (e < 0) = true then '-' else '+'] := by
    by_cases hneg : e < 0 <;> simp [hneg]
  -- the digits before the exponent, as they stand and as a number
  have hscaled : ∀ {cs : List Char} {p : ℚ}, Plainly cs p →
      Spells (cs ++ ((if e < 0 then "e-" else "e+").toList ++ (twoDigits e.natAbs).toList))
        (p * 10 ^ e) := by
    intro cs p hcs
    have hspelled := Spells.scaled hcs (decide (e < 0)) hexponent hes rfl
    rw [hsigned] at hspelled
    rw [hmark]
    exact hspelled
  unfold scientific
  simp only [String.toList_append, String.toList_ofList, List.take_succ_cons,
    List.take_zero, List.drop_succ_cons, List.drop_zero, List.append_assoc]
  by_cases hfs : fs = []
  · subst hfs
    have hwhole : Plainly [c] (digitsValue [c]) := .whole hne hds rfl
    simpa using hscaled hwhole
  · have hpoint := plainly_point hne hds Nat.one_pos
      (by simpa [List.length_pos_iff] using hfs)
    have hspelled := hscaled hpoint
    rw [mul_assoc, ← zpow_add₀ (by norm_num)] at hspelled
    rw [if_neg hfs]
    have hsum : e + 1 - (c :: fs).length = ((1 : Nat) - (c :: fs).length : Int) + e := by
      omega
    rw [hsum]
    simpa using hspelled

end Digits

section Decimal

variable {d : Decimal}

theorem isDigit_trimmed : ∀ c ∈ trimmed (Nat.toDigits 10 d.digits), c.isDigit = true := by
  intro c hc
  have hmem := (List.rdropWhile_prefix _ _).subset hc
  exact Nat.isDigit_of_mem_toDigits (by omega) (by omega) hmem

theorem trimmed_ne_nil (hd : d.digits ≠ 0) : trimmed (Nat.toDigits 10 d.digits) ≠ [] := by
  intro hnil
  obtain ⟨n, hn⟩ := exists_trimmed_append (Nat.toDigits 10 d.digits)
  apply hd
  rw [← digitsValue_toDigits d.digits, hn, hnil, List.nil_append, digitsValue_zeros]

/-- The digits that are left and the order make up the decimal. -/
theorem value_trimmed :
    (digitsValue (trimmed (Nat.toDigits 10 d.digits)) : ℚ)
      * 10 ^ (order d + 1 - (trimmed (Nat.toDigits 10 d.digits)).length) = d.value := by
  obtain ⟨n, hn⟩ := exists_trimmed_append (Nat.toDigits 10 d.digits)
  have hlength := congrArg List.length hn
  rw [List.length_append, List.length_replicate] at hlength
  have hexponent : order d + 1 - (trimmed (Nat.toDigits 10 d.digits)).length = d.exponent + n := by
    unfold order
    omega
  rw [hexponent, ← value_append_zeros, ← hn, digitsValue_toDigits, Decimal.value]

/-- A decimal that is neither too small nor too great is printed without an exponent. -/
theorem plainly_decimalText (hd : d.digits ≠ 0) (hlow : leastPositional ≤ order d)
    (hhigh : order d < positionalEnd) : Plainly (decimalText d).toList d.value := by
  have hrange : ¬(order d < leastPositional ∨ positionalEnd ≤ order d) := by omega
  rw [decimalText_eq, if_neg hrange, ← value_trimmed]
  exact plainly_positional (trimmed_ne_nil hd) isDigit_trimmed (order d)

/-- **A printed decimal spells its value.** -/
theorem spells_decimalText (hd : d.digits ≠ 0) : Spells (decimalText d).toList d.value := by
  by_cases hrange : order d < leastPositional ∨ positionalEnd ≤ order d
  · rw [decimalText_eq, if_pos hrange, ← value_trimmed]
    exact spells_scientific (trimmed_ne_nil hd) isDigit_trimmed (order d)
  · rw [not_or, Int.not_lt, Int.not_le] at hrange
    exact .plain (plainly_decimalText hd hrange.1 hrange.2)

end Decimal

/-! ## Printed magnitudes -/

/-- Every decimal that denotes the number is rounded to the magnitude. -/
def RoundsTo (q : ℚ) (bits : Nat) : Prop :=
  ∀ d : Decimal, d.value = q → d.toBits = bits

theorem roundsTo_value (d : Decimal) : RoundsTo d.value d.toBits :=
  fun _ h => Decimal.toBits_congr h

theorem magnitudeText_eq (bits : Nat) :
    magnitudeText bits = if units bits % unitsOfOne = 0 then toString (units bits / unitsOfOne)
      else decimalText (Decimal.shortest bits) := by
  rw [magnitudeText, ← unitExponent_eq]
  rfl

/-- A whole number is printed digit by digit. -/
theorem plainly_whole {bits : Nat} (hfinite : bits ≤ infinityBits)
    (hwhole : units bits % unitsOfOne = 0) :
    ∃ q, Plainly (magnitudeText bits).toList q ∧ RoundsTo q bits := by
  refine ⟨(units bits / unitsOfOne : Nat), ?_, ?_⟩
  · rw [magnitudeText_eq, if_pos hwhole, Nat.toString_eq_ofList_toDigits, String.toList_ofList]
    refine .whole Nat.toDigits_ne_nil ?_ (by rw [digitsValue_toDigits])
    exact fun c hc => Nat.isDigit_of_mem_toDigits (by omega) (by omega) hc
  · intro d hd
    apply Decimal.toBits_of_value hfinite
    rw [hd, Binary64.value, Nat.cast_div_charZero (Nat.dvd_of_mod_eq_zero hwhole)]

/-- Any other magnitude is not zero, and neither is its decimal. -/
theorem digits_shortest_ne_zero {bits : Nat} (hfinite : bits ≤ infinityBits)
    (hwhole : units bits % unitsOfOne ≠ 0) : (Decimal.shortest bits).digits ≠ 0 := by
  intro hzero
  have hbits := Decimal.toBits_shortest hfinite
  have hunits : units 0 = 0 := rfl
  rw [Decimal.toBits, if_pos hzero] at hbits
  rw [← hbits, hunits, Nat.zero_mod] at hwhole
  exact hwhole rfl

/-- **A printed magnitude spells a number that is rounded to it.** -/
theorem spells_magnitudeText {bits : Nat} (hfinite : bits ≤ infinityBits) :
    ∃ q, Spells (magnitudeText bits).toList q ∧ RoundsTo q bits := by
  by_cases hwhole : units bits % unitsOfOne = 0
  · obtain ⟨q, hspelled, hround⟩ := plainly_whole hfinite hwhole
    exact ⟨q, .plain hspelled, hround⟩
  · have hround := roundsTo_value (Decimal.shortest bits)
    rw [Decimal.toBits_shortest hfinite] at hround
    rw [magnitudeText_eq, if_neg hwhole]
    exact ⟨_, spells_decimalText (digits_shortest_ne_zero hfinite hwhole), hround⟩

/-! ## Printed numbers -/

/-- The characters of printed numbers are ordinary. -/
theorem isOrdinary_of_isNumberChar {c : Char} (h : isNumberChar c = true) : IsOrdinary c := by
  unfold isNumberChar at h
  rcases Bool.or_eq_true_iff.mp h with hc | hc
  · exact isOrdinary_of_isDigit hc
  · have hall : ".e+-infNa".toList.all
        (fun d => 0x20 < d.toNat && d.toNat < 0x80 && d != '_') = true := by decide
    have hspec := List.all_eq_true.mp hall c (List.contains_iff_mem.mp hc)
    simp only [Bool.and_eq_true, decide_eq_true_eq, bne_iff_ne] at hspec
    exact ⟨hspec.1.1, hspec.1.2, hspec.2⟩

/-- A sign in front of a numeral without one is read as the sign of the number. -/
theorem read?_signed {s : String} {m : Magnitude} (hs : IsNumeric s)
    (hsign : splitSign s.toList = (false, s.toList)) (hm : magnitude? s.toList = some m)
    (negative : Bool) :
    read? ((if negative then "-" else "") ++ s) = some (toFloat ⟨negative, m⟩) := by
  have hordinary : ∀ c ∈ s.toList, IsOrdinary c :=
    fun c hc => isOrdinary_of_isNumberChar (List.all_eq_true.mp hs c hc)
  unfold read?
  cases negative with
  | false =>
      have htext : ((if false then "-" else "") ++ s).toList = s.toList := by simp
      rw [htext, ofChars?_of_isOrdinary hordinary, hsign, hm]
      rfl
  | true =>
      have htext : ((if true then "-" else "") ++ s).toList = '-' :: s.toList := by simp
      have hminus : IsOrdinary '-' := isOrdinary_of_isNumberChar rfl
      have hall := List.forall_mem_cons.mpr ⟨hminus, hordinary⟩
      rw [htext, ofChars?_of_isOrdinary hall, splitSign, hm]
      rfl

/-- **A printed magnitude is read as itself**, with or without a minus. -/
theorem read?_magnitudeText {bits : Nat} (h : bits ≤ infinityBits) (negative : Bool) :
    read? ((if negative then "-" else "") ++ magnitudeText bits)
      = some (ofMagnitude negative bits) := by
  obtain ⟨q, hspelled, hround⟩ := spells_magnitudeText h
  obtain ⟨hsign, d, hm, hvalue⟩ := hspelled.magnitude?_eq
  rw [read?_signed (isNumeric_magnitudeText bits) hsign hm]
  simp only [toFloat, hround d hvalue]

/-- **A printed number is read as itself.** -/
theorem read?_text {x : Float} (h : magnitude x ≤ infinityBits) : read? (text x) = some x := by
  unfold text
  rw [if_neg (Nat.not_lt.mpr h)]
  by_cases hinfinite : magnitude x = infinityBits
  · have hinf : IsNumeric "inf" := by decide
    rw [if_pos hinfinite, read?_signed hinf rfl rfl]
    simp only [toFloat, ← hinfinite, ofMagnitude_magnitude]
  · rw [if_neg hinfinite, read?_magnitudeText h, ofMagnitude_magnitude]

/-- **Printed numbers lose nothing.**  Every double that is not a NaN, printed and read
again, has the same bits; so no two of them are printed alike. -/
theorem text_reads_back (x : Float) (hx : x.isNaN = false) :
    (∃ y, read? (text x) = some y ∧ y.toBits = x.toBits) ∧
      ∀ y : Float, y.isNaN = false → text y = text x → y.toBits = x.toBits := by
  have hread := read?_text (magnitude_le_of_isNaN hx)
  refine ⟨⟨x, hread, rfl⟩, ?_⟩
  intro y hy htext
  have hread' := read?_text (magnitude_le_of_isNaN hy)
  rw [htext, hread, Option.some_inj] at hread'
  rw [hread']

/-- The smallest positive double, with a minus. -/
theorem text_reads_back_subnormal :
    let x := Float.ofBits 0x8000000000000001
    x.isNaN = false ∧ text x = "-5e-324" ∧
      (∃ y, read? "-5e-324" = some y ∧ y.toBits = 0x8000000000000001) ∧
      ∀ y : Float, y.isNaN = false → text y = "-5e-324" → y.toBits = 0x8000000000000001 := by
  intro x
  have hnumber : x.isNaN = false := by decide +kernel
  have htext : text x = "-5e-324" := by decide +kernel
  have hbits : x.toBits = 0x8000000000000001 := by decide +kernel
  have hread := text_reads_back x hnumber
  rw [htext, hbits] at hread
  exact ⟨hnumber, htext, hread⟩

end Number

end LoxCalc
