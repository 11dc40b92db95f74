import LoxCalc.Expr.Eval
import LoxCalc.Proofs.NumberTexts
import LoxCalc.Proofs.Verdicts

/-!
# Printed numbers as source texts

A printed number that is whole, or not too small, is an expression with this
number as its value.  Three things fit together.

* Such a number is printed without an exponent, which the grammar of source texts
  does not have (`plainly_magnitudeText`).  Of the numbers with a fraction only small ones
  are printed with an exponent, since none is great enough for it (`order_shortest_lt`).
* A numeral is scanned as one token.  A minus in front of it is a token of its own,
  which is parsed as an operator (`accepted_numeral`).
* Negating what the numeral is read as gives the number with its sign
  (`eval_numberTree`).
-/

namespace LoxCalc

open Binary64 Numeral

namespace Number

/-! ## Orders of magnitude -/

/-- A decimal is less than the next power of ten. -/
theorem value_lt (d : Decimal) : d.value < 10 ^ (order d + 1) := by
  have hdigits : d.digits < 10 ^ (Nat.toDigits 10 d.digits).length :=
    (Nat.length_toDigits_le_iff (by omega) Nat.length_toDigits_pos).mp (Nat.le_refl _)
  have hexponent : order d + 1 = ((Nat.toDigits 10 d.digits).length : Int) + d.exponent := by
    unfold order
    omega
  rw [hexponent, zpow_add₀ (by norm_num), zpow_natCast, Decimal.value]
  apply mul_lt_mul_of_pos_right _ (by positivity)
  exact_mod_cast hdigits

/-- A decimal is not less than the power of ten of its order. -/
theorem le_value {d : Decimal} (hd : d.digits ≠ 0) : 10 ^ order d ≤ d.value := by
  obtain ⟨n, hn⟩ : ∃ n, (Nat.toDigits 10 d.digits).length = n + 1 :=
    Nat.exists_eq_add_one.mpr Nat.length_toDigits_pos
  have hdigits : 10 ^ n ≤ d.digits := by
    by_contra hlt
    have hpos : 0 < n := by
      rcases Nat.eq_zero_or_pos n with rfl | hpos
      · rw [pow_zero] at hlt
        omega
      · exact hpos
    have hshort := (Nat.length_toDigits_le_iff (by omega) hpos).mpr (Nat.not_le.mp hlt)
    omega
  have hexponent : order d = (n : Int) + d.exponent := by
    unfold order
    omega
  rw [hexponent, zpow_add₀ (by norm_num), zpow_natCast, Decimal.value]
  apply mul_le_mul_of_nonneg_right _ (by positivity)
  exact_mod_cast hdigits

theorem value_power (k : Int) : (Decimal.mk 1 k).value = 10 ^ k := by
  rw [Decimal.value, Nat.cast_one, one_mul]

/-- **No number from a ten-thousandth on is printed with an exponent.**  A smaller
decimal is rounded to no greater magnitude, and the decimal that is found for the
magnitude of a ten-thousandth is a ten-thousandth. -/
theorem leastPositional_le_order {bits : Nat} (hfinite : bits ≤ infinityBits)
    (h : (Decimal.mk 1 leastPositional).toBits ≤ bits) :
    leastPositional ≤ order (Decimal.shortest bits) := by
  have hself : Decimal.shortest (Decimal.mk 1 leastPositional).toBits = ⟨1, leastPositional⟩ := by
    decide +kernel
  by_contra hlt
  have hvalue : (Decimal.shortest bits).value ≤ (Decimal.mk 1 leastPositional).value := by
    rw [value_power]
    calc (Decimal.shortest bits).value ≤ 10 ^ (order (Decimal.shortest bits) + 1) :=
          (value_lt _).le
      _ ≤ 10 ^ leastPositional := zpow_le_zpow_right₀ (by norm_num) (by omega)
  have hle := Decimal.toBits_mono hvalue
  rw [Decimal.toBits_shortest hfinite] at hle
  rw [Nat.le_antisymm hle h, hself] at hlt
  exact hlt (by decide)

/-- **No fraction reaches ten to the sixteenth**, from where on there is an exponent again:
the steps between magnitudes are whole numbers by then. -/
theorem order_shortest_lt {bits : Nat} (hfinite : bits ≤ infinityBits)
    (hfraction : units bits % unitsOfOne ≠ 0) :
    order (Decimal.shortest bits) < positionalEnd := by
  have hbound : 1075 * Nat.pow 2 52 ≤ (Decimal.mk 1 positionalEnd).toBits := by decide +kernel
  by_contra hlt
  have hvalue : (Decimal.mk 1 positionalEnd).value ≤ (Decimal.shortest bits).value := by
    rw [value_power]
    calc (10 : ℚ) ^ positionalEnd ≤ 10 ^ order (Decimal.shortest bits) :=
          zpow_le_zpow_right₀ (by norm_num) (Int.not_lt.mp hlt)
      _ ≤ _ := le_value (digits_shortest_ne_zero hfinite hfraction)
  have hle := Decimal.toBits_mono hvalue
  rw [Decimal.toBits_shortest hfinite] at hle
  apply hfraction
  apply Nat.mod_eq_zero_of_dvd
  have hscale : unitExponent ≤ scale bits := by
    have hsteps : 1075 ≤ bits / Nat.pow 2 52 :=
      (Nat.le_div_iff_mul_le (Nat.two_pow_pos 52)).mpr (Nat.le_trans hbound hle)
    rw [unitExponent_eq, scale]
    omega
  exact pow_dvd_units hscale

/-- The magnitude of a number that is not smaller than a ten-thousandth. -/
theorem toBits_le_magnitude {x : Float} (hx : magnitude x ≤ infinityBits)
    (h : (0.0001 : Float) ≤ x.abs) : (Decimal.mk 1 leastPositional).toBits ≤ magnitude x := by
  have hbits : magnitude 0.0001 = (Decimal.mk 1 leastPositional).toBits := by decide +kernel
  have hnumber : magnitude 0.0001 ≤ infinityBits := by decide +kernel
  have hpositive : isNegative 0.0001 = false := by decide +kernel
  rw [← hbits]
  exact magnitude_le_of_le_abs hx hnumber hpositive h

/-- The units of a whole number. -/
theorem units_mod_of_value {bits n : Nat} (h : value bits = n) : units bits % unitsOfOne = 0 := by
  rw [value, div_eq_iff (Nat.cast_ne_zero.mpr unitsOfOne_pos.ne')] at h
  have hunits : units bits = n * unitsOfOne := by exact_mod_cast h
  rw [hunits]
  exact Nat.mul_mod_left n unitsOfOne

/-- **A number that is whole or not too small is printed without an exponent.** -/
theorem plainly_magnitudeText {bits : Nat} (hfinite : bits ≤ infinityBits)
    (h : units bits % unitsOfOne = 0 ∨ (Decimal.mk 1 leastPositional).toBits ≤ bits) :
    ∃ q, Plainly (magnitudeText bits).toList q := by
  by_cases hwhole : units bits % unitsOfOne = 0
  · obtain ⟨q, hspelled, -⟩ := plainly_whole hfinite hwhole
    exact ⟨q, hspelled⟩
  · rw [magnitudeText_eq, if_neg hwhole]
    exact ⟨_, plainly_decimalText (digits_shortest_ne_zero hfinite hwhole)
      (leastPositional_le_order hfinite (h.resolve_left hwhole))
      (order_shortest_lt hfinite hwhole)⟩

end Number

/-! ## Numerals as source texts -/

/-- A plain numeral is a number of a source text. -/
theorem Numeral.Plainly.lexical {cs : List Char} {q : ℚ} (h : Plainly cs q) :
    Lexical .number cs [] := by
  cases h with
  | whole hne hds => exact .whole hne hds
  | fraction hne hds hfne hfs => exact .fraction hne hds hfne hfs

/-- The minus in front of a numeral. -/
def minusToken : Token :=
  ⟨.symbol .minus, "-", 1, none⟩

/-- The tree of a numeral, or of its negation. -/
def numberTree (negative : Bool) (numeral : String) : Expr :=
  if negative then .unary minusToken (.literal .number (some numeral))
  else .literal .number (some numeral)

/-- No symbol goes on after a minus. -/
theorem first_minus (cs : List Char) : Segment.first '-' cs = ⟨.symbol .minus, ['-']⟩ := by
  have hpair : pairSymbol? '-' cs = none := by
    rw [Option.eq_none_iff_forall_ne_some]
    intro s hs
    obtain ⟨d, v, -, htext⟩ := pairSymbol?_eq_some_iff.mp hs
    have hshape : s.text.toList.head? = some '-' ∧ s.text.toList.length = 2 := by
      rw [htext]
      exact ⟨rfl, rfl⟩
    revert hshape
    cases s <;> decide
  have hfirst : Segment.first '-' cs = Segment.symbolOrStray '-' cs := rfl
  rw [hfirst, Segment.symbolOrStray, hpair]
  rfl

/-- How a numeral, with or without a minus, is cut. -/
theorem cut_numeral {cs : List Char} (h : Lexical .number cs []) :
    Cut cs [⟨.number, cs⟩] ∧ Cut ('-' :: cs) [⟨.symbol .minus, ['-']⟩, ⟨.number, cs⟩] := by
  have hcut := Cut.cons (s := ⟨.number, cs⟩) h.longest_nil .nil
  rw [List.append_nil] at hcut
  have hminus : Longest ⟨.symbol .minus, ['-']⟩ cs := longest_of_first_eq rfl (first_minus cs)
  exact ⟨hcut, .cons hminus hcut⟩

/-- The tokens of a numeral, with or without a minus. -/
theorem scan_numeral {numeral : String} (h : Lexical .number numeral.toList []) (negative : Bool) :
    (scan ((if negative then "-" else "") ++ numeral)).errors = [] ∧
      (scan ((if negative then "-" else "") ++ numeral)).tokens
        = (if negative then [minusToken] else [])
          ++ [⟨.number, numeral, 1, some numeral⟩] ++ [Token.endOfSource 1] := by
  have hline : ∀ line, Segment.lineAfter line ⟨.number, numeral.toList⟩ = line := by
    intro line
    have hcount : numeral.toList.count '\n' = 0 :=
      List.count_eq_zero.mpr (h.newline_notMem (by simp))
    rw [Segment.lineAfter, hcount]
    exact Int.add_zero line
  obtain ⟨hcut, hcut'⟩ := cut_numeral h
  cases negative with
  | false =>
      have htext : ((if false then "-" else "") ++ numeral).toList = numeral.toList := by simp
      rw [scan, htext, Scan.ofChars, ← cut_iff.mp hcut]
      simp [Scan.ofSegments, hline, Segment.token?, Segment.diagnostic?]
  | true =>
      have htext : ((if true then "-" else "") ++ numeral).toList = '-' :: numeral.toList := by simp
      have hline' : Segment.lineAfter 1 ⟨.symbol .minus, ['-']⟩ = 1 := rfl
      rw [scan, htext, Scan.ofChars, ← cut_iff.mp hcut']
      simp [Scan.ofSegments, hline, hline', Segment.token?, Segment.diagnostic?, minusToken]

/-- **A numeral is an expression**, with or without a minus. -/
theorem accepted_numeral {numeral : String} (h : Lexical .number numeral.toList [])
    (negative : Bool) :
    Accepted ((if negative then "-" else "") ++ numeral) (numberTree negative numeral) := by
  obtain ⟨herrors, htokens⟩ := scan_numeral h negative
  have hnumber : Derives .primary [⟨.number, numeral, 1, some numeral⟩]
      (.literal .number (some numeral)) := .literal rfl
  refine ⟨herrors, ?_, by cases negative <;> rfl⟩
  obtain ⟨p, hp, hfresh, hsplit, -⟩ :=
    Parser.ofTokens_scan ((if negative then "-" else "") ++ numeral)
  have hahead := (List.append_inj' (hsplit.symm.trans htokens) rfl).1
  refine ⟨p, hp, (Parser.parse_eq_some_iff hfresh).mpr ?_⟩
  rw [hahead]
  cases negative with
  | false => exact .expression (hnumber.plain.loosen (by decide))
  | true =>
      have hminus : minusToken.isUnary = true := rfl
      exact .expression ((hnumber.plain.prefixed hminus).loosen (by decide))

/-- **The value of a numeral, with or without a minus.** -/
theorem eval_numberTree {numeral : String} {bits : Nat} (hbits : bits ≤ infinityBits)
    (hread : read? numeral = some (ofMagnitude false bits)) (negative : Bool) :
    (numberTree negative numeral).eval? = .ok (.number (ofMagnitude negative bits)) := by
  have hliteral : Expr.evalLiteral .number (some numeral)
      = .ok (.number (ofMagnitude false bits)) := by
    simp only [Expr.evalLiteral, numberOfText, hread]
    rfl
  have hheight : (numberTree negative numeral).height ≤ Expr.levels 3 := by
    have hlevels : 2 ≤ Expr.levels 3 := by decide
    cases negative with
    | false => exact Nat.le_of_succ_le hlevels
    | true => exact hlevels
  rw [Expr.eval?, Expr.evalWithin_of_height_le hheight]
  cases negative with
  | false => exact hliteral
  | true =>
      have hneg : -ofMagnitude false bits = ofMagnitude true bits := neg_ofMagnitude false hbits
      rw [numberTree, if_pos rfl, Expr.eval, Expr.eval, hliteral, ← hneg]
      rfl

/-- A finite number is printed as its sign and its magnitude. -/
theorem Number.text_of_finite {x : Float} (h : magnitude x < infinityBits) :
    text x = (if isNegative x then "-" else "") ++ magnitudeText (magnitude x) := by
  rw [text, if_neg (Nat.not_lt.mpr h.le), if_neg h.ne]

/-- **An ordinary printed number is an expression with that number as its value.**
This holds of every finite number that is whole, a negative zero included, or not
smaller than a ten-thousandth.  The tree is that of a numeral, under a minus if the
number has its sign bit set, and evaluates to the same bits. -/
theorem printed_number_evaluates (x : Float) (hfinite : x.isFinite = true)
    (hx : (∃ n : Nat, value (magnitude x) = n) ∨ (0.0001 : Float) ≤ x.abs) :
    ∃ p numeral y, (scan (Number.text x)).errors = [] ∧
      Parser.ofTokens (scan (Number.text x)).tokens = .ok p ∧
      p.parse.1 = some (numberTree (isNegative x) numeral) ∧ p.parse.2.errors = [] ∧
      (scan (Number.text x)).expr = .ok (numberTree (isNegative x) numeral) ∧
      (numberTree (isNegative x) numeral).eval? = .ok (.number y) ∧ y.toBits = x.toBits := by
  have hlt := magnitude_lt_of_isFinite hfinite
  have hordinary : units (magnitude x) % unitsOfOne = 0 ∨
      (Decimal.mk 1 Number.leastPositional).toBits ≤ magnitude x := by
    rcases hx with ⟨n, hn⟩ | hle
    · exact .inl (Number.units_mod_of_value hn)
    · exact .inr (Number.toBits_le_magnitude hlt.le hle)
  obtain ⟨q, hspelled⟩ := Number.plainly_magnitudeText hlt.le hordinary
  have haccepted := accepted_numeral hspelled.lexical (isNegative x)
  rw [← Number.text_of_finite hlt] at haccepted
  have hread := Number.read?_magnitudeText hlt.le false
  obtain ⟨p, hp, hparse⟩ := haccepted.parsed
  refine ⟨p, _, x, haccepted.errors, hp, hparse, ?_, haccepted.expr, ?_, rfl⟩
  · exact (Parser.errors_parse_eq_nil_iff p).mpr ⟨_, hparse⟩
  · rw [eval_numberTree hlt.le (by simpa using hread), ofMagnitude_magnitude]

/-- A negative ten-thousandth, the first number that has no exponent. -/
theorem printed_number_evaluates_least :
    let x := Float.neg 0.0001
    x.isFinite = true ∧ (0.0001 : Float) ≤ x.abs ∧ Number.text x = "-0.0001" ∧
      ∃ numeral y, (scan "-0.0001").expr = .ok (numberTree true numeral) ∧
        (numberTree true numeral).eval? = .ok (.number y) ∧ y.toBits = x.toBits := by
  intro x
  have hfinite : x.isFinite = true := by decide +kernel
  have hle : (0.0001 : Float) ≤ x.abs := by decide +kernel
  have htext : Number.text x = "-0.0001" := by decide +kernel
  have hnegative : isNegative x = true := by decide +kernel
  obtain ⟨p, numeral, y, -, -, -, -, hexpr, heval, hbits⟩ :=
    printed_number_evaluates x hfinite (.inr hle)
  rw [htext, hnegative] at hexpr
  rw [hnegative] at heval
  exact ⟨hfinite, hle, htext, numeral, y, hexpr, heval, hbits⟩

end LoxCalc
