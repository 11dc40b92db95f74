import LoxCalc.Number.Numeral
import LoxCalc.Proofs.Lexical

/-!
# Plain numerals

The numbers of a source text are plain: digits, and perhaps a point with more
digits after it.  Reading such a numeral goes through every stage of the
general reader without being changed or refused, and gives the decimal number
that the digits spell.
-/

namespace LoxCalc.Numeral

open Text

/-- The characters that the reader leaves alone: the visible ones of ASCII, except the
underscore. -/
structure IsOrdinary (c : Char) : Prop where
  visible : 0x20 < c.toNat
  ascii : c.toNat < 0x80
  ne_underscore : c ≠ '_'

namespace IsOrdinary

variable {c : Char}

theorem plain_eq (hc : IsOrdinary c) : plain c = c := by
  rw [plain, if_pos hc.ascii]

theorem isMargin_eq (hc : IsOrdinary c) : isMargin c = false := by
  have hvisible := hc.visible
  have hspace : c ≠ ' ' := by
    rintro rfl
    simp at hvisible
  simp only [isMargin, Bool.or_eq_false_iff, Bool.and_eq_false_iff, decide_eq_false_iff_not,
    beq_eq_false_iff_ne]
  exact ⟨hspace, .inr (by omega)⟩

end IsOrdinary

/-- The characters of plain numerals. -/
def IsPlain (c : Char) : Prop :=
  c.isDigit = true ∨ c = '.'

theorem isOrdinary_of_isDigit {c : Char} (hc : c.isDigit = true) : IsOrdinary c := by
  have hcode := toNat_of_isDigit hc
  exact ⟨by omega, by omega, ne_of_isDigit hc rfl⟩

theorem IsPlain.isOrdinary {c : Char} (hc : IsPlain c) : IsOrdinary c := by
  rcases hc with hc | rfl
  · exact isOrdinary_of_isDigit hc
  · exact ⟨by decide, by decide, by decide⟩

/-- A text without characters of a class is not stripped of them. -/
theorem strip_of_forall_not {p : Char → Bool} {cs : List Char} (h : ∀ c ∈ cs, p c = false) :
    strip p cs = cs := by
  have hdrop : ∀ l : List Char, (∀ c ∈ l, p c = false) → l.dropWhile p = l := by
    intro l hl
    cases l with
    | nil => rfl
    | cons c l => simp [hl c List.mem_cons_self]
  unfold strip
  rw [hdrop cs h, hdrop cs.reverse (by simpa using h), List.reverse_reverse]

/-- A text without underscores is joined as it is. -/
theorem joinDigits?_of_forall_ne {cs : List Char} (h : ∀ c ∈ cs, c ≠ '_') (after : Bool) :
    joinDigits? after cs = some cs := by
  induction cs generalizing after with
  | nil => rfl
  | cons c cs ih =>
      rw [joinDigits?, if_neg (h c List.mem_cons_self),
        ih (fun d hd => h d (List.mem_cons_of_mem _ hd))]
      rfl

/-- A text of ordinary characters comes unchanged to where its sign is split off. -/
theorem ofChars?_of_isOrdinary {cs : List Char} (h : ∀ c ∈ cs, IsOrdinary c) :
    ofChars? cs = (magnitude? (splitSign cs).2).map fun m => ⟨(splitSign cs).1, m⟩ := by
  have hplain : cs.map plain = cs := by
    conv => rhs; rw [← List.map_id cs]
    exact List.map_congr_left fun c hc => (h c hc).plain_eq
  unfold ofChars?
  rw [hplain, strip_of_forall_not fun c hc => (h c hc).isMargin_eq,
    joinDigits?_of_forall_ne fun c hc => (h c hc).ne_underscore]
  simp only [Option.bind_eq_bind, Option.bind_some]
  cases magnitude? (splitSign cs).2 <;> rfl

/-- A text that starts with a digit has no sign. -/
theorem splitSign_of_isDigit {c : Char} (hc : c.isDigit = true) (cs : List Char) :
    splitSign (c :: cs) = (false, c :: cs) := by
  unfold splitSign
  split
  · next heq =>
    obtain ⟨rfl, -⟩ := List.cons.inj heq
    cases hc
  · next heq =>
    obtain ⟨rfl, -⟩ := List.cons.inj heq
    cases hc
  · rfl

/-- A digit is its own lower case. -/
theorem toLower_of_isDigit {c : Char} (hc : c.isDigit = true) : c.toLower = c := by
  unfold Char.toLower
  rw [dif_neg]
  rintro ⟨hupper, -⟩
  have hcode : 65 ≤ c.toNat := UInt32.le_iff_toNat_le.mp hupper
  have := toNat_of_isDigit hc
  omega

/-- A text that starts with a digit is none of the words for infinity and NaN. -/
theorem magnitude?_of_isDigit {c : Char} (hc : c.isDigit = true) (cs : List Char) :
    magnitude? (c :: cs) = (decimal? (c :: cs)).map .decimal := by
  have hword : ∀ word : String, word.toList.head?.any Char.isDigit = false →
      String.ofList ((c :: cs).map Char.toLower) ≠ word := by
    rintro word hhead rfl
    rw [String.toList_ofList, List.map_cons, toLower_of_isDigit hc] at hhead
    simp [hc] at hhead
  have hinf := hword "inf" rfl
  have hinfinity := hword "infinity" rfl
  have hnan := hword "nan" rfl
  simp only [magnitude?, hinf, hinfinity, hnan, or_self, if_false]

/-- A plain numeral that starts with a digit is read as it stands. -/
theorem ofChars?_of_isPlain {c : Char} {cs : List Char} (hc : c.isDigit = true)
    (hcs : ∀ d ∈ cs, IsPlain d) :
    ofChars? (c :: cs) = (decimal? (c :: cs)).map fun d => ⟨false, .decimal d⟩ := by
  have hall : ∀ d ∈ c :: cs, IsOrdinary d := by
    intro d hd
    rcases List.mem_cons.mp hd with rfl | hd
    · exact isOrdinary_of_isDigit hc
    · exact (hcs d hd).isOrdinary
  rw [ofChars?_of_isOrdinary hall, splitSign_of_isDigit hc, magnitude?_of_isDigit hc,
    Option.map_map]
  rfl

/-- Digits alone denote a whole number. -/
theorem ofChars?_whole {ds : List Char} (hne : ds ≠ []) (hds : ∀ d ∈ ds, d.isDigit = true) :
    ofChars? ds = some ⟨false, .decimal ⟨digitsValue ds, 0⟩⟩ := by
  have hdecimal : decimal? ds = some ⟨digitsValue ds, 0⟩ := by
    simp [decimal?, takeWhile_eq_self hds, dropWhile_eq_nil hds, splitFraction, exponent?, hne]
  cases ds with
  | nil => exact absurd rfl hne
  | cons c cs =>
      have hcs : ∀ d ∈ cs, IsPlain d := fun d hd => .inl (hds d (List.mem_cons_of_mem _ hd))
      rw [ofChars?_of_isPlain (hds c List.mem_cons_self) hcs, hdecimal]
      rfl

/-- Digits with a point between them denote a decimal fraction. -/
theorem ofChars?_fraction {ds fs : List Char} (hne : ds ≠ []) (hds : ∀ d ∈ ds, d.isDigit = true)
    (hfs : ∀ d ∈ fs, d.isDigit = true) :
    ofChars? (ds ++ '.' :: fs)
      = some ⟨false, .decimal ⟨digitsValue (ds ++ fs), -fs.length⟩⟩ := by
  have hdecimal : decimal? (ds ++ '.' :: fs) = some ⟨digitsValue (ds ++ fs), -fs.length⟩ := by
    simp [decimal?, takeWhile_append_cons hds, dropWhile_append_cons hds, takeWhile_eq_self hfs,
      dropWhile_eq_nil hfs, splitFraction, exponent?, hne]
  cases ds with
  | nil => exact absurd rfl hne
  | cons c cs =>
      have hcs : ∀ d ∈ cs ++ '.' :: fs, IsPlain d := by
        intro d hd
        rcases List.mem_append.mp hd with hd | hd
        · exact .inl (hds d (List.mem_cons_of_mem _ hd))
        rcases List.mem_cons.mp hd with rfl | hd
        · exact .inr rfl
        · exact .inl (hfs d hd)
      rw [List.cons_append] at hdecimal ⊢
      rw [ofChars?_of_isPlain (hds c List.mem_cons_self) hcs, hdecimal]
      rfl

/-- **The numbers of a source text are numerals.** -/
theorem read?_of_lexical {cs rest : List Char} (h : Lexical .number cs rest) :
    ∃ x, read? (String.ofList cs) = some x := by
  unfold read?
  rw [String.toList_ofList]
  cases h with
  | whole hne hds => exact ⟨_, by rw [ofChars?_whole hne hds]; rfl⟩
  | fraction hne hds hfne hfs => exact ⟨_, by rw [ofChars?_fraction hne hds hfs]; rfl⟩

end LoxCalc.Numeral
