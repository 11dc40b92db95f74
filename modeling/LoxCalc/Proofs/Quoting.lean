import LoxCalc.Text.Quoted

/-!
# Quoted texts can be read

A quoted text is read character by character: `unescape` takes the character at
its front off again, whether it stands for itself, is escaped, or is written as
its code.  The quote itself stands inside in escaped form only, so the text ends
where it stands alone.

* `hexValue_hexDigits`: codes can be read;
* `unescape_escape`: so can every character between quotes;
* `quotedChars_append_inj`: two quoted texts at the front of one text are the
  same, and so is what follows them;
* `newline_notMem_quotedChars`: a quoted text stays on one line.
-/

namespace LoxCalc.Text

/-! ## Codes -/

/-- The value of a hexadecimal digit. -/
def hexDigitValue (d : Char) : Nat :=
  if d.isDigit then d.toNat - 48 else d.toNat - 87

/-- The number that hexadecimal digits spell. -/
def hexValue (ds : List Char) : Nat :=
  ds.foldl (fun n d => 16 * n + hexDigitValue d) 0

theorem hexDigitValue_digitChar : ∀ n < 16, hexDigitValue (Nat.digitChar n) = n := by
  decide

theorem length_hexDigits (width n : Nat) : (hexDigits width n).length = width := by
  induction width generalizing n with
  | zero => rfl
  | succ width ih => rw [hexDigits, List.length_append, ih, List.length_singleton]

/-- A number that fits into the digits can be read from them. -/
theorem hexValue_hexDigits {width n : Nat} (h : n < Nat.pow 16 width) :
    hexValue (hexDigits width n) = n := by
  induction width generalizing n with
  | zero => exact (Nat.lt_one_iff.mp h).symm
  | succ width ih =>
      have hhigh : n / 16 < Nat.pow 16 width := by
        have hwide : n < Nat.pow 16 width * 16 := h
        exact Nat.div_lt_of_lt_mul (by rwa [Nat.mul_comm])
      have hlow : n % 16 < 16 := Nat.mod_lt _ (by decide)
      have hstep : hexValue (hexDigits (width + 1) n)
          = 16 * hexValue (hexDigits width (n / 16)) + hexDigitValue (Nat.digitChar (n % 16)) := by
        rw [hexValue, hexDigits, List.foldl_append]
        rfl
      rw [hstep, ih hhigh, hexDigitValue_digitChar _ hlow]
      exact Nat.div_add_mod n 16

/-! ## Characters between quotes -/

/-- Takes a code of some width off the front of a text. -/
def takeCode (width : Nat) (cs : List Char) : Char × List Char :=
  (Char.ofNat (hexValue (cs.take width)), cs.drop width)

/-- Takes the rest of an escape off, after its backslash. -/
def takeEscape : List Char → Option (Char × List Char)
  | [] => none
  | 'n' :: cs => some ('\n', cs)
  | 'r' :: cs => some ('\r', cs)
  | 't' :: cs => some ('\t', cs)
  | 'x' :: cs => some (takeCode 2 cs)
  | 'u' :: cs => some (takeCode 4 cs)
  | 'U' :: cs => some (takeCode 8 cs)
  | c :: cs => some (c, cs)

/-- Takes the first character off a text between quotes. -/
def unescape : List Char → Option (Char × List Char)
  | [] => none
  | c :: cs => if c = '\\' then takeEscape cs else some (c, cs)

/-- The character is one of the quotes. -/
def IsQuoteMark (q : Char) : Prop :=
  q = '\x27' ∨ q = '\x22'

variable {q c c' : Char} {cs cs' rest rest' : List Char}

theorem isQuoteMark_quoteFor (cs : List Char) : IsQuoteMark (quoteFor cs) := by
  unfold quoteFor
  split
  · exact .inr rfl
  · exact .inl rfl

theorem IsQuoteMark.ne_backslash (hq : IsQuoteMark q) : q ≠ '\\' := by
  rcases hq with rfl | rfl <;> decide

theorem IsQuoteMark.ne_newline (hq : IsQuoteMark q) : q ≠ '\n' := by
  rcases hq with rfl | rfl <;> decide

theorem takeCode_hexDigits (width : Nat) (h : c.toNat < Nat.pow 16 width) (rest : List Char) :
    takeCode width (hexDigits width c.toNat ++ rest) = (c, rest) := by
  have hlength := length_hexDigits width c.toNat
  rw [takeCode, List.take_left' hlength, List.drop_left' hlength, hexValue_hexDigits h,
    Char.ofNat_toNat]

theorem unescape_escapeCode (c : Char) (rest : List Char) :
    unescape (escapeCode c.toNat ++ rest) = some (c, rest) := by
  have hcode : c.toNat < Nat.pow 16 8 := c.val.toNat_lt
  unfold escapeCode
  split
  · next hcode => exact congrArg some (takeCode_hexDigits 2 hcode rest)
  split
  · next hcode => exact congrArg some (takeCode_hexDigits 4 hcode rest)
  · exact congrArg some (takeCode_hexDigits 8 hcode rest)

/-- **Every character between quotes can be read.** -/
theorem unescape_escape (hq : IsQuoteMark q) (c : Char) (rest : List Char) :
    unescape (escape q c ++ rest) = some (c, rest) := by
  unfold escape
  split
  · next hc =>
    rcases hc with rfl | rfl
    · rcases hq with rfl | rfl <;> rfl
    · rfl
  · next hc =>
    have hplain : unescape (c :: rest) = some (c, rest) :=
      if_neg fun hbackslash => hc (.inr hbackslash)
    split
    · next hfeed => rw [hfeed]; rfl
    split
    · next hreturn => rw [hreturn]; rfl
    split
    · next htab => rw [htab]; rfl
    split
    · exact hplain
    · exact unescape_escapeCode c rest

/-! ## Texts between quotes -/

/-- The quote does not stand alone inside. -/
theorem escape_append_ne (hq : IsQuoteMark q) (c : Char) (rest rest' : List Char) :
    escape q c ++ rest ≠ q :: rest' := by
  intro h
  have hread := unescape_escape hq c rest
  have hplain : unescape (q :: rest') = some (q, rest') := if_neg hq.ne_backslash
  rw [h, hplain] at hread
  -- what is read is the quote, and that one is escaped
  obtain ⟨rfl, -⟩ := Prod.mk.inj (Option.some.inj hread)
  rw [escape, if_pos (.inl rfl)] at h
  exact hq.ne_backslash (List.cons.inj h).1.symm

/-- Texts that the same quote ends are the same. -/
theorem escaped_append_inj (hq : IsQuoteMark q)
    (h : cs.flatMap (escape q) ++ q :: rest = cs'.flatMap (escape q) ++ q :: rest') :
    cs = cs' ∧ rest = rest' := by
  induction cs generalizing cs' with
  | nil =>
      cases cs' with
      | nil => exact ⟨rfl, (List.cons.inj h).2⟩
      | cons c' cs' =>
          rw [List.flatMap_cons, List.append_assoc] at h
          exact absurd h.symm (escape_append_ne hq _ _ _)
  | cons c cs ih =>
      rw [List.flatMap_cons, List.append_assoc] at h
      cases cs' with
      | nil => exact absurd h (escape_append_ne hq _ _ _)
      | cons c' cs' =>
          rw [List.flatMap_cons, List.append_assoc] at h
          have hread := congrArg unescape h
          rw [unescape_escape hq, unescape_escape hq] at hread
          obtain ⟨rfl, hbody⟩ := Prod.mk.inj (Option.some.inj hread)
          obtain ⟨rfl, hrest⟩ := ih hbody
          exact ⟨rfl, hrest⟩

/-- **Two quoted texts at the front of one text are the same**, and the same
follows them. -/
theorem quotedChars_append_inj (h : quotedChars cs ++ rest = quotedChars cs' ++ rest') :
    cs = cs' ∧ rest = rest' := by
  simp only [quotedChars, List.cons_append, List.append_assoc, List.nil_append,
    List.cons.injEq] at h
  obtain ⟨hquote, hbody⟩ := h
  rw [← hquote] at hbody
  exact escaped_append_inj (isQuoteMark_quoteFor cs) hbody

/-! ## Line feeds -/

theorem newline_notMem_hexDigits (width n : Nat) : '\n' ∉ hexDigits width n := by
  induction width generalizing n with
  | zero => exact List.not_mem_nil
  | succ width ih =>
      have hdigit : ∀ d < 16, '\n' ≠ Nat.digitChar d := by decide
      rw [hexDigits, List.mem_append, List.mem_singleton, not_or]
      exact ⟨ih (n / 16), hdigit _ (Nat.mod_lt n (by decide))⟩

theorem newline_notMem_escapeCode (n : Nat) : '\n' ∉ escapeCode n := by
  unfold escapeCode
  split
  · simp [newline_notMem_hexDigits]
  split <;> simp [newline_notMem_hexDigits]

/-- No line feed is left between quotes: it has an escape of its own. -/
theorem newline_notMem_escape (hq : IsQuoteMark q) (c : Char) : '\n' ∉ escape q c := by
  unfold escape
  split
  · next hc =>
    have hne : c ≠ '\n' := by
      rcases hc with rfl | rfl
      · exact hq.ne_newline
      · decide
    simp [hne.symm]
  · split
    · decide
    · next hfeed =>
      split
      · decide
      split
      · decide
      split
      · simpa using Ne.symm hfeed
      · exact newline_notMem_escapeCode _

/-- **A quoted text stays on one line**, whatever the text is. -/
theorem newline_notMem_quotedChars (cs : List Char) : '\n' ∉ quotedChars cs := by
  have hq := isQuoteMark_quoteFor cs
  intro hmem
  simp only [quotedChars, List.cons_append, List.mem_cons, List.mem_append, List.mem_flatMap,
    List.not_mem_nil, or_false] at hmem
  rcases hmem with h | ⟨c, -, hc⟩ | h
  · exact hq.ne_newline h.symm
  · exact newline_notMem_escape hq c hc
  · exact hq.ne_newline h.symm

end LoxCalc.Text
