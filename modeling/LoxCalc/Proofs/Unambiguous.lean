import LoxCalc.Proofs.ReadBack

/-!
# The echo is unambiguous

The echo of a tree that was read from a text can be taken apart again.  A node
with operands starts with a parenthesis and the name of its operator, which a
blank ends.  A string ends at the next quote, since no string of a text has a
quote in it.  A number or a word is **bare**: there is neither a blank nor a
parenthesis nor a quote in it, and so it ends where one of these stands.

* `Number.isNumeric_text`: the characters of printed numbers;
* `Echoed.decode`: two echoes at the front of one text are echoes of matching
  trees, and the same is left after them.

All that is lost in an echo are the lines of operators and how a number was
written.
-/

namespace LoxCalc

/-! ## Printed numbers -/

namespace Number

/-- The characters of printed numbers. -/
def isNumberChar (c : Char) : Bool :=
  c.isDigit || ".e+-infNa".toList.contains c

/-- The text consists of characters of printed numbers. -/
def IsNumeric (s : String) : Prop :=
  s.toList.all isNumberChar = true

instance (s : String) : Decidable (IsNumeric s) :=
  inferInstanceAs (Decidable (_ = true))

theorem IsNumeric.append {s t : String} (hs : IsNumeric s) (ht : IsNumeric t) :
    IsNumeric (s ++ t) := by
  unfold IsNumeric at *
  rw [String.toList_append, List.all_append, hs, ht]
  rfl

/-- Digits are characters of printed numbers. -/
theorem isNumeric_ofList {ds : List Char} (h : ∀ c ∈ ds, c.isDigit = true) :
    IsNumeric (String.ofList ds) := by
  unfold IsNumeric
  rw [String.toList_ofList, List.all_eq_true]
  intro c hc
  rw [isNumberChar, h c hc]
  rfl

theorem isNumeric_toString (n : Nat) : IsNumeric (toString n) := by
  rw [Nat.toString_eq_ofList_toDigits]
  exact isNumeric_ofList fun _ => Nat.isDigit_of_mem_toDigits (by decide) (by decide)

theorem isNumeric_twoDigits (n : Nat) : IsNumeric (twoDigits n) := by
  unfold twoDigits
  split
  · have hzero : IsNumeric "0" := by decide
    exact hzero.append (isNumeric_toString n)
  · exact isNumeric_toString n

section Digits

variable {ds : List Char} (hds : ∀ c ∈ ds, c.isDigit = true)

include hds

theorem isNumeric_scientific (e : Int) : IsNumeric (scientific ds e) := by
  have hlead : IsNumeric (String.ofList (ds.take 1)) :=
    isNumeric_ofList fun c hc => hds c (List.mem_of_mem_take hc)
  have hpoint : IsNumeric "." := by decide
  have hfraction : IsNumeric
      (if ds.drop 1 = [] then "" else "." ++ String.ofList (ds.drop 1)) := by
    split
    · rfl
    · exact hpoint.append (isNumeric_ofList fun c hc => hds c (List.mem_of_mem_drop hc))
  have hexponent : IsNumeric (if e < 0 then "e-" else "e+") := by
    split <;> decide
  exact ((hlead.append hfraction).append hexponent).append (isNumeric_twoDigits _)

theorem isNumeric_positional (e : Int) : IsNumeric (positional ds e) := by
  unfold positional
  split
  · have hpoint : IsNumeric "0." := by decide
    refine hpoint.append (isNumeric_ofList ?_)
    intro c hc
    rcases List.mem_append.mp hc with hc | hc
    · rw [List.eq_of_mem_replicate hc]
      rfl
    · exact hds c hc
  · have hpoint : IsNumeric "." := by decide
    refine IsNumeric.append (.append (isNumeric_ofList ?_) hpoint) ?_
    · intro c hc
      rcases List.mem_append.mp hc with hc | hc
      · exact hds c (List.mem_of_mem_take hc)
      · rw [List.eq_of_mem_replicate hc]
        rfl
    · split
      · decide
      · exact isNumeric_ofList fun c hc => hds c (List.mem_of_mem_drop hc)

end Digits

theorem isNumeric_decimalText (d : Decimal) : IsNumeric (decimalText d) := by
  have hds : ∀ c ∈ ((Nat.toDigits 10 d.digits).reverse.dropWhile (· == '0')).reverse,
      c.isDigit = true := by
    intro c hc
    have hmem := (List.dropWhile_sublist _).subset (List.mem_reverse.mp hc)
    exact Nat.isDigit_of_mem_toDigits (by decide) (by decide) (List.mem_reverse.mp hmem)
  unfold decimalText
  simp only
  split
  · exact isNumeric_scientific hds _
  · exact isNumeric_positional hds _

theorem isNumeric_magnitudeText (bits : Nat) : IsNumeric (magnitudeText bits) := by
  unfold magnitudeText
  split
  · exact isNumeric_toString _
  · exact isNumeric_decimalText _

/-- **The characters of printed numbers**: digits, points, signs, the mark of an
exponent, and the letters of the words for infinity and NaN. -/
theorem isNumeric_text (x : Float) : IsNumeric (text x) := by
  unfold text
  split
  · decide
  · refine IsNumeric.append ?_ ?_
    · split <;> decide
    · split
      · decide
      · exact isNumeric_magnitudeText _

end Number

/-! ## Bare texts -/

/-- The text is over, or a blank or a closing parenthesis stands next. -/
def Fenced (rest : List Char) : Prop :=
  ∀ c ∈ rest.head?, c = ' ' ∨ c = ')'

theorem fenced_nil : Fenced [] :=
  fun _ h => absurd h (by simp)

theorem fenced_blank (rest : List Char) : Fenced (' ' :: rest) :=
  fun _ h => .inl (Option.mem_some.mp h).symm

theorem fenced_closing (rest : List Char) : Fenced (')' :: rest) :=
  fun _ h => .inr (Option.mem_some.mp h).symm

/-- The characters of numbers and words in an echo. -/
def isBare (c : Char) : Bool :=
  !(c == ' ' || c == '(' || c == ')' || c == '\x22')

theorem Fenced.not_isBare {rest : List Char} (h : Fenced rest) :
    ∀ c ∈ rest.head?, isBare c = false := by
  intro c hc
  rcases h c hc with rfl | rfl <;> rfl

/-- Where a bare text stands, no parenthesis opens and no string starts. -/
theorem bare_append_ne {c : Char} {u rest : List Char} (hu : ∀ d ∈ u, isBare d = true)
    (hrest : Fenced rest) (hc : c = '(' ∨ c = '\x22') (v : List Char) : u ++ rest ≠ c :: v := by
  intro h
  cases u with
  | nil =>
      have hhead : c ∈ rest.head? := by rw [show rest = c :: v from h]; rfl
      rcases hrest c hhead with rfl | rfl <;> revert hc <;> decide
  | cons d u =>
      obtain rfl : d = c := (List.cons.inj h).1
      have hd := hu d List.mem_cons_self
      rcases hc with rfl | rfl <;> cases hd

theorem isBare_of_isNumberChar {c : Char} (h : Number.isNumberChar c = true) :
    isBare c = true := by
  cases hc : isBare c with
  | true => rfl
  | false =>
      simp only [isBare, Bool.not_eq_false', Bool.or_eq_true, beq_iff_eq] at hc
      rcases hc with ((rfl | rfl) | rfl) | rfl <;> cases h

/-- Printed numbers are bare. -/
theorem Number.isBare_text (x : Float) : ∀ c ∈ (text x).toList, isBare c = true := by
  intro c hc
  exact isBare_of_isNumberChar (List.all_eq_true.mp (isNumeric_text x) c hc)

/-- Words are bare. -/
theorem Keyword.isBare_text (k : Keyword) : ∀ c ∈ k.text.toList, isBare c = true := by
  rw [← List.all_eq_true]
  cases k <;> rfl

/-- No number is printed as one of the words for literals. -/
theorem Number.text_ne_keyword {k : Keyword} (hk : Kind.keyword k ∈ literalKinds) (x : Float) :
    (text x).toList ≠ k.text.toList := by
  intro h
  have hnumeric := isNumeric_text x
  unfold IsNumeric at hnumeric
  rw [h] at hnumeric
  rcases Token.keyword_mem_literalKinds.mp hk with rfl | rfl | rfl <;> cases hnumeric

theorem Symbol.blank_notMem_text (s : Symbol) : ' ' ∉ s.text.toList := by
  cases s <;> decide

theorem Symbol.text_ne_group (s : Symbol) : s.text.toList ≠ "group".toList := by
  cases s <;> decide

/-! ## Trees with the same echo -/

namespace Expr

/-- The trees are equal up to the lines of operators and up to numerals whose
values are printed alike. -/
inductive Matches : Expr → Expr → Prop
  | number {s t : String} {x y : Float} (hx : Numeral.read? s = some x)
      (hy : Numeral.read? t = some y) (h : Number.text x = Number.text y) :
      Matches (.literal .number (some s)) (.literal .number (some t))
  | literal {kind : Kind} (hkind : kind ≠ .number) (text : Option String) :
      Matches (.literal kind text) (.literal kind text)
  | grouping {e e' : Expr} (h : Matches e e') : Matches (.grouping e) (.grouping e')
  | unary {op op' : Token} {e e' : Expr} (hop : op.unplaced = op'.unplaced) (h : Matches e e') :
      Matches (.unary op e) (.unary op' e')
  | binary {op op' : Token} {l l' r r' : Expr} (hl : Matches l l')
      (hop : op.unplaced = op'.unplaced) (hr : Matches r r') :
      Matches (.binary l op r) (.binary l' op' r')

variable {e e' : Expr}

/-- Trees that match are shown alike, however deep the walk may go. -/
theorem Matches.echoWithin_eq (h : e.Matches e') (n : Nat) :
    e.echoWithin n = e'.echoWithin n := by
  induction h generalizing n with
  | number hx hy htext =>
      cases n with
      | zero => rfl
      | succ n => simp only [echoWithin, echoLiteral, numberOfText, hx, hy, Except.map, htext]
  | literal hkind text => rfl
  | grouping h ih =>
      cases n with
      | zero => rfl
      | succ n => rw [echoWithin, echoWithin, ih n]
  | unary hop h ih =>
      cases n with
      | zero => rfl
      | succ n => rw [echoWithin, echoWithin, ih n, (Token.eq_of_unplaced_eq hop).2.1]
  | binary hl hop hr ihl ihr =>
      cases n with
      | zero => rfl
      | succ n =>
          rw [echoWithin, echoWithin, ihl n, ihr n, (Token.eq_of_unplaced_eq hop).2.1]

/-- Trees that match have the same echo. -/
theorem Matches.echo_eq {text text' : String} (h : e.Matches e') (htext : e.echo = .ok text)
    (htext' : e'.echo = .ok text') : text = text' := by
  have hwithin := h.echoWithin_eq (max e.height e'.height)
  rw [echoWithin_of_height_le (Nat.le_max_left _ _),
    echoWithin_of_height_le (Nat.le_max_right _ _), htext, htext'] at hwithin
  exact Except.ok.inj hwithin

/-- What a limited walk shows is the echo. -/
theorem echo_of_echo?_eq_ok {text : String} (h : e.echo? = .ok text) : e.echo = .ok text := by
  rcases echoWithin_eq_or (levels 4) e with hdeep | hwithin
  · rw [echo?, hdeep] at h
    cases h
  · rw [echo?, hwithin] at h
    cases hecho : e.echo with
    | error d =>
        rw [hecho] at h
        cases h
    | ok shown =>
        rw [hecho] at h
        exact congrArg Except.ok (Except.ok.inj h)

end Expr

/-! ## Taking an echo apart -/

/-- The literal of a text is shown by the characters. -/
inductive EchoedLiteral : Kind → Option String → List Char → Prop
  | number {text : String} {x : Float} (hx : Numeral.read? text = some x) :
      EchoedLiteral .number (some text) (Number.text x).toList
  | string {text : String} (h : '\x22' ∉ text.toList) :
      EchoedLiteral .string (some text) ('\x22' :: (text.toList ++ ['\x22']))
  | keyword {k : Keyword} (hk : Kind.keyword k ∈ literalKinds) :
      EchoedLiteral (.keyword k) none k.text.toList

/-- The tree is shown by the characters. -/
inductive Echoed : Expr → List Char → Prop
  | literal {kind : Kind} {text : Option String} {cs : List Char}
      (h : EchoedLiteral kind text cs) : Echoed (.literal kind text) cs
  | grouping {e : Expr} {cs : List Char} (h : Echoed e cs) :
      Echoed (.grouping e) ('(' :: ("group".toList ++ ' ' :: (cs ++ [')'])))
  | unary {s : Symbol} {line : Int} {e : Expr} {cs : List Char} (h : Echoed e cs) :
      Echoed (.unary ⟨.symbol s, s.text, line, none⟩ e)
        ('(' :: (s.text.toList ++ ' ' :: (cs ++ [')'])))
  | binary {s : Symbol} {line : Int} {l r : Expr} {cs ds : List Char} (hl : Echoed l cs)
      (hr : Echoed r ds) :
      Echoed (.binary l ⟨.symbol s, s.text, line, none⟩ r)
        ('(' :: (s.text.toList ++ ' ' :: (cs ++ ' ' :: (ds ++ [')']))))

/-- What can be written down is shown by its echo. -/
theorem Expr.Writable.echoed {e : Expr} (h : e.Writable) :
    ∃ text, e.echo = .ok text ∧ Echoed e text.toList := by
  induction h with
  | @number text h =>
      obtain ⟨x, hx⟩ := Numeral.read?_of_lexical h
      rw [String.ofList_toList] at hx
      refine ⟨Number.text x, ?_, .literal (.number hx)⟩
      simp only [echo, echoLiteral, numberOfText, hx]
      rfl
  | @string text h =>
      refine ⟨_, rfl, ?_⟩
      have hchars : ("\"" ++ text ++ "\"").toList = '\x22' :: (text.toList ++ ['\x22']) := by
        simp
      rw [Option.getD_some, hchars]
      exact .literal (.string h)
  | keyword hk => exact ⟨_, rfl, .literal (.keyword hk)⟩
  | grouping he ih =>
      obtain ⟨inner, hinner, hechoed⟩ := ih
      refine ⟨"(group " ++ inner ++ ")", by rw [echo, hinner]; rfl, ?_⟩
      have hgrouping := hechoed.grouping
      simpa using hgrouping
  | @unary s line e hs he ih =>
      obtain ⟨right, hright, hechoed⟩ := ih
      refine ⟨"(" ++ s.text ++ " " ++ right ++ ")", by rw [echo, hright]; rfl, ?_⟩
      have hunary : Echoed (.unary ⟨.symbol s, s.text, line, none⟩ e) _ := hechoed.unary
      simpa using hunary
  | @binary s line level l r hl hs hr ihl ihr =>
      obtain ⟨left, hleft, hechoedLeft⟩ := ihl
      obtain ⟨right, hright, hechoedRight⟩ := ihr
      refine ⟨"(" ++ s.text ++ " " ++ left ++ " " ++ right ++ ")",
        by rw [echo, hleft, hright]; rfl, ?_⟩
      have hbinary : Echoed (.binary l ⟨.symbol s, s.text, line, none⟩ r) _ :=
        hechoedLeft.binary hechoedRight
      simpa using hbinary

namespace EchoedLiteral

variable {kind kind' : Kind} {text text' : Option String} {cs cs' rest rest' : List Char}

/-- No literal is shown by a text that starts with a parenthesis. -/
theorem append_ne_opening (h : EchoedLiteral kind text cs) (hrest : Fenced rest)
    (v : List Char) : cs ++ rest ≠ '(' :: v := by
  cases h with
  | number hx => exact bare_append_ne (Number.isBare_text _) hrest (.inl rfl) v
  | string h => exact fun heq => absurd (List.cons.inj heq).1 (by decide)
  | keyword hk => exact bare_append_ne (Keyword.isBare_text _) hrest (.inl rfl) v

/-- Two literals that are shown at the front of one text match. -/
theorem decode (h : EchoedLiteral kind text cs) (h' : EchoedLiteral kind' text' cs')
    (hrest : Fenced rest) (hrest' : Fenced rest') (heq : cs ++ rest = cs' ++ rest') :
    Expr.Matches (.literal kind text) (.literal kind' text') ∧ rest = rest' := by
  cases h with
  | @number s x hx =>
      have hbare := Number.isBare_text x
      cases h' with
      | @number t y hy =>
          obtain ⟨htext, hrests⟩ := run_append_inj hbare (Number.isBare_text y)
            hrest.not_isBare hrest'.not_isBare heq
          exact ⟨.number hx hy (String.toList_inj.mp htext), hrests⟩
      | string h' => exact absurd heq (bare_append_ne hbare hrest (.inr rfl) _)
      | keyword hk' =>
          obtain ⟨htext, -⟩ := run_append_inj hbare (Keyword.isBare_text _)
            hrest.not_isBare hrest'.not_isBare heq
          exact absurd htext (Number.text_ne_keyword hk' x)
  | @string s h =>
      cases h' with
      | number hy =>
          exact absurd heq.symm (bare_append_ne (Number.isBare_text _) hrest' (.inr rfl) _)
      | @string t h' =>
          simp only [List.cons_append, List.append_assoc, List.nil_append, List.cons.injEq,
            true_and] at heq
          obtain ⟨htext, hrests⟩ := append_cons_inj h h' heq
          obtain rfl := String.toList_inj.mp htext
          exact ⟨.literal (by decide) _, hrests⟩
      | keyword hk' =>
          exact absurd heq.symm (bare_append_ne (Keyword.isBare_text _) hrest' (.inr rfl) _)
  | @keyword k hk =>
      have hbare := Keyword.isBare_text k
      cases h' with
      | @number t y hy =>
          obtain ⟨htext, -⟩ := run_append_inj hbare (Number.isBare_text y)
            hrest.not_isBare hrest'.not_isBare heq
          exact absurd htext.symm (Number.text_ne_keyword hk y)
      | string h' => exact absurd heq (bare_append_ne hbare hrest (.inr rfl) _)
      | keyword hk' =>
          obtain ⟨htext, hrests⟩ := run_append_inj hbare (Keyword.isBare_text _)
            hrest.not_isBare hrest'.not_isBare heq
          obtain rfl := Keyword.text_injective (String.toList_inj.mp htext)
          have hkind : Kind.keyword k ≠ .number := by simp
          exact ⟨.literal hkind none, hrests⟩

end EchoedLiteral

/-- The name of an operator ends at the blank after it. -/
theorem name_append_inj {name name' body body' rest rest' : List Char} (hname : ' ' ∉ name)
    (hname' : ' ' ∉ name')
    (h : '(' :: (name ++ ' ' :: body) ++ rest = '(' :: (name' ++ ' ' :: body') ++ rest') :
    name = name' ∧ body ++ rest = body' ++ rest' := by
  simp only [List.cons_append, List.append_assoc, List.cons.injEq, true_and] at h
  exact append_cons_inj hname hname' h

namespace Echoed

variable {e e' : Expr} {cs cs' rest rest' : List Char}

/-- **Two echoes at the front of one text are echoes of matching trees**, and the
same is left after them. -/
theorem decode (h : Echoed e cs) (h' : Echoed e' cs') (hrest : Fenced rest)
    (hrest' : Fenced rest') (heq : cs ++ rest = cs' ++ rest') :
    e.Matches e' ∧ rest = rest' := by
  have hgroup : ' ' ∉ "group".toList := by decide
  induction h generalizing e' cs' rest rest' with
  | literal hlit =>
      cases h' with
      | literal hlit' => exact hlit.decode hlit' hrest hrest' heq
      | _ => exact absurd heq (hlit.append_ne_opening hrest _)
  | grouping h ih =>
      cases h' with
      | literal hlit' => exact absurd heq.symm (hlit'.append_ne_opening hrest' _)
      | grouping h' =>
          obtain ⟨-, hbody⟩ := name_append_inj hgroup hgroup heq
          simp only [List.append_assoc] at hbody
          obtain ⟨hinner, hclosing⟩ := ih h' (fenced_closing _) (fenced_closing _) hbody
          exact ⟨.grouping hinner, (List.cons.inj hclosing).2⟩
      | @unary s line e' cs' h' =>
          obtain ⟨hname, -⟩ := name_append_inj hgroup s.blank_notMem_text heq
          exact absurd hname.symm s.text_ne_group
      | @binary s line l r cs' ds' hl' hr' =>
          obtain ⟨hname, -⟩ := name_append_inj hgroup s.blank_notMem_text heq
          exact absurd hname.symm s.text_ne_group
  | @unary s line e cs h ih =>
      have hs := s.blank_notMem_text
      cases h' with
      | literal hlit' => exact absurd heq.symm (hlit'.append_ne_opening hrest' _)
      | grouping h' => exact absurd (name_append_inj hs hgroup heq).1 s.text_ne_group
      | @unary s' line' e' cs' h' =>
          obtain ⟨hname, hbody⟩ := name_append_inj hs s'.blank_notMem_text heq
          obtain rfl := Symbol.text_injective hname
          simp only [List.append_assoc] at hbody
          obtain ⟨hright, hclosing⟩ := ih h' (fenced_closing _) (fenced_closing _) hbody
          exact ⟨.unary rfl hright, (List.cons.inj hclosing).2⟩
      | @binary s' line' l' r' cs' ds' hl' hr' =>
          -- one operand is followed by a parenthesis, the first of two by a blank
          obtain ⟨-, hbody⟩ := name_append_inj hs s'.blank_notMem_text heq
          simp only [List.append_assoc, List.cons_append] at hbody
          obtain ⟨-, hnext⟩ := ih hl' (fenced_closing _) (fenced_blank _) hbody
          exact absurd (List.cons.inj hnext).1 (by decide)
  | @binary s line l r cs ds hl hr ihl ihr =>
      have hs := s.blank_notMem_text
      cases h' with
      | literal hlit' => exact absurd heq.symm (hlit'.append_ne_opening hrest' _)
      | grouping h' => exact absurd (name_append_inj hs hgroup heq).1 s.text_ne_group
      | @unary s' line' e' cs' h' =>
          obtain ⟨-, hbody⟩ := name_append_inj hs s'.blank_notMem_text heq
          simp only [List.append_assoc, List.cons_append] at hbody
          obtain ⟨-, hnext⟩ := ihl h' (fenced_blank _) (fenced_closing _) hbody
          exact absurd (List.cons.inj hnext).1 (by decide)
      | @binary s' line' l' r' cs' ds' hl' hr' =>
          obtain ⟨hname, hbody⟩ := name_append_inj hs s'.blank_notMem_text heq
          obtain rfl := Symbol.text_injective hname
          simp only [List.append_assoc, List.cons_append] at hbody
          obtain ⟨hleft, hblank⟩ := ihl hl' (fenced_blank _) (fenced_blank _) hbody
          obtain ⟨hright, hclosing⟩ := ihr hr' (fenced_closing _) (fenced_closing _)
            (List.cons.inj hblank).2
          exact ⟨.binary hleft rfl hright, (List.cons.inj hclosing).2⟩

/-- Trees with the same echo match. -/
theorem matches_of_eq (h : Echoed e cs) (h' : Echoed e' cs) : e.Matches e' :=
  (h.decode h' fenced_nil fenced_nil rfl).1

end Echoed

/-- **The echo is unambiguous.**  Trees that were parsed have an echo, and it is
the same for two of them if and only if they are equal up to the lines of their
operators and up to numerals whose values are printed alike.  Where the depth of
the walk is limited, this holds of what it shows. -/
theorem echo_eq_iff_matches {source source' : String} {e e' : Expr} (h : Parsed source e)
    (h' : Parsed source' e') :
    (∃ text text', e.echo = .ok text ∧ e'.echo = .ok text' ∧
      (text = text' ↔ e.Matches e')) ∧
    ∀ text, e.echo? = .ok text → (e'.echo? = .ok text ↔ e.Matches e') := by
  obtain ⟨text, hecho, hechoed⟩ := h.writable.echoed
  obtain ⟨text', hecho', hechoed'⟩ := h'.writable.echoed
  have hiff : text = text' ↔ e.Matches e' := by
    constructor
    · rintro rfl
      exact hechoed.matches_of_eq hechoed'
    · intro hmatches
      exact hmatches.echo_eq hecho hecho'
  refine ⟨⟨text, text', hecho, hecho', hiff⟩, ?_⟩
  intro shown hshown
  constructor
  · intro hshown'
    have htext : text = shown :=
      Except.ok.inj (hecho.symm.trans (Expr.echo_of_echo?_eq_ok hshown))
    have htext' : text' = shown :=
      Except.ok.inj (hecho'.symm.trans (Expr.echo_of_echo?_eq_ok hshown'))
    exact hiff.mp (htext.trans htext'.symm)
  · intro hmatches
    rw [← hshown, Expr.echo?, Expr.echo?, hmatches.echoWithin_eq]

/-- A comparison of a negated numeral with a string that looks like the end of an
echo. -/
def bracketTree (numeral : String) (line : Int) : Expr :=
  .binary (.unary ⟨.symbol .minus, "-", 1, none⟩ (.literal .number (some numeral)))
    ⟨.symbol .equalEqual, "==", line, none⟩ (.literal .string (some "a) (b"))

/-- The line of an operator and a zero at the end of a numeral do not show. -/
theorem echo_eq_iff_matches_bracket :
    Parsed "-1.50\n== \"a) (b\"" (bracketTree "1.50" 2) ∧
      Parsed "- 1.5 == \"a) (b\"" (bracketTree "1.5" 1) ∧
      (bracketTree "1.50" 2).Matches (bracketTree "1.5" 1) ∧
      ∃ text, (bracketTree "1.50" 2).echo = .ok text ∧ (bracketTree "1.5" 1).echo = .ok text := by
  have h : Parsed "-1.50\n== \"a) (b\"" (bracketTree "1.50" 2) := ⟨_, rfl, by decide⟩
  have h' : Parsed "- 1.5 == \"a) (b\"" (bracketTree "1.5" 1) := ⟨_, rfl, by decide⟩
  obtain ⟨x, hx⟩ : ∃ x, Numeral.read? "1.5" = some x := ⟨_, rfl⟩
  have hsame : Numeral.read? "1.50" = some x := by
    rw [← hx]
    decide +kernel
  have hmatches : (bracketTree "1.50" 2).Matches (bracketTree "1.5" 1) :=
    .binary (.unary rfl (.number hsame hx rfl)) rfl (.literal (by decide) _)
  obtain ⟨⟨text, text', htext, htext', hiff⟩, -⟩ := echo_eq_iff_matches h h'
  obtain rfl := hiff.mpr hmatches
  exact ⟨h, h', hmatches, text, htext, htext'⟩

end LoxCalc
