import LoxCalc.Proofs.Layout

/-!
# Rendering tokens

Tokens are rendered by putting their lexemes one after the other with a
**separator** between any two: blanks and line feeds, at least one of them.  A
separator ends the token before it and is filler itself, so rendered tokens are
cut into their segments with filler between them (`cut_rendered`), whatever comes
next.

`scan_undoes_rendering`: scanning gives rendered tokens back, and it never gives a
token that could not have been rendered.
-/

namespace LoxCalc

/-- Blanks, tabs, carriage returns and line feeds, at least one of them. -/
structure Separator (sep : String) : Prop where
  ne_empty : sep ≠ ""
  layout : ∀ c ∈ sep.toList, isLayout c = true

instance (sep : String) : Decidable (Separator sep) :=
  decidable_of_iff (sep ≠ "" ∧ sep.toList.all isLayout = true)
    ⟨fun h => ⟨h.1, List.all_eq_true.mp h.2⟩, fun h => ⟨h.ne_empty, List.all_eq_true.mpr h.layout⟩⟩

/-- The lexemes of the tokens, with the separators between them in order. -/
def rendered : List Token → List String → String
  | [], _ => ""
  | [t], _ => t.lexeme
  | t :: ts, seps => t.lexeme ++ seps.headD "" ++ rendered ts seps.tail

theorem toList_rendered_cons_cons (t t' : Token) (ts : List Token) (sep : String)
    (seps : List String) :
    (rendered (t :: t' :: ts) (sep :: seps)).toList
      = t.lexeme.toList ++ (sep.toList ++ (rendered (t' :: ts) seps).toList) := by
  simp [rendered]

/-! ## Separators -/

/-- Layout characters are filler. -/
theorem filler_of_isLayout {l : List Char} (h : ∀ c ∈ l, isLayout c = true) : Filler l := by
  induction l with
  | nil => exact .nil
  | cons c l ih =>
      exact .blank (h c List.mem_cons_self) (ih fun d hd => h d (List.mem_cons_of_mem c hd))

/-- A separator starts with a layout character, and the rest of it is filler. -/
theorem Separator.exists_cons {sep : String} (h : Separator sep) :
    ∃ c more, sep.toList = c :: more ∧ isLayout c = true ∧ Filler more := by
  have hlayout := h.layout
  cases hsep : sep.toList with
  | nil => exact absurd (String.toList_eq_nil_iff.mp hsep) h.ne_empty
  | cons c more =>
      rw [hsep] at hlayout
      refine ⟨c, more, rfl, hlayout c List.mem_cons_self, filler_of_isLayout ?_⟩
      intro d hd
      exact hlayout d (List.mem_cons_of_mem c hd)

/-! ## The pieces of rendered tokens -/

/-- The segment that a token of a text is written as gives that token again, and is
the longest one before a separator or at the end. -/
theorem Token.Lexed.segment_spec {t : Token} (h : t.Lexed) :
    t.segment.isProblem = false ∧ t.segment.token? 0 = some t.unplaced ∧
      Longest t.segment [] ∧ ∀ c more, isLayout c = true → Longest t.segment (c :: more) := by
  obtain ⟨s, v, hlexical, hgives⟩ := h
  rw [hgives.segment_eq]
  exact ⟨Segment.isProblem_of_isToken hgives.isToken_eq, hgives.token?_eq 0,
    hlexical.longest_of_isToken hgives.isToken_eq⟩

/-- **Rendered tokens are cut into their segments**, with filler between them: there
is no problem among the pieces, and they give the tokens. -/
theorem cut_rendered {ts : List Token} {seps : List String} (hts : ∀ t ∈ ts, t.Lexed)
    (hseps : ∀ sep ∈ seps, Separator sep) (hlength : ts.length ≤ seps.length + 1) :
    ∃ pieces, Cut (rendered ts seps).toList pieces ∧ pieces.filter Segment.isProblem = [] ∧
      pieces.filterMap (Segment.token? 0) = ts.map Token.unplaced := by
  match ts, seps with
  | [], _ => exact ⟨[], .nil, rfl, rfl⟩
  | [t], seps =>
      obtain ⟨hproblem, htoken, hend, -⟩ := (hts t List.mem_cons_self).segment_spec
      have hcut := Cut.cons hend .nil
      rw [List.append_nil] at hcut
      refine ⟨[t.segment], hcut, ?_, ?_⟩
      · rw [List.filter_cons_of_neg (by simp [hproblem]), List.filter_nil]
      · rw [List.filterMap_cons_some htoken]
        rfl
  | _ :: _ :: _, [] =>
      simp only [List.length_cons, List.length_nil] at hlength
      omega
  | t :: t' :: ts, sep :: seps =>
      have hlexed : ∀ x ∈ t' :: ts, x.Lexed := fun x hx => hts x (List.mem_cons_of_mem t hx)
      have hothers : ∀ x ∈ seps, Separator x := fun x hx => hseps x (List.mem_cons_of_mem sep hx)
      obtain ⟨pieces, hrest, hnone, hgiven⟩ :=
        cut_rendered hlexed hothers (Nat.le_of_succ_le_succ hlength)
      obtain ⟨hproblem, htoken, -, hlongest⟩ := (hts t List.mem_cons_self).segment_spec
      obtain ⟨c, more, hsep, hc, hmore⟩ := (hseps sep List.mem_cons_self).exists_cons
      -- the separator is cut off first, and the token before it then
      obtain ⟨fill, hfill, hcut⟩ := (Filler.blank hc hmore).cut hrest
      refine ⟨t.segment :: (fill ++ pieces), ?_, ?_, ?_⟩
      · rw [toList_rendered_cons_cons, hsep]
        exact .cons (hlongest c _ hc) hcut
      · rw [List.filter_cons_of_neg (by simp [hproblem]), List.filter_append,
          filter_isProblem_of_isFiller hfill, hnone, List.nil_append]
      · rw [List.filterMap_cons_some htoken, List.filterMap_append,
          filterMap_token?_of_isFiller hfill, hgiven, List.nil_append]
        rfl

/-! ## Scanning rendered tokens -/

/-- **Scanning undoes rendering.**  Well-formed tokens that are rendered with any
separators are scanned without a problem into the same tokens up to lines, followed
by the end mark; and every token that is scanned from any text, the end mark apart,
is well formed. -/
theorem scan_undoes_rendering :
    (∀ (ts : List Token) (seps : List String), (∀ t ∈ ts, t.WellFormed) →
      (∀ sep ∈ seps, Separator sep) → ts.length ≤ seps.length + 1 →
        (scan (rendered ts seps)).errors = [] ∧
          (scan (rendered ts seps)).tokens.map Token.unplaced
            = ts.map Token.unplaced ++ [Token.endOfSource 0]) ∧
    ∀ source : String, ∀ t ∈ (scan source).tokens, t.kind ≠ .eof → t.WellFormed := by
  constructor
  · intro ts seps hts hseps hlength
    obtain ⟨pieces, hcut, hnone, hgiven⟩ :=
      cut_rendered (fun t ht => Token.wellFormed_iff_lexed.mp (hts t ht)) hseps hlength
    rw [scan, Scan.ofChars, ← cut_iff.mp hcut]
    refine ⟨Scan.errors_ofSegments_eq_nil hnone 1, ?_⟩
    rw [Scan.unplaced_tokens_ofSegments, hgiven]
  · intro source t ht hkind
    obtain ⟨ts, line, htokens, hlexed⟩ := tokens_scan source
    rw [htokens] at ht
    rcases List.mem_append.mp ht with ht | ht
    · exact Token.wellFormed_iff_lexed.mpr (hlexed t ht)
    · obtain rfl := List.mem_singleton.mp ht
      exact absurd rfl hkind

/-- Two operators that would be one without the separator, a number, a string and a
name are scanned back, over five lines. -/
theorem scan_undoes_rendering_mixed :
    let ts : List Token :=
      [⟨.symbol .bang, "!", 1, none⟩, ⟨.symbol .equal, "=", 1, none⟩,
        ⟨.number, "1.5", 1, some "1.5"⟩, ⟨.string, "\x22//\x22", 1, some "//"⟩,
        ⟨.identifier, "nile", 1, none⟩]
    let seps := [" ", "\t\n", "\r", "\n\n\n"]
    rendered ts seps = "! =\t\n1.5\r\x22//\x22\n\n\nnile" ∧
      (scan (rendered ts seps)).errors = [] ∧
      (scan (rendered ts seps)).tokens.map Token.unplaced
        = ts.map Token.unplaced ++ [Token.endOfSource 0] ∧
      ∀ t ∈ (scan (rendered ts seps)).tokens, t.kind ≠ .eof → t.WellFormed := by
  intro ts seps
  have hts : ∀ t ∈ ts, t.WellFormed := by
    have hquoted : "\x22//\x22" = String.ofList ('\x22' :: "//".toList ++ ['\x22']) := by decide
    have hstring : Token.WellFormed ⟨.string, "\x22//\x22", 1, some "//"⟩ := by
      rw [hquoted]
      exact .string (by decide)
    have hname : ∀ k : Keyword, k.text ≠ "nile" := by
      intro k
      cases k <;> decide
    simp only [ts, List.forall_mem_cons]
    exact ⟨.symbol .bang, .symbol .equal, .number (lexical_first '1' ['.', '5']), hstring,
      .identifier (lexical_first 'n' ['i', 'l', 'e']) hname, List.forall_mem_nil _⟩
  have hseps : ∀ sep ∈ seps, Separator sep := by
    simp only [seps, List.forall_mem_cons]
    exact ⟨by decide, by decide, by decide, by decide, List.forall_mem_nil _⟩
  obtain ⟨herrors, htokens⟩ := scan_undoes_rendering.1 ts seps hts hseps (by decide)
  exact ⟨by decide, herrors, htokens, scan_undoes_rendering.2 _⟩

end LoxCalc
