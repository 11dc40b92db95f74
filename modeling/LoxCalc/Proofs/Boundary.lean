import LoxCalc.Proofs.Lexical

/-!
# Where segments end

Blanks and line feeds, the **layout** characters, end every segment but two:
only a comment or a string goes on past one.  So whatever follows the longest
segment may be replaced from some point on, as long as the new text starts with
a layout character there and the segment is not a comment that would take it in
(`Longest.before_layout`).
-/

namespace LoxCalc

/-- The characters that stand between tokens: blanks and the line feed. -/
def isLayout (c : Char) : Bool :=
  isLayoutBlank c || c == '\n'

theorem isLayout_iff {c : Char} :
    isLayout c = true ↔ (c = ' ' ∨ c = '\r' ∨ c = '\t') ∨ c = '\n' := by
  simp [isLayout, isLayoutBlank, or_assoc]

/-- A layout character differs from every character that is none. -/
theorem ne_of_isLayout {c d : Char} (hc : isLayout c = true) (hd : isLayout d = false) :
    c ≠ d := by
  rintro rfl
  rw [hc] at hd
  cases hd

/-- A layout character belongs to no number and to no word. -/
theorem not_word_of_isLayout {c : Char} (hc : isLayout c = true) :
    ¬(c.isAlpha = true ∨ c = '_' ∨ c.isDigit = true) := by
  rcases isLayout_iff.mp hc with (rfl | rfl | rfl) | rfl <;> decide

/-- No character of a symbol is a layout character. -/
theorem Symbol.isLayout_of_mem {s : Symbol} {c : Char} (h : c ∈ s.text.toList) :
    isLayout c = false := by
  have hall : s.text.toList.all (fun c => !isLayout c) = true := by
    cases s <;> decide
  simpa using List.all_eq_true.mp hall c h

namespace Lexical

variable {cls : Segment.Class} {u v : List Char}

/-- Only a string without a closing quote depends on what follows. -/
theorem of_ne_openString (h : Lexical cls u v) (hcls : cls ≠ .openString) (w : List Char) :
    Lexical cls u w := by
  cases h with
  | blank hc => exact .blank hc
  | newline => exact .newline
  | comment hbody => exact .comment hbody
  | string hbody => exact .string hbody
  | openString hbody => exact absurd rfl hcls
  | whole hne hds => exact .whole hne hds
  | fraction hne hds hfne hfs => exact .fraction hne hds hfne hfs
  | word hc hcs => exact .word hc hcs
  | symbol s => exact .symbol s
  | stray hblank hquote hdigit hletter hsymbol =>
      exact .stray hblank hquote hdigit hletter hsymbol

/-- **Only comments and strings go on past a layout character.** -/
theorem past_layout {c : Char} {x y : List Char} (h : Lexical cls (x ++ c :: y) v) (hx : x ≠ [])
    (hc : isLayout c = true) :
    (∃ body, x = '/' :: '/' :: body ∧ '\n' ∉ body) ∨
      ∃ body, x = '\x22' :: body ∧ '\x22' ∉ body := by
  have hword := not_word_of_isLayout hc
  obtain ⟨d, x, rfl⟩ := List.exists_cons_of_ne_nil hx
  have hmem : c ∈ d :: x ++ c :: y := by simp
  have hlength : 1 < (d :: x ++ c :: y).length := by
    rw [List.length_append, List.length_cons, List.length_cons]
    omega
  generalize hu : d :: x ++ c :: y = u at h hmem hlength
  cases h with
  | comment hbody =>
      obtain ⟨rfl, hrest⟩ := List.cons.inj hu
      cases x with
      | nil => exact absurd (List.cons.inj hrest).1 (ne_of_isLayout hc rfl)
      | cons d x =>
          obtain ⟨rfl, rfl⟩ := List.cons.inj hrest
          exact .inl ⟨x, rfl, fun hn => hbody (List.mem_append_left _ hn)⟩
  | string hbody =>
      obtain ⟨rfl, hrest⟩ := List.cons.inj hu
      refine .inr ⟨x, rfl, fun hquote => hbody ?_⟩
      -- the layout character is not the closing quote, so it stands in the body
      rcases List.append_eq_append_iff.mp hrest with ⟨inner, rfl, -⟩ | ⟨inner, -, hclosing⟩
      · exact List.mem_append_left _ hquote
      · have hlast : c ∈ ['\x22'] := by
          rw [hclosing]
          simp
        exact absurd (List.mem_singleton.mp hlast) (ne_of_isLayout hc rfl)
  | openString hbody =>
      obtain ⟨rfl, rfl⟩ := List.cons.inj hu
      exact .inr ⟨x, rfl, fun hquote => hbody (List.mem_append_left _ hquote)⟩
  | whole hne hds => exact absurd (.inr (.inr (hds c hmem))) hword
  | fraction hne hds hfne hfs =>
      rcases List.mem_append.mp hmem with hwhole | hrest
      · exact absurd (.inr (.inr (hds c hwhole))) hword
      rcases List.mem_cons.mp hrest with hpoint | hfraction
      · exact absurd hpoint (ne_of_isLayout hc rfl)
      · exact absurd (.inr (.inr (hfs c hfraction))) hword
  | word hstart hcs =>
      rcases List.mem_cons.mp hmem with rfl | hmore
      · exact absurd (hstart.imp_right .inl) hword
      · exact absurd (hcs c hmore) hword
  | symbol s => exact absurd rfl (ne_of_isLayout hc (Symbol.isLayout_of_mem hmem))
  | blank | newline | stray => exact absurd hlength (Nat.lt_irrefl 1)

/-- What fits at the very end of a text is the longest segment there. -/
theorem longest_nil {s : Segment} (h : Lexical s.cls s.text []) : Longest s [] where
  lexical := h
  longest := by
    intro cls u v htext _
    rw [List.append_nil] at htext
    rw [← htext, List.length_append]
    exact Nat.le_add_right _ _

end Lexical

namespace Longest

variable {s : Segment} {rest : List Char}

/-- The longest segment of a text that starts with two slashes is a comment. -/
theorem cls_of_slashes (h : Longest s rest) {cs : List Char}
    (htext : s.text ++ rest = '/' :: '/' :: cs) : s.cls = .comment := by
  rw [(h.eq_first htext).1]
  rfl

/-- The longest segment of a text that starts with a quote ends with one, unless
the string is never closed. -/
theorem text_of_quote (h : Longest s rest) (hs : s.cls ≠ .openString) {cs : List Char}
    (htext : s.text ++ rest = '\x22' :: cs) : ∃ body, s.text = '\x22' :: body ++ ['\x22'] := by
  obtain ⟨hfirst, -⟩ := h.eq_first htext
  rw [Segment.first_quote] at hfirst
  split at hfirst
  · rw [hfirst]
    exact ⟨_, rfl⟩
  · rw [hfirst] at hs
    exact absurd rfl hs

/-- A comment goes on to the end of its line. -/
theorem rest_of_comment (h : Longest s rest) (hs : s.cls = .comment) :
    rest = [] ∨ ∃ more, rest = '\n' :: more := by
  obtain ⟨cls, text⟩ := s
  cases rest with
  | nil => exact .inl rfl
  | cons c more =>
      refine .inr ⟨more, ?_⟩
      have hlexical := h.lexical
      subst hs
      cases hlexical with
      | @comment body _ hbody =>
          -- if the line went on, the comment with one more character would fit
          by_cases hc : c = '\n'
          · rw [hc]
          · have hlonger : Lexical .comment ('/' :: '/' :: (body ++ [c])) more := by
              refine .comment ?_
              intro hmem
              rcases List.mem_append.mp hmem with hmem | hmem
              · exact hbody hmem
              · exact hc (List.mem_singleton.mp hmem).symm
            have hle := h.longest _ _ more (by simp) hlonger
            simp only [List.length_cons, List.length_append, List.length_nil] at hle
            omega

/-- **What follows the longest segment may change** from any point on where the
new text starts with a layout character.  A comment needs something between,
which is the line feed at its end; a string has to be closed. -/
theorem before_layout {w more : List Char} {c : Char} (h : Longest s (w ++ rest))
    (hs : s.cls ≠ .openString) (hcomment : s.cls = .comment → w ≠ []) (hc : isLayout c = true) :
    Longest s (w ++ c :: more) where
  lexical := h.lexical.of_ne_openString hs _
  longest := by
    intro cls u v htext hu
    have hne : s.text ++ w ≠ [] := by
      simp [h.lexical.ne_nil]
    -- what ends before the layout character was there all the time
    have hbefore : ∀ inner, s.text ++ w = u ++ inner → v = inner ++ c :: more →
        u.length ≤ s.text.length := by
      intro inner hu' hv
      have hcls : cls ≠ .openString := by
        rintro rfl
        cases hu
        simp at hv
      refine h.longest cls u (inner ++ rest) ?_ (hu.of_ne_openString hcls _)
      rw [← List.append_assoc, ← hu', List.append_assoc]
    rw [← List.append_assoc] at htext
    rcases List.append_eq_append_iff.mp htext with ⟨inner, hu', hv⟩ | ⟨inner, hu', hv⟩
    · exact hbefore inner hu' hv
    cases inner with
    | nil => exact hbefore [] (by simp [hu']) hv.symm
    | cons d inner =>
        obtain rfl : c = d := (List.cons.inj hv).1
        rw [hu'] at hu
        rcases hu.past_layout hne hc with ⟨body, hslashes, hbody⟩ | ⟨body, hopening, hbody⟩
        · -- the segment is a comment and goes on to the layout character
          have hold : s.text ++ (w ++ rest) = '/' :: '/' :: (body ++ rest) := by
            rw [← List.append_assoc, hslashes]
            rfl
          have hfits : Lexical .comment (s.text ++ w) rest := by
            rw [hslashes]
            exact .comment hbody
          have hle := h.longest _ _ _ (List.append_assoc _ _ _) hfits
          have hw : w = [] := by
            rw [List.length_append] at hle
            exact List.eq_nil_of_length_eq_zero (by omega)
          exact absurd hw (hcomment (h.cls_of_slashes hold))
        · -- the segment is a string, and its closing quote stands before
          have hold : s.text ++ (w ++ rest) = '\x22' :: (body ++ rest) := by
            rw [← List.append_assoc, hopening]
            rfl
          obtain ⟨inside, htext⟩ := h.text_of_quote hs hold
          rw [htext, List.append_assoc] at hopening
          have hmem : '\x22' ∈ body := by
            rw [← (List.cons.inj hopening).2]
            simp
          exact absurd hmem hbody

end Longest

end LoxCalc
