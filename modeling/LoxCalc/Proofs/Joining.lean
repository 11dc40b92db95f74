import LoxCalc.Proofs.Layout
import LoxCalc.Proofs.Lines

/-!
# Texts joined by a line feed

A line feed ends every segment but a string, so a text whose strings are all
closed can be scanned up to a line feed and what follows it can be scanned on its
own.  Nothing is carried over but the line.

* `Cut.join`: the pieces of both texts and the line feed between them are the
  pieces of the whole;
* `Scan.ofSegments_append` and `Scan.ofSegments_lowered`: pieces are read off in
  two parts, and further down they give the same on other lines;
* `scan_join_iff`: scans can be put together in this way exactly if the first of
  the texts has no open string.
-/

namespace LoxCalc

/-! ## Further down -/

/-- The token, `n` lines further down. -/
def Token.lowered (n : Int) (t : Token) : Token :=
  { t with line := t.line + n }

/-- The problem, `n` lines further down. -/
def Diagnostic.lowered (n : Int) (d : Diagnostic) : Diagnostic :=
  { d with line := d.line.map (· + n) }

/-- The scan, `n` lines further down. -/
def Scan.lowered (n : Int) (s : Scan) : Scan where
  tokens := s.tokens.map (Token.lowered n)
  errors := s.errors.map (Diagnostic.lowered n)
  line := s.line + n

namespace Segment

variable (s : Segment) (line n : Int)

theorem lineAfter_add : s.lineAfter (line + n) = s.lineAfter line + n := by
  rw [lineAfter, lineAfter]
  omega

theorem token?_add : s.token? (line + n) = (s.token? line).map (Token.lowered n) := by
  obtain ⟨cls, text⟩ := s
  cases cls <;> rfl

theorem diagnostic?_add :
    s.diagnostic? (line + n) = (s.diagnostic? line).map (Diagnostic.lowered n) := by
  obtain ⟨cls, text⟩ := s
  cases cls <;> rfl

end Segment

namespace Scan

/-- Pieces that start further down give the same, further down. -/
theorem ofSegments_lowered (line n : Int) (pieces : List Segment) :
    ofSegments (line + n) pieces = (ofSegments line pieces).lowered n := by
  induction pieces generalizing line with
  | nil => rfl
  | cons s pieces ih =>
      simp only [ofSegments, lowered, s.lineAfter_add, s.token?_add, s.diagnostic?_add, ih,
        List.map_append, Option.toList_map]

/-- There is an end mark in every scan. -/
theorem tokens_ofSegments_ne_nil (line : Int) (pieces : List Segment) :
    (ofSegments line pieces).tokens ≠ [] := by
  induction pieces generalizing line with
  | nil => exact List.cons_ne_nil _ _
  | cons s pieces ih => exact List.append_ne_nil_of_right_ne_nil _ (ih _)

/-- **Pieces are read off in two parts.**  The end mark of the first part is left
out, and the second part starts where the first one ended. -/
theorem ofSegments_append (line : Int) (pieces later : List Segment) :
    ofSegments line (pieces ++ later) =
      ⟨(ofSegments line pieces).tokens.dropLast
          ++ (ofSegments (ofSegments line pieces).line later).tokens,
        (ofSegments line pieces).errors
          ++ (ofSegments (ofSegments line pieces).line later).errors,
        (ofSegments (ofSegments line pieces).line later).line⟩ := by
  induction pieces generalizing line with
  | nil => rfl
  | cons s pieces ih =>
      have hne := tokens_ofSegments_ne_nil (s.lineAfter line) pieces
      simp only [List.cons_append, ofSegments, ih, List.dropLast_append_of_ne_nil hne,
        List.append_assoc]

/-- A string that is not closed is reported. -/
theorem unterminated_mem_errors {pieces : List Segment} {s : Segment} (hs : s ∈ pieces)
    (hcls : s.cls = .openString) (line : Int) :
    ∃ d ∈ (ofSegments line pieces).errors, d.message = "Unterminated string." := by
  induction pieces generalizing line with
  | nil => cases hs
  | cons x pieces ih =>
      rcases List.mem_cons.mp hs with rfl | hs
      · refine ⟨.onLine (s.lineAfter line) "Unterminated string.", ?_, rfl⟩
        have hd : s.diagnostic? (s.lineAfter line)
            = some (.onLine (s.lineAfter line) "Unterminated string.") := by
          rw [Segment.diagnostic?, hcls]
        simp [ofSegments, hd]
      · obtain ⟨d, hd, hmessage⟩ := ih hs (x.lineAfter line)
        exact ⟨d, List.mem_append_right _ hd, hmessage⟩

end Scan

/-! ## The pieces of joined texts -/

/-- The longest segment of a text stays the longest one if a line feed and more
text are put after the text, unless it is a string that is not closed. -/
theorem Longest.before_newline {s : Segment} {w : List Char} (h : Longest s w)
    (hs : s.cls ≠ .openString) (more : List Char) : Longest s (w ++ '\n' :: more) := by
  by_cases hend : s.cls = .comment ∧ w = []
  · -- a comment at the end of the text, which the line feed ends now
    obtain ⟨hcls, rfl⟩ := hend
    have hlexical := h.lexical
    obtain ⟨cls, text⟩ := s
    subst hcls
    cases hlexical with
    | comment hbody => exact longest_comment hbody more
  · rw [← List.append_nil w] at h
    refine h.before_layout hs ?_ rfl
    intro hcls hw
    exact hend ⟨hcls, hw⟩

/-- **The pieces of two texts and of the line feed between them** are the pieces of
the whole, unless the first text ends in a string that is not closed. -/
theorem Cut.join {cs more : List Char} {pieces later : List Segment} (h : Cut cs pieces)
    (hclosed : ∀ s ∈ pieces, s.cls ≠ .openString) (hlater : Cut more later) :
    Cut (cs ++ '\n' :: more) (pieces ++ ⟨.newline, ['\n']⟩ :: later) := by
  induction h with
  | nil =>
      have hline : Longest ⟨.newline, ['\n']⟩ more := longest_of_first_eq rfl rfl
      exact .cons hline hlater
  | @cons s rest pieces hs hrest ih =>
      rw [List.append_assoc]
      refine .cons (hs.before_newline (hclosed s List.mem_cons_self) more) (ih ?_)
      intro x hx
      exact hclosed x (List.mem_cons_of_mem s hx)

/-! ## The scan of joined texts -/

/-- If all strings of a text are closed, what follows it after a line feed is
scanned on its own. -/
theorem scan_join {a b : String}
    (h : ∀ d ∈ (scan a).errors, d.message ≠ "Unterminated string.") :
    scan (a ++ "\n" ++ b) =
      ⟨(scan a).tokens.dropLast ++ ((scan b).lowered (endLine a.toList)).tokens,
        (scan a).errors ++ ((scan b).lowered (endLine a.toList)).errors,
        ((scan b).lowered (endLine a.toList)).line⟩ := by
  have hclosed : ∀ s ∈ segments a.toList, s.cls ≠ .openString := by
    intro s hs hcls
    obtain ⟨d, hd, hmessage⟩ := Scan.unterminated_mem_errors hs hcls 1
    exact h d hd hmessage
  have hpieces : segments (a ++ "\n" ++ b).toList
      = segments a.toList ++ ⟨.newline, ['\n']⟩ :: segments b.toList := by
    have hcut := (cut_segments a.toList).join hclosed (cut_segments b.toList)
    have htext : (a ++ "\n" ++ b).toList = a.toList ++ '\n' :: b.toList := by simp
    rw [htext]
    exact (cut_iff.mp hcut).symm
  have hline : (Scan.ofSegments 1 (segments a.toList)).line = endLine a.toList :=
    congrArg Scan.line (scan_eq_places a)
  have hlater : Scan.ofSegments (endLine a.toList) (⟨.newline, ['\n']⟩ :: segments b.toList)
      = (scan b).lowered (endLine a.toList) := by
    have hnext : Segment.lineAfter (endLine a.toList) ⟨.newline, ['\n']⟩
        = 1 + endLine a.toList := Int.add_comm _ _
    rw [scan, Scan.ofChars, ← Scan.ofSegments_lowered, ← hnext]
    rfl
  rw [scan, Scan.ofChars, hpieces, Scan.ofSegments_append, hline, hlater]
  rfl

/-- **Scanning is compositional at line feeds**, and only for texts whose strings
are closed.  The tokens of the first text but its end mark are followed by those of
the second, which stand as many lines further down as there are line feeds before
the second text, and so are the problems. -/
theorem scan_join_iff (a b : String) :
    (∀ d ∈ (scan a).errors, d.message ≠ "Unterminated string.") ↔
      (scan (a ++ "\n" ++ b)).tokens = (scan a).tokens.dropLast
          ++ (scan b).tokens.map (Token.lowered (1 + a.toList.count '\n')) ∧
        (scan (a ++ "\n" ++ b)).errors = (scan a).errors
          ++ (scan b).errors.map (Diagnostic.lowered (1 + a.toList.count '\n')) := by
  constructor
  · intro h
    rw [scan_join h]
    exact ⟨rfl, rfl⟩
  · rintro ⟨-, herrors⟩ d hd hmessage
    -- an open string would be reported on the last line of either text
    have hwhole : d ∈ (scan (a ++ "\n" ++ b)).errors := by
      rw [herrors]
      exact List.mem_append_left _ hd
    have hfirst := eq_onLine_of_unterminated hd hmessage
    rw [eq_onLine_of_unterminated hwhole hmessage] at hfirst
    have hline : endLine (a ++ "\n" ++ b).toList = endLine a.toList :=
      Option.some.inj (congrArg Diagnostic.line hfirst)
    simp only [endLine, String.toList_append, List.count_append] at hline
    have hfeed : "\n".toList.count '\n' = 1 := rfl
    omega

end LoxCalc
