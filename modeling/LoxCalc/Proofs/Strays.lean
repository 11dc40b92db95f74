import LoxCalc.Proofs.Layout
import LoxCalc.Proofs.Lines

/-!
# Stray characters

A stray character is reported and stands for nothing.  It ends the segment before
it, as a blank does, and starts none, so a blank may be put in its place: the
pieces of a text are the same then, but for the strays themselves.

* `Cut.tidy_one`: one piece after the other may be tidied;
* `Cut.tidy`: and so may all of them;
* `withBlanks_strays`: tidy pieces are the text with blanks in the places of the
  stray characters;
* `strays_are_blanks`: the scan stays the same, without the reports.
-/

namespace LoxCalc

/-- The positions of the stray characters among the places of a text. -/
def straysAmong (ps : List Place) : List Nat :=
  (ps.filter fun p => p.piece.cls = .stray).map fun p => p.before.length

/-- The positions of the stray characters of a text. -/
def strays (source : String) : List Nat :=
  straysAmong (places source)

/-- The text with a blank put at each of the positions. -/
def withBlanks (positions : List Nat) (cs : List Char) : List Char :=
  positions.foldl (fun cs i => cs.set i ' ') cs

/-- The text with a blank in place of every stray character. -/
def tidied (source : String) : String :=
  String.ofList (withBlanks (strays source) source.toList)

/-- The piece, or a blank if it is a stray character. -/
def Segment.tidied (s : Segment) : Segment :=
  if s.cls = .stray then ⟨.blank, [' ']⟩ else s

/-! ## The pieces -/

namespace Cut

variable {before after : List Segment} {s : Segment}

/-- A stray character may be replaced by a blank: no piece before it goes on past
either of them. -/
theorem tidy_one {cs : List Char} (h : Cut cs (before ++ s :: after)) :
    Cut ((before ++ s.tidied :: after).flatMap Segment.text) (before ++ s.tidied :: after) := by
  by_cases hs : s.cls = .stray
  · have hblank : s.tidied = ⟨.blank, [' ']⟩ := if_pos hs
    have hlast : ∀ front x, before = front ++ [x] → x.cls ≠ .comment := by
      rintro front x rfl hx
      rw [List.append_assoc] at h
      rw [h.newline_of_comment hx] at hs
      cases hs
    have hrest : Cut (' ' :: after.flatMap Segment.text) (⟨.blank, [' ']⟩ :: after) :=
      .cons (longest_blank (.inl rfl) _) h.tail.uncons.2
    rw [hblank, List.flatMap_append]
    exact h.replace h.closed_of_next hlast rfl hrest
  · have hkeep : s.tidied = s := if_neg hs
    rw [hkeep, h.flatMap_text]
    exact h

/-- **All stray characters may be replaced by blanks**, from the left to the right.
The pieces that have been tidied are kept in front. -/
theorem tidy {cs : List Char} {pieces : List Segment} (h : Cut cs (before ++ pieces)) :
    Cut ((before ++ pieces.map Segment.tidied).flatMap Segment.text)
      (before ++ pieces.map Segment.tidied) := by
  induction pieces generalizing before cs with
  | nil =>
      rw [List.map_nil, h.flatMap_text]
      exact h
  | cons s pieces ih =>
      have hnext := h.tidy_one
      rw [List.append_cons] at hnext
      rw [List.map_cons, List.append_cons]
      exact ih hnext

end Cut

/-! ## The text -/

/-- A stray character is a single one. -/
theorem Lexical.text_of_stray {s : Segment} {rest : List Char} (h : Lexical s.cls s.text rest)
    (hs : s.cls = .stray) : ∃ c, s.text = [c] := by
  obtain ⟨cls, text⟩ := s
  subst hs
  cases h with
  | @stray c => exact ⟨c, rfl⟩

/-- **Blanks at the positions of the stray characters make the pieces tidy.**  What
stands before the pieces may have been changed already, but not in length. -/
theorem withBlanks_strays {pieces : List Segment}
    (hpieces : ∀ s ∈ pieces, ∃ rest, Lexical s.cls s.text rest) {before done : List Char}
    (hlength : done.length = before.length) :
    withBlanks (straysAmong (placesFrom before pieces)) (done ++ pieces.flatMap Segment.text)
      = done ++ (pieces.map Segment.tidied).flatMap Segment.text := by
  induction pieces generalizing before done with
  | nil => rfl
  | cons s pieces ih =>
      obtain ⟨rest, hlexical⟩ := hpieces s List.mem_cons_self
      have hlater : ∀ x ∈ pieces, ∃ rest, Lexical x.cls x.text rest :=
        fun x hx => hpieces x (List.mem_cons_of_mem s hx)
      by_cases hs : s.cls = .stray
      · obtain ⟨c, hc⟩ := hlexical.text_of_stray hs
        have htidied : s.tidied = ⟨.blank, [' ']⟩ := if_pos hs
        have hset : (done ++ c :: pieces.flatMap Segment.text).set before.length ' '
            = done ++ [' '] ++ pieces.flatMap Segment.text := by
          rw [← hlength, List.set_append_right _ _ (Nat.le_refl _), Nat.sub_self]
          simp
        have hnext : (done ++ [' ']).length = (before ++ [c]).length := by
          simp [hlength]
        have hstrays : straysAmong (placesFrom before (s :: pieces))
            = before.length :: straysAmong (placesFrom (before ++ [c]) pieces) := by
          simp [straysAmong, placesFrom, hs, hc]
        rw [hstrays, List.flatMap_cons, hc, List.map_cons, List.flatMap_cons, htidied, withBlanks,
          List.foldl_cons, List.singleton_append, hset]
        exact (ih hlater hnext).trans (List.append_assoc _ _ _)
      · have htidied : s.tidied = s := if_neg hs
        have hnext : (done ++ s.text).length = (before ++ s.text).length := by
          simp [hlength]
        have hstrays : straysAmong (placesFrom before (s :: pieces))
            = straysAmong (placesFrom (before ++ s.text) pieces) := by
          simp [straysAmong, placesFrom, hs]
        rw [hstrays, List.flatMap_cons, List.map_cons, List.flatMap_cons, htidied,
          ← List.append_assoc, ← List.append_assoc]
        exact ih hlater hnext

/-- The tidied text is made of tidied pieces. -/
theorem toList_tidied (source : String) :
    (tidied source).toList
      = ((segments source.toList).map Segment.tidied).flatMap Segment.text := by
  have h := withBlanks_strays (cut_segments source.toList).lexical (Eq.refl ([] : List Char).length)
  rw [flatMap_segments] at h
  rw [tidied, String.toList_ofList]
  exact h

/-- Every stray character is reported once. -/
theorem length_strays (source : String) :
    (strays source).length
      = (scan source).errors.countP fun d => d.message == "Unexpected character." := by
  rw [scan_eq_places, strays, straysAmong, List.length_map, List.countP_filterMap,
    ← List.countP_eq_length_filter]
  apply List.countP_congr
  rintro ⟨before, cls, text⟩ -
  cases cls <;> simp [Place.diagnostic?, Segment.diagnostic?, Diagnostic.onLine]

/-! ## The scan -/

namespace Segment

variable {s : Segment}

/-- No line feed is lost. -/
theorem lineAfter_tidied {rest : List Char} (hs : Lexical s.cls s.text rest) (line : Int) :
    s.tidied.lineAfter line = s.lineAfter line := by
  obtain ⟨cls, text⟩ := s
  cases hs with
  | stray hblank hquote hdigit hletter hsymbol =>
      simp [tidied, lineAfter, List.count_cons_of_ne hblank.2.2.2]
  | _ => rfl

/-- No token is lost. -/
theorem token?_tidied (line : Int) : s.tidied.token? line = s.token? line := by
  obtain ⟨cls, text⟩ := s
  cases cls <;> rfl

/-- Only stray characters are no longer reported. -/
theorem diagnostic?_tidied (line : Int) :
    (s.tidied.diagnostic? line).toList
      = (s.diagnostic? line).toList.filter fun d => d.message != "Unexpected character." := by
  obtain ⟨cls, text⟩ := s
  cases cls <;> rfl

end Segment

/-- What is read off tidied pieces. -/
theorem Scan.ofSegments_tidied {pieces : List Segment}
    (hpieces : ∀ s ∈ pieces, ∃ rest, Lexical s.cls s.text rest) (line : Int) :
    ofSegments line (pieces.map Segment.tidied) =
      { ofSegments line pieces with
        errors := (ofSegments line pieces).errors.filter fun d =>
          d.message != "Unexpected character." } := by
  induction pieces generalizing line with
  | nil => rfl
  | cons s pieces ih =>
      obtain ⟨rest, hs⟩ := hpieces s List.mem_cons_self
      have hlater := ih (fun x hx => hpieces x (List.mem_cons_of_mem s hx)) (s.lineAfter line)
      simp only [List.map_cons, ofSegments, Segment.lineAfter_tidied hs, Segment.token?_tidied,
        Segment.diagnostic?_tidied, hlater, List.filter_append]

/-- **A stray character is a blank to everything but the reports.**  There is one
stray character for each report.  With a blank in place of every stray character a
text has the same pieces otherwise and the same tokens, on the same lines; no stray
character is reported then, and a string that is not closed is reported as before. -/
theorem strays_are_blanks (source : String) :
    (strays source).length
        = (scan source).errors.countP (fun d => d.message == "Unexpected character.") ∧
      segments (tidied source).toList = (segments source.toList).map Segment.tidied ∧
      (scan (tidied source)).tokens = (scan source).tokens ∧
      (scan (tidied source)).errors
        = (scan source).errors.filter (fun d => d.message != "Unexpected character.") ∧
      (scan (tidied source)).line = (scan source).line := by
  have hcut : Cut source.toList ([] ++ segments source.toList) := cut_segments source.toList
  have hlexical := (cut_segments source.toList).lexical
  have hpieces : segments (tidied source).toList
      = (segments source.toList).map Segment.tidied := by
    rw [toList_tidied]
    exact (cut_iff.mp hcut.tidy).symm
  refine ⟨length_strays source, hpieces, ?_⟩
  rw [scan, scan, Scan.ofChars, Scan.ofChars, hpieces, Scan.ofSegments_tidied hlexical]
  exact ⟨rfl, rfl, rfl⟩

end LoxCalc
