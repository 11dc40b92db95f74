import LoxCalc.Proofs.Layout
import LoxCalc.Text.Blank
import Mathlib.Data.List.DropRight

/-!
# Blanks around a text

There are more blank characters than may stand between tokens.  Still all of
them may be removed from both ends of a text without problems: at the front
there is none of the others, which would be stray characters, and at the end
they stand in a comment.  Only line feeds are counted, so there must be none.

* `Longest.truncate` and `Cut.truncate`: a text that ends before is cut like the
  whole, up to the piece in which it ends;
* `Scan.ofChars_cons_blank` and `Scan.ofChars_concat_blank`: one blank character
  less at the front or at the end;
* `scan_strip`: all of them at once.
-/

namespace LoxCalc

/-! ## Blank characters -/

namespace Text

/-- No visible character of the basic alphabet is blank. -/
theorem isBlank_of_visible {c : Char} (h : 32 < c.toNat) (h' : c.toNat < 127) :
    isBlank c = false := by
  simp only [isBlank, blanks, List.any_cons, List.any_nil, Bool.or_false, Bool.or_eq_false_iff,
    Bool.and_eq_false_imp, decide_eq_true_eq, decide_eq_false_iff_not, Nat.not_le]
  omega

/-- A blank character differs from every character that is none. -/
theorem ne_of_isBlank {c d : Char} (hc : isBlank c = true) (hd : isBlank d = false) : c ≠ d := by
  rintro rfl
  rw [hc] at hd
  cases hd

/-- A blank character belongs to no number and to no word. -/
theorem not_word_of_isBlank {c : Char} (hc : isBlank c = true) :
    ¬(c.isAlpha = true ∨ c = '_' ∨ c.isDigit = true) := by
  have hvisible : ¬(32 < c.toNat ∧ c.toNat < 127) := by
    rintro ⟨h, h'⟩
    rw [isBlank_of_visible h h'] at hc
    cases hc
  rintro (halpha | rfl | hdigit)
  · have hcode := toNat_of_isAlpha halpha
    omega
  · exact hvisible ⟨by decide, by decide⟩
  · have hcode := toNat_of_isDigit hdigit
    omega

end Text

/-- No character of a symbol is blank. -/
theorem Symbol.isBlank_of_mem {s : Symbol} {c : Char} (h : c ∈ s.text.toList) :
    Text.isBlank c = false := by
  have hall : s.text.toList.all (fun c => !Text.isBlank c) = true := by
    cases s <;> decide
  simpa using List.all_eq_true.mp hall c h

/-- A segment that is no problem is neither an open string nor a stray character. -/
theorem Segment.cls_of_not_isProblem {s : Segment} (h : s.isProblem = false) :
    s.cls ≠ .openString ∧ s.cls ≠ .stray := by
  obtain ⟨cls, text⟩ := s
  cases cls with
  | openString | stray => cases h
  | _ => exact ⟨nofun, nofun⟩

/-- At the front of a text a blank character stands between tokens or is stray. -/
theorem Segment.first_of_isBlank {c : Char} (hc : Text.isBlank c = true) (hn : c ≠ '\n')
    (cs : List Char) : first c cs = ⟨.blank, [c]⟩ ∨ first c cs = ⟨.stray, [c]⟩ := by
  have hword := Text.not_word_of_isBlank hc
  by_cases hblank : c = ' ' ∨ c = '\r' ∨ c = '\t'
  · exact .inl (first_blank hblank cs)
  · right
    simp only [not_or, Bool.not_eq_true] at hblank hword
    refine first_stray ⟨hblank.1, hblank.2.1, hblank.2.2, hn⟩ (Text.ne_of_isBlank hc (by decide))
      hword.2.2 ⟨hword.1, hword.2.1⟩ ?_ cs
    intro s hs
    exact Text.ne_of_isBlank hc (s.isBlank_of_mem (by rw [hs]; exact List.mem_singleton_self c)) rfl

/-- A segment that ends with a blank character and is no problem is that character
alone, or a comment that may as well end before it. -/
theorem Lexical.of_concat_blank {cls : Segment.Class} {u v : List Char} {c : Char}
    (h : Lexical cls (u ++ [c]) v) (hc : Text.isBlank c = true) (hn : c ≠ '\n')
    (hproblem : cls ≠ .openString ∧ cls ≠ .stray) :
    (cls = .blank ∧ u = []) ∨ (cls = .comment ∧ Lexical .comment u []) := by
  have hword := Text.not_word_of_isBlank hc
  have hmem : c ∈ u ++ [c] := by simp
  generalize hx : u ++ [c] = x at h hmem
  cases h with
  | blank _ => exact .inl ⟨rfl, (List.append_eq_singleton_iff.mp hx).elim And.left (by simp)⟩
  | newline => exact absurd (List.mem_singleton.mp hmem) hn
  | @comment body _ hbody =>
      cases u with
      | nil => cases hx
      | cons a u =>
          obtain ⟨rfl, hrest⟩ := List.cons.inj hx
          cases u with
          | nil => exact absurd (List.cons.inj hrest).1 (Text.ne_of_isBlank hc (by decide))
          | cons b u =>
              obtain ⟨rfl, rfl⟩ := List.cons.inj hrest
              exact .inr ⟨rfl, .comment fun hmem => hbody (List.mem_append_left _ hmem)⟩
  | @string body _ hbody =>
      obtain ⟨-, hlast⟩ := List.append_inj' hx rfl
      exact absurd (List.cons.inj hlast).1 (Text.ne_of_isBlank hc (by decide))
  | openString _ => exact absurd rfl hproblem.1
  | whole hne hds => exact absurd (.inr (.inr (hds c hmem))) hword
  | fraction hne hds hfne hfs =>
      rcases List.mem_append.mp hmem with hwhole | hrest
      · exact absurd (.inr (.inr (hds c hwhole))) hword
      rcases List.mem_cons.mp hrest with hpoint | hfraction
      · exact absurd hpoint (Text.ne_of_isBlank hc (by decide))
      · exact absurd (.inr (.inr (hfs c hfraction))) hword
  | word hstart hcs =>
      rcases List.mem_cons.mp hmem with rfl | hmore
      · exact absurd (hstart.imp_right .inl) hword
      · exact absurd (hcs c hmore) hword
  | symbol s => exact absurd rfl (Text.ne_of_isBlank hc (s.isBlank_of_mem hmem))
  | stray => exact absurd rfl hproblem.2

/-! ## Texts that end before -/

/-- A segment stays the longest one if the text ends before, but not within it. -/
theorem Longest.truncate {s : Segment} {w rest : List Char} (h : Longest s (w ++ rest))
    (hs : s.cls ≠ .openString) : Longest s w where
  lexical := h.lexical.of_ne_openString hs _
  longest := by
    intro cls u v htext hu
    by_cases hcls : cls = .openString
    · -- a string that is open now would have been open before
      subst hcls
      cases hu with
      | @openString body hbody =>
          rw [List.append_nil] at htext
          have hold : s.text ++ (w ++ rest) = '\x22' :: (body ++ rest) := by
            rw [← List.append_assoc, ← htext]
            rfl
          obtain ⟨inside, hclosed⟩ := h.text_of_quote hs hold
          rw [hclosed] at htext
          have hmem : '\x22' ∈ body := by
            rw [(List.cons.inj htext).2]
            simp
          exact absurd hmem hbody
    · refine h.longest cls u (v ++ rest) ?_ (hu.of_ne_openString hcls _)
      rw [← List.append_assoc, htext, List.append_assoc]

/-- **A text that ends before is cut like the whole**, up to the piece in which it
ends. -/
theorem Cut.truncate {before after : List Segment} {cs xs rest : List Char}
    (h : Cut cs (before ++ after)) (hclosed : ∀ s ∈ before, s.cls ≠ .openString)
    (hafter : after.flatMap Segment.text = xs ++ rest) {pieces : List Segment}
    (hnew : Cut xs pieces) : Cut (before.flatMap Segment.text ++ xs) (before ++ pieces) := by
  induction before generalizing cs with
  | nil => exact hnew
  | cons s before ih =>
      rw [List.cons_append] at h
      obtain ⟨hs, hrest⟩ := h.uncons
      rw [List.flatMap_append, hafter, ← List.append_assoc] at hs
      rw [List.flatMap_cons, List.append_assoc]
      refine .cons (hs.truncate (hclosed s List.mem_cons_self)) (ih hrest ?_)
      intro x hx
      exact hclosed x (List.mem_cons_of_mem s hx)

/-! ## Scanning without the blanks -/

namespace Scan

variable {line : Int} {cs : List Char} {c : Char}

/-- Filler on the line changes nothing. -/
theorem ofSegments_cons_filler {s : Segment} (hs : s.isFiller = true) (hn : '\n' ∉ s.text)
    (line : Int) (rest : List Segment) :
    ofSegments line (s :: rest) = ofSegments line rest := by
  have hline : s.lineAfter line = line := by
    simp [Segment.lineAfter, List.count_eq_zero_of_not_mem hn]
  have hdiagnostic : s.diagnostic? line = none := by
    rcases s.diagnostic?_spec line with ⟨hproblem, -⟩ | ⟨-, hnone⟩
    · rw [Segment.isProblem_of_isFiller hs] at hproblem
      cases hproblem
    · exact hnone
  simp [ofSegments, hline, Segment.token?_of_isFiller hs, hdiagnostic]

theorem ofSegments_append_congr {later later' : List Segment}
    (h : ∀ line, ofSegments line later = ofSegments line later') (before : List Segment)
    (line : Int) : ofSegments line (before ++ later) = ofSegments line (before ++ later') := by
  induction before generalizing line with
  | nil => exact h line
  | cons s before ih => simp only [List.cons_append, ofSegments, ih]

/-- A blank character at the front of a line without problems changes nothing. -/
theorem ofChars_cons_blank (hc : Text.isBlank c = true) (hn : c ≠ '\n')
    (herrors : (ofChars line (c :: cs)).errors = []) :
    ofChars line (c :: cs) = ofChars line cs := by
  rw [ofChars, segments_cons] at herrors ⊢
  have hproblem := List.filter_eq_nil_iff.mp (filter_isProblem_of_errors herrors)
  rcases Segment.first_of_isBlank hc hn cs with hfirst | hfirst
  · rw [hfirst]
    refine ofSegments_cons_filler rfl ?_ line _
    intro hmem
    exact hn (List.mem_singleton.mp hmem).symm
  · rw [hfirst] at hproblem
    exact absurd rfl (hproblem _ List.mem_cons_self)

/-- What is left of the last piece without a blank character at its end is cut
into pieces that give the same. -/
theorem exists_cut_of_concat_blank {s : Segment} {u rest : List Char} (hu : s.text = u ++ [c])
    (hs : Lexical s.cls s.text rest) (hc : Text.isBlank c = true) (hn : c ≠ '\n')
    (hproblem : s.isProblem = false) :
    ∃ pieces, Cut u pieces ∧ ∀ line, ofSegments line [s] = ofSegments line pieces := by
  have hmember : '\n' ∉ u → '\n' ∉ s.text := by
    intro hnone
    rw [hu]
    simp [hnone, hn.symm]
  have hsafe := Segment.cls_of_not_isProblem hproblem
  rw [hu] at hs
  rcases hs.of_concat_blank hc hn hsafe with ⟨hcls, rfl⟩ | ⟨hcls, hcomment⟩
  · have hfiller : s.isFiller = true := by rw [Segment.isFiller, hcls]
    exact ⟨[], .nil, fun line => ofSegments_cons_filler hfiller (hmember (by simp)) line []⟩
  · have hfiller : s.isFiller = true := by rw [Segment.isFiller, hcls]
    have hnone : '\n' ∉ u := by
      cases hcomment with
      | comment hbody => simp [hbody]
    have hcut := Cut.cons (Lexical.longest_nil (s := ⟨.comment, u⟩) hcomment) .nil
    rw [List.append_nil] at hcut
    refine ⟨_, hcut, ?_⟩
    intro line
    rw [ofSegments_cons_filler hfiller (hmember hnone), ofSegments_cons_filler rfl hnone]

/-- A blank character at the end of a line without problems changes nothing. -/
theorem ofChars_concat_blank (hc : Text.isBlank c = true) (hn : c ≠ '\n')
    (herrors : (ofChars line (cs ++ [c])).errors = []) :
    ofChars line (cs ++ [c]) = ofChars line cs := by
  have hcut := cut_segments (cs ++ [c])
  have hproblem := List.filter_eq_nil_iff.mp (filter_isProblem_of_errors herrors)
  rw [ofChars]
  rcases List.eq_nil_or_concat (segments (cs ++ [c])) with hnil | ⟨before, s, hpieces⟩
  · have htext := hcut.flatMap_text
    rw [hnil] at htext
    simp at htext
  rw [List.concat_eq_append] at hpieces
  rw [hpieces] at hcut hproblem ⊢
  have hsafe : ∀ x ∈ before ++ [s], x.isProblem = false := by
    intro x hx
    simpa using hproblem x hx
  have hlast : s ∈ before ++ [s] := by simp
  obtain ⟨rest, hlexical⟩ := hcut.lexical s hlast
  -- the character at the end belongs to the last piece
  rcases List.eq_nil_or_concat s.text with hempty | ⟨u, d, hu⟩
  · exact absurd hempty hlexical.ne_nil
  rw [List.concat_eq_append] at hu
  have htext := hcut.flatMap_text
  rw [List.flatMap_append, List.flatMap_singleton, hu, ← List.append_assoc] at htext
  obtain ⟨rfl, hd⟩ := List.append_inj' htext rfl
  obtain rfl : d = c := (List.cons.inj hd).1
  obtain ⟨pieces, hnew, hsame⟩ :=
    exists_cut_of_concat_blank hu hlexical hc hn (hsafe s hlast)
  have hafter : [s].flatMap Segment.text = u ++ [d] := by
    rw [List.flatMap_singleton, hu]
  have hclosed : ∀ x ∈ before, x.cls ≠ .openString := by
    intro x hx
    exact (Segment.cls_of_not_isProblem (hsafe x (List.mem_append_left _ hx))).1
  rw [ofSegments_append_congr hsame, cut_iff.mp (hcut.truncate hclosed hafter hnew), ofChars]

/-- Blank characters at the front of a line without problems change nothing. -/
theorem ofChars_dropWhile (hn : '\n' ∉ cs) (herrors : (ofChars line cs).errors = []) :
    ofChars line (cs.dropWhile Text.isBlank) = ofChars line cs := by
  induction cs with
  | nil => rfl
  | cons c cs ih =>
      simp only [List.mem_cons, not_or] at hn
      by_cases hc : Text.isBlank c = true
      · have hkeep := ofChars_cons_blank hc (Ne.symm hn.1) herrors
        rw [hkeep] at herrors ⊢
        rw [List.dropWhile_cons_of_pos hc]
        exact ih hn.2 herrors
      · rw [List.dropWhile_cons_of_neg hc]

/-- Blank characters at the end of a line without problems change nothing. -/
theorem ofChars_rdropWhile (hn : '\n' ∉ cs) (herrors : (ofChars line cs).errors = []) :
    ofChars line (cs.rdropWhile Text.isBlank) = ofChars line cs := by
  induction cs using List.reverseRecOn with
  | nil => rfl
  | append_singleton cs c ih =>
      simp only [List.mem_append, List.mem_singleton, not_or] at hn
      by_cases hc : Text.isBlank c = true
      · have hkeep := ofChars_concat_blank hc (Ne.symm hn.2) herrors
        rw [hkeep] at herrors ⊢
        rw [List.rdropWhile_concat_pos _ _ _ hc]
        exact ih hn.1 herrors
      · rw [List.rdropWhile_concat_neg _ _ _ hc]

end Scan

/-- **A line without problems may be stripped of blanks**: its tokens stay the same,
with their lines. -/
theorem scan_strip {source : String} (hline : '\n' ∉ source.toList)
    (hscan : (scan source).errors = []) :
    scan (String.ofList (Text.strip Text.isBlank source.toList)) = scan source := by
  have hfront := Scan.ofChars_dropWhile hline hscan
  have hmore : '\n' ∉ source.toList.dropWhile Text.isBlank :=
    fun hmem => hline ((List.dropWhile_suffix _).subset hmem)
  have hback := Scan.ofChars_rdropWhile hmore (by rw [hfront]; exact hscan)
  rw [scan, String.toList_ofList]
  exact hback.trans hfront

end LoxCalc
