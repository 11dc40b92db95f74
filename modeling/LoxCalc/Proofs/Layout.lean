import LoxCalc.Proofs.Placement

/-!
# Layout

Blanks, line feeds and comments may be put before and after every token.  A
**layout** starts with a blank or a line feed, so it ends the segment before it,
and every comment in it is ended by a line feed, so it takes in nothing of what
comes after it.

* `Cut.insert`: a text is cut around a layout as it was cut without it;
* `layout_keeps_meaning`: a text with a layout more has the same tokens, and
  texts with the same tokens mean the same.
-/

namespace LoxCalc

/-- Blanks, line feeds and comments that are ended by line feeds, in any order. -/
inductive Filler : List Char → Prop
  | nil : Filler []
  | blank {c : Char} {more : List Char} (hc : isLayout c = true) (hmore : Filler more) :
      Filler (c :: more)
  | comment {body more : List Char} (hbody : '\n' ∉ body) (hmore : Filler more) :
      Filler ('/' :: '/' :: body ++ '\n' :: more)

/-- A blank or a line feed, and filler after it. -/
inductive Layout : List Char → Prop
  | mk {c : Char} {more : List Char} (hc : isLayout c = true) (hmore : Filler more) :
      Layout (c :: more)

/-! ## Cutting layout -/

/-- Blanks, line feeds and comments. -/
def Segment.isFiller (s : Segment) : Bool :=
  match s.cls with
  | .blank | .newline | .comment => true
  | _ => false

/-- Filler gives no token. -/
theorem Segment.token?_of_isFiller {s : Segment} (h : s.isFiller = true) (line : Int) :
    s.token? line = none := by
  obtain ⟨cls, text⟩ := s
  cases cls with
  | blank | newline | comment => rfl
  | _ => cases h

/-- Filler is no problem. -/
theorem Segment.isProblem_of_isFiller {s : Segment} (h : s.isFiller = true) :
    s.isProblem = false := by
  obtain ⟨cls, text⟩ := s
  cases cls with
  | blank | newline | comment => rfl
  | _ => cases h

section Filler

variable {fill : List Segment} (hfill : ∀ s ∈ fill, s.isFiller = true)

include hfill

/-- There are no tokens in filler. -/
theorem filterMap_token?_of_isFiller (line : Int) : fill.filterMap (Segment.token? line) = [] := by
  rw [List.filterMap_eq_nil_iff]
  intro s hs
  exact Segment.token?_of_isFiller (hfill s hs) line

/-- There are no problems in filler. -/
theorem filter_isProblem_of_isFiller : fill.filter Segment.isProblem = [] := by
  rw [List.filter_eq_nil_iff]
  intro s hs
  rw [Segment.isProblem_of_isFiller (hfill s hs)]
  exact Bool.false_ne_true

end Filler

/-- A layout character is a segment of its own. -/
theorem exists_longest_of_isLayout {c : Char} (hc : isLayout c = true) (rest : List Char) :
    ∃ s : Segment, s.isFiller = true ∧ s.text = [c] ∧ Longest s rest := by
  rcases isLayout_iff.mp hc with hblank | rfl
  · exact ⟨⟨.blank, [c]⟩, rfl, rfl, longest_blank hblank rest⟩
  · exact ⟨⟨.newline, ['\n']⟩, rfl, rfl, longest_of_first_eq rfl rfl⟩

/-- A comment is cut off at the end of its line. -/
theorem longest_comment {body : List Char} (hbody : '\n' ∉ body) (rest : List Char) :
    Longest ⟨.comment, '/' :: '/' :: body⟩ ('\n' :: rest) := by
  refine longest_of_first_eq rfl ?_
  show Segment.first '/' ('/' :: (body ++ '\n' :: rest)) = _
  rw [Segment.first_comment, commentRest, ← List.cons_append,
    takeWhile_append_cons (bne_newline_of_mem hbody) rfl]

/-- **Filler is cut off as a whole**, whatever follows it. -/
theorem Filler.cut {l rest : List Char} {pieces : List Segment} (h : Filler l)
    (hrest : Cut rest pieces) :
    ∃ fill : List Segment, (∀ s ∈ fill, s.isFiller = true) ∧ Cut (l ++ rest) (fill ++ pieces) := by
  induction h with
  | nil => exact ⟨[], by simp, hrest⟩
  | @blank c more hc hmore ih =>
      obtain ⟨fill, hfill, hcut⟩ := ih
      obtain ⟨s, hs, htext, hlongest⟩ := exists_longest_of_isLayout hc (more ++ rest)
      refine ⟨s :: fill, List.forall_mem_cons.mpr ⟨hs, hfill⟩, ?_⟩
      have hnext := Cut.cons hlongest hcut
      rwa [htext] at hnext
  | @comment body more hbody hmore ih =>
      obtain ⟨fill, hfill, hcut⟩ := ih
      have hline : Longest ⟨.newline, ['\n']⟩ (more ++ rest) := longest_of_first_eq rfl rfl
      have hcomment := longest_comment hbody (more ++ rest)
      refine ⟨⟨.comment, '/' :: '/' :: body⟩ :: ⟨.newline, ['\n']⟩ :: fill, ?_, ?_⟩
      · exact List.forall_mem_cons.mpr ⟨rfl, List.forall_mem_cons.mpr ⟨rfl, hfill⟩⟩
      · rw [List.append_assoc]
        exact .cons hcomment (.cons hline hcut)

/-! ## Inserting layout -/

namespace Cut

variable {before after : List Segment}

/-- The pieces put together are the text. -/
theorem flatMap_text {cs : List Char} {pieces : List Segment} (h : Cut cs pieces) :
    pieces.flatMap Segment.text = cs := by
  rw [cut_iff.mp h, flatMap_segments]

/-- A text is cut by cutting off its longest segment. -/
theorem uncons {cs : List Char} {s : Segment} {pieces : List Segment} (h : Cut cs (s :: pieces)) :
    Longest s (pieces.flatMap Segment.text) ∧ Cut (pieces.flatMap Segment.text) pieces := by
  cases h with
  | cons hs hrest =>
      rw [hrest.flatMap_text]
      exact ⟨hs, hrest⟩

/-- What comes after some pieces is cut into the remaining ones. -/
theorem tail {cs : List Char} (h : Cut cs (before ++ after)) :
    Cut (after.flatMap Segment.text) after := by
  induction before generalizing cs with
  | nil =>
      rw [List.nil_append] at h
      rwa [h.flatMap_text]
  | cons s before ih => exact ih h.uncons.2

/-- The text after some pieces may be replaced by one that starts with a layout
character, unless the last of the pieces is a comment. -/
theorem replace {cs : List Char} (h : Cut cs (before ++ after))
    (hclosed : ∀ s ∈ before, s.cls ≠ .openString)
    (hlast : ∀ front s, before = front ++ [s] → s.cls ≠ .comment)
    {c : Char} (hc : isLayout c = true) {more : List Char} {pieces : List Segment}
    (hnew : Cut (c :: more) pieces) :
    Cut (before.flatMap Segment.text ++ c :: more) (before ++ pieces) := by
  induction before generalizing cs with
  | nil => exact hnew
  | cons s before ih =>
      rw [List.cons_append] at h
      obtain ⟨hs, hrest⟩ := h.uncons
      rw [List.flatMap_append] at hs
      have hcomment : s.cls = .comment → before.flatMap Segment.text ≠ [] := by
        intro hcls
        cases before with
        | nil => exact absurd hcls (hlast [] s rfl)
        | cons x before =>
            have hx : x.text ≠ [] := hrest.uncons.1.lexical.ne_nil
            simp [hx]
      rw [List.flatMap_cons, List.append_assoc]
      refine .cons (hs.before_layout (hclosed s List.mem_cons_self) hcomment hc) ?_
      apply ih hrest
      · exact fun x hx => hclosed x (List.mem_cons_of_mem s hx)
      · rintro front x rfl
        exact hlast (s :: front) x rfl

/-- **Layout changes no other piece**, wherever it is put between two of them,
unless it is right after a comment. -/
theorem insert {cs l : List Char} (h : Cut cs (before ++ after))
    (hclosed : ∀ s ∈ before, s.cls ≠ .openString)
    (hlast : ∀ front s, before = front ++ [s] → s.cls ≠ .comment) (hl : Layout l) :
    ∃ fill : List Segment, (∀ s ∈ fill, s.isFiller = true) ∧
      Cut (before.flatMap Segment.text ++ l ++ after.flatMap Segment.text)
        (before ++ (fill ++ after)) := by
  obtain ⟨hc, hmore⟩ := hl
  obtain ⟨fill, hfill, hcut⟩ := (Filler.blank hc hmore).cut h.tail
  refine ⟨fill, hfill, ?_⟩
  rw [List.append_assoc]
  exact h.replace hclosed hlast hc hcut

/-- What comes right after a comment is a line feed. -/
theorem newline_of_comment {cs : List Char} {front : List Segment} {x s : Segment}
    (h : Cut cs (front ++ x :: s :: after)) (hx : x.cls = .comment) :
    s = ⟨.newline, ['\n']⟩ := by
  obtain ⟨hcomment, hrest⟩ := h.tail.uncons
  rw [List.flatMap_cons] at hcomment
  rcases hcomment.rest_of_comment hx with hnil | ⟨more, hline⟩
  · have htext : s.text ≠ [] := hrest.uncons.1.lexical.ne_nil
    exact absurd (List.append_eq_nil_iff.mp hnil).1 htext
  · -- what starts with a line feed is a line feed
    exact (hrest.uncons.1.eq_first hline).1

/-- A token is not right after a comment. -/
theorem cls_of_next {cs : List Char} {front : List Segment} {x s : Segment}
    (h : Cut cs (front ++ x :: s :: after)) (hs : s.isToken = true) : x.cls ≠ .comment := by
  intro hx
  rw [h.newline_of_comment hx] at hs
  cases hs

/-- Only the last piece can be a string that is not closed. -/
theorem closed_of_next {cs : List Char} {s : Segment} (h : Cut cs (before ++ s :: after)) :
    ∀ x ∈ before, x.cls ≠ .openString := by
  intro x hx hcls
  obtain ⟨front, back, rfl⟩ := List.append_of_mem hx
  rw [List.append_assoc, List.cons_append] at h
  obtain ⟨hopen, hrest⟩ := h.tail.uncons
  have htext : s.text ≠ [] := hrest.tail.uncons.1.lexical.ne_nil
  have hlexical := hopen.lexical
  obtain ⟨cls, text⟩ := x
  subst hcls
  generalize hafter : (back ++ s :: after).flatMap Segment.text = rest at hlexical
  cases hlexical with
  | openString hbody => simp [htext] at hafter

end Cut

/-! ## Tokens between layout -/

/-- Segments from which no problem is read off have none among them. -/
theorem filter_isProblem_of_errors {pieces : List Segment} {line : Int}
    (h : (Scan.ofSegments line pieces).errors = []) : pieces.filter Segment.isProblem = [] := by
  have hreports := Scan.errors_ofSegments pieces line
  rw [h] at hreports
  exact List.forall₂_nil_right_iff.mp hreports

/-- **Filler between its segments leaves a text with the same tokens.** -/
theorem SameTokens.of_filler {source other : String} {before fill after : List Segment}
    (hsource : (scan source).errors = []) (hsegments : segments source.toList = before ++ after)
    (hfill : ∀ s ∈ fill, s.isFiller = true)
    (hother : segments other.toList = before ++ (fill ++ after)) : SameTokens source other where
  errors_left := hsource
  errors_right := by
    have hnone := filter_isProblem_of_errors hsource
    rw [hsegments, List.filter_append] at hnone
    rw [scan, Scan.ofChars, hother]
    apply Scan.errors_ofSegments_eq_nil
    rw [List.filter_append, List.filter_append, filter_isProblem_of_isFiller hfill,
      List.nil_append]
    exact hnone
  tokens := by
    rw [scan, scan, Scan.ofChars, Scan.ofChars, Scan.unplaced_tokens_ofSegments,
      Scan.unplaced_tokens_ofSegments, hsegments, hother, List.filterMap_append,
      List.filterMap_append, List.filterMap_append, filterMap_token?_of_isFiller hfill,
      List.nil_append]

/-- Layout between two pieces of a text, the first of which is no comment, leaves
it with the same tokens. -/
theorem SameTokens.of_layout {source : String} {before after : List Segment} {l : List Char}
    (hsource : (scan source).errors = []) (hsegments : segments source.toList = before ++ after)
    (hlast : ∀ front s, before = front ++ [s] → s.cls ≠ .comment) (hl : Layout l) :
    SameTokens source
      (String.ofList (before.flatMap Segment.text ++ l ++ after.flatMap Segment.text)) := by
  have hcut : Cut source.toList (before ++ after) := cut_iff.mpr hsegments.symm
  have hclosed : ∀ s ∈ before, s.cls ≠ .openString := by
    intro s hs hcls
    have hnone := filter_isProblem_of_errors hsource
    rw [hsegments, List.filter_eq_nil_iff] at hnone
    apply hnone s (List.mem_append_left after hs)
    rw [Segment.isProblem, hcls]
  obtain ⟨fill, hfill, hnew⟩ := hcut.insert hclosed hlast hl
  refine .of_filler hsource hsegments hfill ?_
  rw [String.toList_ofList]
  exact (cut_iff.mp hnew).symm

/-- **Layout never changes meaning.**  Texts that are scanned without a problem
into the same tokens up to lines are parsed alike: their trees are equal up to the
lines of operators, are shown by the same strings, and evaluate to the same value
or to the same complaint up to its line, or else both have the same problems up to
lines.  And a layout that is put before or after any token of a text without
problems gives a text with the same tokens. -/
theorem layout_keeps_meaning :
    (∀ a b : String, SameTokens a b →
      ∃ p q, Parser.ofTokens (scan a).tokens = .ok p ∧ Parser.ofTokens (scan b).tokens = .ok q ∧
        ParsedAlike p q ∧
        ((p.parse? = .ok p.parse ∧ q.parse? = .ok q.parse) ∨
          (p.parse? = .error .tooDeep ∧ q.parse? = .error .tooDeep))) ∧
    ∀ source : String, (scan source).errors = [] →
      ∀ before s after, segments source.toList = before ++ s :: after → s.isToken = true →
        ∀ l, Layout l →
          SameTokens source (String.ofList
            (before.flatMap Segment.text ++ l ++ (s.text ++ after.flatMap Segment.text))) ∧
          SameTokens source (String.ofList
            (before.flatMap Segment.text ++ s.text ++ l ++ after.flatMap Segment.text)) := by
  refine ⟨fun a b h => h.parsedAlike, ?_⟩
  intro source hsource before s after hsegments hs l hl
  constructor
  · have hsame := SameTokens.of_layout hsource hsegments (l := l) ?_ hl
    · rw [List.flatMap_cons] at hsame
      exact hsame
    · rintro front x rfl
      have hcut : Cut source.toList (front ++ x :: s :: after) := by
        rw [cut_iff, hsegments, List.append_assoc]
        rfl
      exact hcut.cls_of_next hs
  · have hsplit : segments source.toList = (before ++ [s]) ++ after := by
      rw [hsegments, List.append_assoc]
      rfl
    have hsame := SameTokens.of_layout hsource hsplit (l := l) ?_ hl
    · rw [List.flatMap_append, List.flatMap_singleton] at hsame
      exact hsame
    · intro front x hlast
      obtain ⟨-, hx⟩ := List.append_inj' hlast rfl
      rw [← (List.cons.inj hx).1]
      exact (Segment.cls_of_isToken hs).1

/-- A sum spread over three lines has the tokens of the sum on one line and is
parsed like it. -/
theorem layout_keeps_meaning_sum :
    SameTokens "1+nil" "1\n// one\n+nil" ∧
      (scan "1+nil").tokens.map Token.line = [1, 1, 1, 1] ∧
      (scan "1\n// one\n+nil").tokens.map Token.line = [1, 3, 3, 3] ∧
      ∃ p q, Parser.ofTokens (scan "1+nil").tokens = .ok p ∧
        Parser.ofTokens (scan "1\n// one\n+nil").tokens = .ok q ∧ ParsedAlike p q := by
  have hsegments : segments "1+nil".toList
      = [⟨.number, ['1']⟩] ++ ⟨.symbol .plus, ['+']⟩ :: [⟨.word, ['n', 'i', 'l']⟩] := by
    decide
  have hlayout : Layout "\n// one\n".toList :=
    .mk rfl (@Filler.comment [' ', 'o', 'n', 'e'] [] (by decide) .nil)
  have hsame : SameTokens "1+nil" "1\n// one\n+nil" :=
    (layout_keeps_meaning.2 "1+nil" (by decide) _ _ _ hsegments rfl _ hlayout).1
  obtain ⟨p, q, hp, hq, halike, -⟩ := layout_keeps_meaning.1 _ _ hsame
  exact ⟨hsame, by decide, by decide, p, q, hp, hq, halike⟩

end LoxCalc
