import LoxCalc.Proofs.Scanning

/-!
# Lines

The scanner counts lines as it goes.  What it arrives at can be said without
any counting on the way: a text **ends on** the line after as many line feeds as
there are in it, and every token is on the line on which the text up to its end
ends.

A **place** is a piece of a text together with everything that stands before it.

* `Scan.ofSegments_endLine`: a scan is read off the places of a text, each on
  the line on which it ends;
* `Cursor.OnLine.rounds`: a cursor is on the line that its position tells,
  after any number of rounds;
* `scan_lines_exact` puts these together.
-/

namespace LoxCalc

/-- The line on which a text ends. -/
def endLine (cs : List Char) : Int :=
  1 + cs.count '\n'

theorem endLine_append (u v : List Char) : endLine (u ++ v) = endLine u + v.count '\n' := by
  rw [endLine, endLine, List.count_append]
  omega

/-- A text ends on a later line than what it starts with, if not on the same. -/
theorem endLine_le_of_isPrefix {u v : List Char} (h : u <+: v) : endLine u ≤ endLine v := by
  obtain ⟨w, rfl⟩ := h
  rw [endLine_append]
  omega

/-- The line after a segment is the one on which the text ends then. -/
theorem Segment.lineAfter_endLine (s : Segment) (before : List Char) :
    s.lineAfter (endLine before) = endLine (before ++ s.text) :=
  (endLine_append before s.text).symm

/-! ## Places -/

/-- A piece of a text with everything that stands before it. -/
structure Place where
  before : List Char
  piece : Segment

namespace Place

/-- The text up to the end of the piece. -/
def upTo (p : Place) : List Char :=
  p.before ++ p.piece.text

/-- The token of the piece, on the line on which the piece ends. -/
def token? (p : Place) : Option Token :=
  p.piece.token? (endLine p.upTo)

/-- The problem of the piece, on the line on which the piece ends. -/
def diagnostic? (p : Place) : Option Diagnostic :=
  p.piece.diagnostic? (endLine p.upTo)

end Place

/-- The pieces one after the other, the first of them after `before`. -/
def placesFrom (before : List Char) : List Segment → List Place
  | [] => []
  | s :: pieces => ⟨before, s⟩ :: placesFrom (before ++ s.text) pieces

/-- The places of a source text. -/
def places (source : String) : List Place :=
  placesFrom [] (segments source.toList)

section Places

variable {before : List Char} {pieces : List Segment} {p : Place}

/-- Every place is after the start and ends before the end. -/
theorem isPrefix_of_mem_placesFrom (h : p ∈ placesFrom before pieces) :
    before <+: p.before ∧ p.upTo <+: before ++ pieces.flatMap Segment.text := by
  induction pieces generalizing before with
  | nil => cases h
  | cons s pieces ih =>
      rw [List.flatMap_cons, ← List.append_assoc]
      rcases List.mem_cons.mp h with rfl | h
      · exact ⟨List.prefix_rfl, List.prefix_append _ _⟩
      · obtain ⟨hstart, hend⟩ := ih h
        exact ⟨(List.prefix_append _ _).trans hstart, hend⟩

/-- A place ends before the next one starts. -/
theorem pairwise_placesFrom (before : List Char) (pieces : List Segment) :
    (placesFrom before pieces).Pairwise fun p q => p.upTo <+: q.before := by
  induction pieces generalizing before with
  | nil => exact .nil
  | cons s pieces ih =>
      refine .cons ?_ (ih _)
      intro q hq
      exact (isPrefix_of_mem_placesFrom hq).1

/-- A piece of a text fits the lexical grammar where it stands. -/
theorem Cut.lexical_place {cs : List Char} (h : Cut cs pieces) (hp : p ∈ placesFrom before pieces) :
    ∃ rest, Lexical p.piece.cls p.piece.text rest ∧ before ++ cs = p.upTo ++ rest := by
  induction h generalizing before with
  | nil => cases hp
  | @cons s rest pieces hs hrest ih =>
      rw [← List.append_assoc]
      rcases List.mem_cons.mp hp with rfl | hp
      · exact ⟨rest, hs.lexical, rfl⟩
      · exact ih hp

end Places

/-! ## Scans by places -/

namespace Segment

variable {s : Segment} {line : Int}

theorem line_of_token? {t : Token} (h : s.token? line = some t) : t.line = line := by
  obtain ⟨cls, text⟩ := s
  cases cls <;> cases h <;> rfl

theorem line_of_diagnostic? {d : Diagnostic} (h : s.diagnostic? line = some d) :
    d.line = some line := by
  obtain ⟨cls, text⟩ := s
  cases cls <;> cases h <;> rfl

end Segment

/-- **A scan is read off the places of a text**, each on the line on which it
ends.  The induction moves each piece to what stands before. -/
theorem Scan.ofSegments_endLine (before : List Char) (pieces : List Segment) :
    ofSegments (endLine before) pieces =
      ⟨(placesFrom before pieces).filterMap Place.token?
          ++ [Token.endOfSource (endLine (before ++ pieces.flatMap Segment.text))],
        (placesFrom before pieces).filterMap Place.diagnostic?,
        endLine (before ++ pieces.flatMap Segment.text)⟩ := by
  induction pieces generalizing before with
  | nil => simp [ofSegments, placesFrom]
  | cons s pieces ih =>
      have htoken : Place.token? ⟨before, s⟩ = s.token? (endLine (before ++ s.text)) := rfl
      have hdiagnostic :
          Place.diagnostic? ⟨before, s⟩ = s.diagnostic? (endLine (before ++ s.text)) := rfl
      simp only [ofSegments, s.lineAfter_endLine, ih, placesFrom, List.flatMap_cons,
        ← List.append_assoc, List.filterMap_cons, htoken, hdiagnostic]
      cases s.token? (endLine (before ++ s.text)) <;>
        cases s.diagnostic? (endLine (before ++ s.text)) <;> rfl

/-- What a class of members is mapped to is related to them, one by one. -/
theorem forall₂_filterMap {α β : Type} {r : α → β → Prop} {q : α → Bool} {f : α → Option β}
    {l : List α}
    (h : ∀ a ∈ l, (q a = true ∧ ∃ b, f a = some b ∧ r a b) ∨ (q a = false ∧ f a = none)) :
    List.Forall₂ r (l.filter q) (l.filterMap f) := by
  induction l with
  | nil => exact .nil
  | cons a l ih =>
      have hrest := ih fun x hx => h x (List.mem_cons_of_mem a hx)
      rcases h a List.mem_cons_self with ⟨hq, b, hb, hr⟩ | ⟨hq, hnone⟩
      · rw [List.filter_cons_of_pos hq, List.filterMap_cons_some hb]
        exact .cons hr hrest
      · rw [List.filter_cons_of_neg (by simp [hq]), List.filterMap_cons_none hnone]
        exact hrest

/-- A stray character is on the line on which the text before it ends, and a
string that is not closed is on the line on which the whole text ends. -/
theorem Cut.diagnostic?_place {cs : List Char} {pieces : List Segment} {p : Place}
    (h : Cut cs pieces) (hp : p ∈ placesFrom [] pieces) :
    (p.piece.isProblem = true ∧ ∃ d, p.diagnostic? = some d ∧
      ((p.piece.cls = .stray ∧ d = .onLine (endLine p.before) "Unexpected character.") ∨
        (p.piece.cls = .openString ∧ d = .onLine (endLine cs) "Unterminated string."))) ∨
      (p.piece.isProblem = false ∧ p.diagnostic? = none) := by
  obtain ⟨rest, hlexical, htext⟩ := h.lexical_place hp
  obtain ⟨before, cls, text⟩ := p
  cases hlexical with
  | @openString body hbody =>
      have hend : cs = Place.upTo ⟨before, .openString, '\x22' :: body⟩ := by simpa using htext
      exact .inl ⟨rfl, _, rfl, .inr ⟨rfl, by rw [hend]⟩⟩
  | @stray c _ hblank hquote hdigit hletter hsymbol =>
      have hline : endLine (Place.upTo ⟨before, .stray, [c]⟩) = endLine before := by
        rw [Place.upTo, endLine_append, List.count_cons_of_ne hblank.2.2.2]
        exact Int.add_zero _
      exact .inl ⟨rfl, _, rfl, .inl ⟨rfl, by rw [hline]⟩⟩
  | _ => exact .inr ⟨rfl, rfl⟩

/-- The scan of a source text, read off its places. -/
theorem scan_eq_places (source : String) :
    scan source =
      ⟨(places source).filterMap Place.token? ++ [Token.endOfSource (endLine source.toList)],
        (places source).filterMap Place.diagnostic?, endLine source.toList⟩ := by
  have h := Scan.ofSegments_endLine [] (segments source.toList)
  rw [flatMap_segments] at h
  exact h

/-- A string that is not closed is reported on the last line. -/
theorem eq_onLine_of_unterminated {source : String} {d : Diagnostic}
    (hd : d ∈ (scan source).errors) (hmessage : d.message = "Unterminated string.") :
    d = .onLine (endLine source.toList) "Unterminated string." := by
  rw [scan_eq_places] at hd
  obtain ⟨p, hp, hpd⟩ := List.mem_filterMap.mp hd
  rcases (cut_segments source.toList).diagnostic?_place hp with ⟨-, d', hd', hcases⟩ | ⟨-, hnone⟩
  · obtain rfl : d' = d := Option.some.inj (hd'.symm.trans hpd)
    rcases hcases with ⟨-, rfl⟩ | ⟨-, rfl⟩
    · have hother : "Unexpected character." ≠ "Unterminated string." := by decide
      exact absurd hmessage hother
    · rfl
  · rw [hnone] at hpd
    cases hpd

/-! ## The line of a cursor -/

namespace Cursor

/-- The cursor is on the line that its position in the text tells. -/
structure OnLine (c : Cursor) (cs : List Char) : Prop where
  source : c.source = cs
  line : c.line = endLine (cs.take c.current)

variable {c : Cursor} {cs : List Char}

/-- Passing a segment keeps the cursor on the right line. -/
theorem OnLine.pass (h : c.OnLine cs) {ch : Char} {more : List Char} (hrest : c.rest = ch :: more) :
    (c.pass (Segment.first ch more)).OnLine cs where
  source := h.source
  line := by
    obtain ⟨after, hafter⟩ := Segment.first_isPrefix ch more
    have hpassed : (cs.drop c.current).take (Segment.first ch more).text.length
        = (Segment.first ch more).text := by
      rw [← h.source, ← rest, hrest, ← hafter, List.take_left]
    show (Segment.first ch more).lineAfter c.line = endLine (cs.take (c.current + _))
    rw [h.line, Segment.lineAfter_endLine, List.take_add, hpassed]

/-- **The loop keeps the cursor on the right line**, in every round. -/
theorem OnLine.rounds {n : Nat} {c' : Cursor} (h : c.OnLine cs) (hrounds : c.rounds n = .ok c') :
    c'.OnLine cs := by
  induction n generalizing c with
  | zero =>
      cases hrounds
      exact h
  | succ n ih =>
      rw [Cursor.rounds] at hrounds
      cases hend : c.atEnd with
      | true =>
          rw [hend, if_pos rfl] at hrounds
          cases hrounds
          exact h
      | false =>
          obtain ⟨ch, more, hrest⟩ := rest_ne_nil hend
          rw [hend, scanSegment_mark hrest] at hrounds
          exact ih (h.pass hrest) hrounds

end Cursor

/-! ## All lines -/

/-- **Lines are exact.**  Every token is on the line on which the text up to the
end of its lexeme ends; a stray character is reported on the line on which the
text before it ends; a string that is not closed, the end mark and the scan itself
are on the line on which the whole text ends.  So the lines of the tokens and
those of the problems never decrease.  All the way the cursor is on the line that
its position tells. -/
theorem scan_lines_exact (source : String) :
    (∀ p ∈ places source, p.upTo <+: source.toList) ∧
    (∃ tokens, (scan source).tokens = tokens ++ [⟨.eof, "", endLine source.toList, none⟩] ∧
      List.Forall₂ (fun p t => Gives p.piece t ∧ t.line = endLine p.upTo)
        ((places source).filter fun p => p.piece.isToken) tokens) ∧
    List.Forall₂
      (fun p d =>
        (p.piece.cls = .stray ∧ d = .onLine (endLine p.before) "Unexpected character.") ∨
        (p.piece.cls = .openString ∧
          d = .onLine (endLine source.toList) "Unterminated string."))
      ((places source).filter fun p => p.piece.isProblem) (scan source).errors ∧
    (scan source).line = endLine source.toList ∧
    (scan source).tokens.Pairwise (fun t u => t.line ≤ u.line) ∧
    (scan source).errors.Pairwise
      (fun d e => ∃ l m, d.line = some l ∧ e.line = some m ∧ l ≤ m) ∧
    ∀ n c, (Cursor.ofSource source).rounds n = .ok c →
      c.line = endLine (source.toList.take c.current) := by
  have hcut : Cut source.toList (segments source.toList) := cut_segments source.toList
  have hordered : (places source).Pairwise fun p q => endLine p.upTo ≤ endLine q.upTo :=
    (pairwise_placesFrom _ _).imp fun hpq =>
      endLine_le_of_isPrefix (hpq.trans (List.prefix_append _ _))
  have hinside : ∀ p ∈ places source, p.upTo <+: source.toList := by
    intro p hp
    have hend := (isPrefix_of_mem_placesFrom hp).2
    rwa [flatMap_segments] at hend
  rw [scan_eq_places]
  refine ⟨hinside, ⟨_, rfl, forall₂_filterMap ?_⟩, forall₂_filterMap ?_, rfl, ?_, ?_, ?_⟩
  · intro p hp
    obtain ⟨rest, hlexical, -⟩ := hcut.lexical_place hp
    rcases Segment.token?_spec hlexical (endLine p.upTo) with ⟨hcls, t, ht, hgives⟩ | hnone
    · exact .inl ⟨hcls, t, ht, hgives, Segment.line_of_token? ht⟩
    · exact .inr hnone
  · intro p hp
    exact hcut.diagnostic?_place hp
  · rw [List.pairwise_append, List.pairwise_filterMap]
    refine ⟨hordered.imp ?_, List.pairwise_singleton _ _, ?_⟩
    · intro p q hpq t ht u hu
      rw [Segment.line_of_token? ht, Segment.line_of_token? hu]
      exact hpq
    · intro t ht u hu
      obtain ⟨p, hp, ht⟩ := List.mem_filterMap.mp ht
      obtain rfl := List.mem_singleton.mp hu
      rw [Segment.line_of_token? ht]
      exact endLine_le_of_isPrefix (hinside p hp)
  · rw [List.pairwise_filterMap]
    refine hordered.imp ?_
    intro p q hpq d hd e he
    exact ⟨_, _, Segment.line_of_diagnostic? hd, Segment.line_of_diagnostic? he, hpq⟩
  · intro n c hrounds
    have hstart : (Cursor.ofSource source).OnLine source.toList := ⟨rfl, rfl⟩
    exact (hstart.rounds hrounds).line

end LoxCalc
