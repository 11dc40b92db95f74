import LoxCalc.Proofs.Verdicts

/-!
# Adding a text is all or nothing

A text is added to a session whose queue and results may hold anything.  Three
things can happen (`Session.add_cases`): the text is refused, its tree is too
high to be shown, or its tree is shown and queued.  In the first two cases the
session stays as it was; in the third one it has one tree more at the end of its
queue.

Listing tokens changes what is printed and nothing else.  A session and the same
session **hushed**, which lists nothing, stay in step over any calls
(`Session.call_hushed`, `Session.calls_hushed`).
-/

namespace LoxCalc

open Console

namespace Session

/-- The dump of a tree that is not too high, if it is wanted. -/
def dumped (s : Session) (e : Expr) : String :=
  if s.showTokens then line (e.dump 0) else ""

/-! ## What adding a text can do -/

/-- A tree that can be shown on one line can be dumped. -/
theorem dumping_of_height_le (s : Session) {e : Expr} (h : e.height ≤ Expr.levels 4) :
    s.dumping e = .ok (s.dumped e) := by
  have hlevels : e.height ≤ Expr.levels 1 := Nat.le_trans h (by decide)
  unfold dumping dumped
  by_cases hshow : s.showTokens = true
  · rw [if_pos hshow, if_pos hshow, Expr.dump?, if_pos hlevels]
    rfl
  · rw [if_neg hshow, if_neg hshow]

/-- A tree that is not too high is shown and queued. -/
theorem add_of_height_le (s : Session) {source : String} {e : Expr}
    (he : (scan source).expr = .ok e) (hheight : e.height ≤ Expr.levels 4) :
    ∃ text, e.echo = .ok text ∧
      s.add source = ⟨s.listing (scan source).tokens ++ s.dumped e ++ line (yellow text),
        { s with queue := s.queue ++ [e] }, none⟩ := by
  obtain ⟨text, hecho⟩ := (Scan.sound_of_expr he).echo_ok
  have hshown : e.echo? = .ok text := by
    rw [Expr.echo?, Expr.echoWithin_of_height_le hheight, hecho]
    rfl
  refine ⟨text, hecho, ?_⟩
  simp only [add, he, dumping_of_height_le s hheight, hshown]

/-- A tree that is too high leaves the session as it was. -/
theorem add_of_lt_height (s : Session) {source : String} {e : Expr}
    (he : (scan source).expr = .ok e) (hheight : Expr.levels 4 < e.height) :
    ∃ out, s.add source = ⟨out, s, some .tooDeep⟩ := by
  have hshown : e.echo? = .error .tooDeep :=
    (Scan.sound_of_expr he).echoWithin_of_lt_height hheight
  rcases s.dumping_cases e with ⟨tree, hdump⟩ | ⟨hdump, -⟩
  · simp only [add, he, hdump, hshown]
    exact ⟨_, rfl⟩
  · simp only [add, he, hdump]
    exact ⟨_, rfl⟩

/-- **What adding a text can do.**  The text is refused, or its tree is too high
to be shown, or its tree is shown and queued. -/
theorem add_cases (s : Session) (source : String) :
    (∃ f, (scan source).expr = .error f ∧
      s.add source = ⟨s.listing (scan source).tokens, s, some f⟩) ∨
    (∃ e out, (scan source).expr = .ok e ∧ Expr.levels 4 < e.height ∧
      s.add source = ⟨out, s, some .tooDeep⟩) ∨
    ∃ e text, (scan source).expr = .ok e ∧ e.height ≤ Expr.levels 4 ∧ e.echo = .ok text ∧
      s.add source = ⟨s.listing (scan source).tokens ++ s.dumped e ++ line (yellow text),
        { s with queue := s.queue ++ [e] }, none⟩ := by
  cases he : (scan source).expr with
  | error f => exact .inl ⟨f, rfl, by simp only [add, he]⟩
  | ok e =>
      by_cases hheight : e.height ≤ Expr.levels 4
      · obtain ⟨text, hecho, hadd⟩ := s.add_of_height_le he hheight
        exact .inr (.inr ⟨e, text, rfl, hheight, hecho, hadd⟩)
      · have hhigh := Nat.lt_of_not_le hheight
        obtain ⟨out, hadd⟩ := s.add_of_lt_height he hhigh
        exact .inr (.inl ⟨e, out, rfl, hhigh, hadd⟩)

/-- A text that cannot be added leaves the session as it was. -/
theorem state_add_of_fault {s : Session} {source : String} (h : (s.add source).fault ≠ none) :
    (s.add source).state = s := by
  rcases s.add_cases source with ⟨f, -, hadd⟩ | ⟨e, out, -, -, hadd⟩ | ⟨e, text, -, -, -, hadd⟩
  · rw [hadd]
  · rw [hadd]
  · rw [hadd] at h
    exact absurd rfl h

/-! ## Calls -/

/-- What can be asked of a session. -/
inductive Call
  | add (source : String)
  | run
  | pop

/-- What comes of a call: its outcome and, if a result was taken, that result. -/
structure Reply where
  outcome : Outcome Session
  value : Option Value := none

/-- Carries out a call. -/
def call (s : Session) : Call → Reply
  | .add source => { outcome := s.add source }
  | .run => { outcome := s.run }
  | .pop =>
    match s.pop with
    | .ok (v, s') => { outcome := ⟨"", s', none⟩, value := some v }
    | .error d => { outcome := ⟨"", s, some (.defect d)⟩ }

/-- Carries out calls one after the other, each in the session that the one
before has left, whether it failed or not. -/
def calls (s : Session) : List Call → List Reply
  | [] => []
  | c :: cs => s.call c :: (s.call c).outcome.state.calls cs

/-- What a call does apart from printing. -/
structure Effect where
  fault : Option Fault
  value : Option Value
  queue : List Expr
  results : List Value

/-- The effect of a call that has been carried out. -/
def Reply.effect (r : Reply) : Effect :=
  ⟨r.outcome.fault, r.value, r.outcome.state.queue, r.outcome.state.results⟩

/-! ## Sessions that list nothing -/

/-- The session, without the listing of tokens and dumps. -/
def hushed (s : Session) : Session :=
  { s with showTokens := false }

/-- Adding a text fails in the same way and queues the same tree, whether tokens
are listed or not. -/
theorem add_hushed (s : Session) (source : String) :
    (s.hushed.add source).fault = (s.add source).fault ∧
      (s.hushed.add source).state = (s.add source).state.hushed := by
  cases he : (scan source).expr with
  | error f => simp only [add, he, and_self]
  | ok e =>
      by_cases hheight : e.height ≤ Expr.levels 4
      · obtain ⟨text, -, hadd⟩ := s.add_of_height_le he hheight
        obtain ⟨text', -, hadd'⟩ := s.hushed.add_of_height_le he hheight
        rw [hadd, hadd']
        exact ⟨rfl, rfl⟩
      · obtain ⟨out, hadd⟩ := s.add_of_lt_height he (Nat.lt_of_not_le hheight)
        obtain ⟨out', hadd'⟩ := s.hushed.add_of_lt_height he (Nat.lt_of_not_le hheight)
        rw [hadd, hadd']
        exact ⟨rfl, rfl⟩

/-- **A call has the same effect on a hushed session**, and leaves it hushed. -/
theorem call_hushed (s : Session) (c : Call) :
    (s.hushed.call c).effect = (s.call c).effect ∧
      (s.hushed.call c).outcome.state = (s.call c).outcome.state.hushed := by
  cases c with
  | add source =>
      obtain ⟨hfault, hstate⟩ := s.add_hushed source
      refine ⟨?_, hstate⟩
      simp only [call, Reply.effect, hfault, hstate]
      rfl
  | run => exact ⟨rfl, rfl⟩
  | pop =>
      have hresults : s.hushed.results = s.results := rfl
      simp only [call, pop, hresults]
      cases s.results.getLast? with
      | none => exact ⟨rfl, rfl⟩
      | some v => exact ⟨rfl, rfl⟩

/-- Calls have the same effects on a hushed session. -/
theorem calls_hushed (s : Session) (cs : List Call) :
    (s.hushed.calls cs).map Reply.effect = (s.calls cs).map Reply.effect := by
  induction cs generalizing s with
  | nil => rfl
  | cons c cs ih =>
      obtain ⟨heffect, hstate⟩ := s.call_hushed c
      rw [calls, calls, List.map_cons, List.map_cons, heffect, hstate, ih]

/-- **Adding a text is all or nothing.**  A text that has problems and is not
nested too deeply is refused with the problems of scanning and then those of
parsing, and nothing is printed but the listing of its tokens.  A text without
problems has a tree; unless this is nested too deeply to be read or too high to
be shown, it is printed and comes to the end of the queue.  Whatever keeps a text
from being added, the session stays as it was.  And listing tokens has no
influence on what calls do apart from printing. -/
theorem add_all_or_nothing :
    (∀ (s : Session) (source : String),
      ∃ p, Parser.ofTokens (scan source).tokens = .ok p ∧
        ((p.readBy .expression).1.isReadable = true →
          (scan source).errors ++ p.parse.2.errors ≠ [] →
          s.add source =
            ⟨if s.showTokens then String.join ((scan source).tokens.map fun t => line t.render)
              else "", s,
              some (.complaint ⟨.parsing, (scan source).errors ++ p.parse.2.errors, false⟩)⟩) ∧
        ((scan source).errors ++ p.parse.2.errors = [] →
          ∃ e text, p.parse.1 = some e ∧ e.echo = .ok text ∧
            (e.isReadable = true → e.height ≤ Expr.levels 4 →
              s.add source =
                ⟨(if s.showTokens then
                    String.join ((scan source).tokens.map fun t => line t.render) else "")
                  ++ (if s.showTokens then line (e.dump 0) else "") ++ line (yellow text),
                  { s with queue := s.queue ++ [e] }, none⟩)) ∧
        ((s.add source).fault ≠ none → (s.add source).state = s)) ∧
    ∀ (s : Session) (b b' : Bool) (cs : List Call),
      (({ s with showTokens := b } : Session).calls cs).map Reply.effect
        = (({ s with showTokens := b' } : Session).calls cs).map Reply.effect := by
  constructor
  · intro s source
    obtain ⟨p, hp, hfresh, -, hlexed⟩ := Parser.ofTokens_scan source
    refine ⟨p, hp, ?_, ?_, state_add_of_fault⟩
    · intro hread hne
      simp only [add, Scan.expr_of_problems hp hread hne]
      rfl
    · intro hnone
      obtain ⟨hscan, hparse⟩ := List.append_eq_nil_iff.mp hnone
      obtain ⟨e, htree⟩ := (Parser.errors_parse_eq_nil_iff p).mp hparse
      obtain ⟨hsound, -⟩ := Parser.sound_of_parse hfresh hlexed htree
      obtain ⟨text, hecho⟩ := hsound.echo_ok
      refine ⟨e, text, htree, hecho, ?_⟩
      intro hreadable hheight
      have haccepted : Accepted source e := ⟨hscan, ⟨p, hp, htree⟩, hreadable⟩
      obtain ⟨text', hecho', hadd⟩ := s.add_of_height_le haccepted.expr hheight
      obtain rfl : text = text' := Except.ok.inj (hecho.symm.trans hecho')
      exact hadd
  · intro s b b' cs
    rw [← calls_hushed, ← calls_hushed { s with showTokens := b' }]
    rfl

/-- A session with work to be done and a result that has not been taken. -/
def busy : Session where
  interactive := true
  showTokens := true
  queue := [.literal (.keyword .nilWord) none]
  results := [.bool true]

/-- The stray character is reported before the second number, and the session
keeps its queue and its result. -/
theorem add_all_or_nothing_stray :
    (scan "1 @ 2").errors ≠ [] ∧
      busy.add "1 @ 2" =
        ⟨"NUMBER 1 [1]\nNUMBER 2 [1]\nEOF  [1]\n", busy,
          some (.complaint ⟨.parsing,
            [.onLine 1 "Unexpected character.",
              .about ⟨.number, "2", 1, some "2"⟩ "Expect end of expression."], false⟩)⟩ := by
  obtain ⟨p, hp, hrefused, -⟩ := add_all_or_nothing.1 busy "1 @ 2"
  obtain ⟨q, hq, herrors, hread⟩ : ∃ q, Parser.ofTokens (scan "1 @ 2").tokens = .ok q ∧
      q.parse.2.errors
        = [.about ⟨.number, "2", 1, some "2"⟩ "Expect end of expression."] ∧
      (q.readBy .expression).1.isReadable = true := ⟨_, rfl, by decide, by decide⟩
  obtain rfl : p = q := Except.ok.inj (hp.symm.trans hq)
  have hscan : (scan "1 @ 2").errors = [.onLine 1 "Unexpected character."] := by decide
  rw [herrors, hscan] at hrefused
  refine ⟨by rw [hscan]; simp, ?_⟩
  rw [hrefused hread (by simp)]
  rfl

end Session

end LoxCalc
