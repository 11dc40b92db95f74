import LoxCalc.Proofs.Verdicts

/-!
# Running a file

A run of the program on a file prints what the verdict on its text says, and
nothing else.  It is ended by its reporter exactly if there is something to
report, and then with status 1: whether the file cannot be read, its text has
problems or is nested too deeply, or an operator does not suit its operands.

* `Request.ofArguments_plain`, `Program.run_of_option`: a plain word is a path, and
  any other word is an option, after which no file is read;
* `Program.work_of_readFile`: the work on a file that can be read is an attempt
  at its text;
* `file_mode` puts this together with the verdict on the text.
-/

namespace LoxCalc

open Console

/-! ## A word as the only argument -/

/-- An argument that is a plain word is that word. -/
theorem Argument.eq_of_ofText {w s : String} (h : ofText w = .plain s) : s = w := by
  have hunflagged : ∀ cs, unflagged cs = .plain s → s = String.ofList cs := by
    intro cs hcs
    unfold unflagged at hcs
    split at hcs
    · exact (Argument.plain.inj hcs).symm
    · cases hcs
  have habbreviated : ∀ cs, abbreviated cs = .plain s → s = String.ofList cs := by
    intro cs hcs
    unfold abbreviated at hcs
    simp only at hcs
    split at hcs
    · exact hunflagged cs hcs
    · cases hvalue : (splitValue cs).2 <;> simp [hvalue, withValue] at hcs
    · cases hcs
  have hdashed : ∀ cs, dashed cs = .plain s → s = String.ofList cs := by
    intro cs hcs
    unfold dashed at hcs
    split at hcs
    · cases hcs
    · split at hcs
      · exact habbreviated _ hcs
      · cases hcs
      · cases hcs
      · exact hunflagged cs hcs
  unfold ofText at h
  split at h
  · next c cs hw =>
    rw [hdashed _ h, ← hw, String.ofList_toList]
  · exact (Argument.plain.inj h).symm

namespace Request

/-- A plain word names the file. -/
theorem ofArguments_plain {w : String} (h : Argument.ofText w = .plain w) :
    ofArguments [w] = .run (some w) false := by
  have hmark : w ≠ "--" := by
    rintro rfl
    cases h
  simp [ofArguments, hmark, h, ambiguity?, Findings.addAll, Findings.addPlain,
    Findings.addMarked, Findings.request]

/-- A word that does not begin with a dash names the file. -/
theorem ofArguments_path {path : String} (h : path.toList.head? ≠ some '-') :
    ofArguments [path] = .run (some path) false := by
  apply ofArguments_plain
  unfold Argument.ofText
  split
  · next c cs hpath =>
    rw [hpath] at h
    exact absurd rfl h
  · rfl

/-- A word that is taken for an option names no file: it asks for the shell or for help, or
it is rejected. -/
theorem ofArguments_option {w : String} (h : Argument.ofText w ≠ .plain w) :
    (∃ showTokens, ofArguments [w] = .run none showTokens) ∨ ofArguments [w] = .help ∨
      ∃ reason, ofArguments [w] = .reject reason := by
  by_cases hmark : w = "--"
  · -- what follows the mark would be plain, but nothing follows
    subst hmark
    exact .inl ⟨false, rfl⟩
  have hbefore : [w].takeWhile (· != "--") = [w] := by simp [hmark]
  have hbehind : [w].dropWhile (· != "--") = [] := by simp [hmark]
  simp only [ofArguments, hbefore, hbehind, List.map_cons, List.map_nil]
  cases harg : Argument.ofText w with
  | plain s =>
      obtain rfl := Argument.eq_of_ofText harg
      exact absurd harg h
  | unknown s => exact .inr (.inr ⟨_, rfl⟩)
  | flag f =>
      cases f with
      | help => exact .inr (.inl rfl)
      | tokens => exact .inl ⟨true, rfl⟩
  | valued f value => exact .inr (.inr ⟨_, rfl⟩)
  | cluster letters =>
      have hcluster : ofCluster letters = .help ∨ ∃ reason, ofCluster letters = .reject reason := by
        unfold ofCluster
        split
        · exact .inl rfl
        · exact .inr ⟨_, rfl⟩
      exact .inr hcluster
  | ambiguous s spellings => exact .inr (.inr ⟨_, rfl⟩)

end Request

/-- A file that cannot be read leaves one complaint, or a defect. -/
theorem Session.readFile_error {files : Files} {path : String} {f : Fault}
    (h : readFile files path = .error f) :
    (∃ message, f = .complaint (.ofMessage message)) ∨ ∃ d, f = .defect d := by
  unfold readFile at h
  split at h
  · obtain rfl := Except.error.inj h
    exact .inr ⟨_, rfl⟩
  · split at h
    · obtain rfl := Except.error.inj h
      exact .inl ⟨_, rfl⟩
    · split at h
      · obtain rfl := Except.error.inj h
        exact .inr ⟨_, rfl⟩
      · cases h

namespace Program

variable {files : Session.Files} {path source : String} {showTokens : Bool}

/-- The diagnostics that the reporter of a run of a file counts. -/
def reported (files : Session.Files) (path : String) (showTokens : Bool) : Nat :=
  ((Session.reporterFor {} path false).guard (work files path showTokens).2).state.errors

/-- The work on a file that can be read is an attempt at its text. -/
theorem work_of_readFile (hpath : path ≠ Session.shellPath)
    (hread : Session.readFile files path = .ok source) :
    work files path showTokens
      = ((({ interactive := false, showTokens } : Session).attempt source).out,
        (({ interactive := false, showTokens } : Session).attempt source).fault) := by
  simp only [work, Session.openOn, if_neg hpath, hread, Session.attempt]
  cases hfault : (({ interactive := false, showTokens } : Session).add source).fault with
  | none => rfl
  | some f => rfl

theorem work_of_readFile_error {f : Fault} (hpath : path ≠ Session.shellPath)
    (hread : Session.readFile files path = .error f) :
    work files path showTokens = ("", some f) := by
  simp only [work, Session.openOn, if_neg hpath, hread]

/-- **A run of a file that can be read follows the verdict on its text.** -/
theorem runFile_of_stages {v : Verdict} (hpath : path ≠ Session.shellPath)
    (hread : Session.readFile files path = .ok source) (h : Stages source v) :
    runFile files path false = ⟨v.text, "", v.fault.map fun _ => .exit (.code 1)⟩ ∧
      reported files path false = v.cost := by
  obtain ⟨s, hattempt⟩ := h.attempt
  have hwork : work files path false = (v.shown, v.fault) := by
    rw [work_of_readFile hpath hread, hattempt]
  constructor
  · rw [runFile, hwork, guarded, v.shown_append_guard, v.fault_guard_of_fatal _ rfl]
  · rw [reported, hwork, v.state_guard]
    exact Nat.zero_add _

/-- A run of a file that cannot be read ends with status 1 after one report. -/
theorem runFile_of_readFile_error {f : Fault} (hpath : path ≠ Session.shellPath)
    (hread : Session.readFile files path = .error f) :
    (runFile files path showTokens).fault = some (.exit (.code 1)) ∧
      reported files path showTokens = 1 := by
  rw [runFile, reported, work_of_readFile_error hpath hread]
  rcases Session.readFile_error hread with ⟨message, rfl⟩ | ⟨d, rfl⟩
  · exact ⟨rfl, rfl⟩
  · exact ⟨rfl, rfl⟩

/-- **The status tells whether there was something to report**: a run of a file
ends normally after no report at all, or with status 1. -/
theorem fault_runFile (files : Session.Files) (hpath : path ≠ Session.shellPath) :
    ((runFile files path false).fault = none ∧ reported files path false = 0) ∨
      ((runFile files path false).fault = some (.exit (.code 1)) ∧
        0 < reported files path false) := by
  cases hread : Session.readFile files path with
  | error f =>
      obtain ⟨hfault, hreported⟩ := runFile_of_readFile_error hpath hread
      exact .inr ⟨hfault, by omega⟩
  | ok source =>
      obtain ⟨v, hv⟩ := exists_stages source
      obtain ⟨hrun, hreported⟩ := runFile_of_stages hpath hread hv
      rw [hrun, hreported]
      cases hv with
      | rejected hp hread hne => exact .inr ⟨rfl, List.length_pos_iff.mpr hne⟩
      | unreadable _ _ | high _ _ | mismatch _ _ _ _ => exact .inr ⟨rfl, Nat.one_pos⟩
      | value _ _ _ _ _ => exact .inl ⟨rfl, rfl⟩

/-- **A path that is taken for an option is not read**, whatever files there are.  The program runs
the shell, or shows its help and ends with status 0, or explains its usage and ends with
status 2. -/
theorem run_of_option {w : String} (h : Argument.ofText w ≠ .plain w) (files : Session.Files)
    (input : String) :
    (∃ showTokens, run [w] files input = runShell input showTokens) ∨
      run [w] files input = ⟨helpText, "", some (.exit (.code 0))⟩ ∨
      ∃ reason, run [w] files input
        = ⟨"", usage ++ line ("lox: error: " ++ reason), some (.exit (.code 2))⟩ := by
  unfold run
  rcases Request.ofArguments_option h with ⟨showTokens, hw⟩ | hw | ⟨reason, hw⟩ <;> rw [hw]
  · exact .inl ⟨showTokens, rfl⟩
  · exact .inr (.inl rfl)
  · exact .inr (.inr ⟨reason, rfl⟩)

end Program

/-- **A run of a file is what the stages make of its text, and its status is
exact.**  Take arguments that ask for a file and not for tokens, such as a path
that does not begin with a dash.  If the file can be read, there is a verdict on
its text, and the run prints what the verdict says and nothing else: the
problems of the text in red, those found in scanning first; or the tree in
yellow and what is wrong with an operator in red; or the tree in yellow and the
value.  Only in the last case the run ends normally.  If the file cannot be
opened or decoded, the run ends with status 1 as well.  Hence the status is 1 if
and only if some diagnostic was reported. -/
theorem file_mode {args : List String} {path : String} (files : Session.Files) (input : String)
    (hargs : Request.ofArguments args = .run (some path) false)
    (hpath : path ≠ Session.shellPath) :
    (path.toList.head? ≠ some '-' → Request.ofArguments [path] = .run (some path) false) ∧
      (∀ source, Session.readFile files path = .ok source →
        (∃ v, Stages source v) ∧
          ∀ v, Stages source v →
            Program.run args files input = ⟨v.text, "", v.fault.map fun _ => .exit (.code 1)⟩) ∧
      (∀ f, Session.readFile files path = .error f →
        (Program.run args files input).fault = some (.exit (.code 1))) ∧
      ((Program.run args files input).fault = some (.exit (.code 1)) ↔
        0 < Program.reported files path false) ∧
      ((Program.run args files input).fault = none ↔ Program.reported files path false = 0) := by
  have hrun : Program.run args files input = Program.runFile files path false := by
    rw [Program.run, hargs]
  rw [hrun]
  refine ⟨Request.ofArguments_path, ?_, ?_, ?_⟩
  · intro source hread
    refine ⟨exists_stages source, ?_⟩
    intro v hv
    exact (Program.runFile_of_stages hpath hread hv).1
  · intro f hread
    exact (Program.runFile_of_readFile_error hpath hread).1
  · rcases Program.fault_runFile files hpath with ⟨hfault, hreported⟩ | ⟨hfault, hreported⟩
    · rw [hfault, hreported]
      simp
    · rw [hfault]
      simp [hreported, Nat.pos_iff_ne_zero.mp hreported]

/-- The tree of `-nil`. -/
def negatedNil : Expr :=
  .unary ⟨.symbol .minus, "-", 1, none⟩ (.literal (.keyword .nilWord) none)

/-- A file that can be read and holds `-nil`: the tree is shown, the operator is
refused, and the status is 1. -/
theorem file_mode_mismatch :
    Session.readFile (fun _ => some [0x2d, 0x6e, 0x69, 0x6c]) "a" = .ok "-nil" ∧
      Program.run ["a"] (fun _ => some [0x2d, 0x6e, 0x69, 0x6c]) ""
        = ⟨line (yellow "(- nil)") ++ line (red "1: at '-' - Expected number but found nil"), "",
          some (.exit (.code 1))⟩ := by
  have hargs : Request.ofArguments ["a"] = .run (some "a") false := by decide
  have hread : Session.readFile (fun _ => some [0x2d, 0x6e, 0x69, 0x6c]) "a" = .ok "-nil" := rfl
  have haccepted : Accepted "-nil" negatedNil := ⟨rfl, ⟨_, rfl, rfl⟩, rfl⟩
  have hheight : negatedNil.height ≤ Expr.levels 4 := by decide
  have hstages := Stages.mismatch haccepted hheight rfl rfl
  obtain ⟨-, htext, -⟩ := file_mode (fun _ => some [0x2d, 0x6e, 0x69, 0x6c]) "" hargs (by decide)
  exact ⟨hread, (htext "-nil" hread).2 _ hstages⟩

end LoxCalc
