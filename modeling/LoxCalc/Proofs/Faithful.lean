import LoxCalc.Proofs.Placement
import LoxCalc.Proofs.Quoting
import LoxCalc.Proofs.Unambiguous

/-!
# The tree dump is faithful

In a dump every node starts with the same margin as the nodes beside it and with
the name of its class.  The name of a kind is bare, the lexeme of an operator
ends at the quote after it, and quoted texts can be read.  So a dump can be read
from front to back, and no dump goes on where another one ends.

* `Expr.literalText_append_inj`: literals can be read, whatever their kind;
* `Expr.Writable.dump_append_inj`: two dumps at the front of one text are dumps
  of one tree, up to lines, and the same is left after them.
-/

namespace LoxCalc

/-- The names of kinds are bare. -/
theorem Kind.isBare_name (kind : Kind) : ∀ c ∈ kind.name.toList, isBare c = true := by
  rw [← List.all_eq_true]
  cases kind with
  | symbol s => cases s <;> rfl
  | keyword k => cases k <;> rfl
  | _ => rfl

/-- No symbol has a quote in its spelling. -/
theorem Symbol.quote_notMem_text (s : Symbol) : '\x27' ∉ s.text.toList := by
  cases s <;> decide

namespace Expr

variable {e e' : Expr} {rest rest' : List Char}

/-! ## Literals -/

/-- The description of a literal after the name of its kind. -/
def quotedText : Option String → List Char
  | none => []
  | some s => ' ' :: Text.quotedChars s.toList

theorem toList_literalText (kind : Kind) (text : Option String) :
    (literalText kind text).toList = kind.name.toList ++ quotedText text := by
  cases text with
  | none => exact (List.append_nil _).symm
  | some s => simp [literalText, quotedText, Text.quoted]

theorem fenced_quotedText (text : Option String) (rest : List Char) :
    Fenced (quotedText text ++ ')' :: rest) := by
  cases text with
  | none => exact fenced_closing rest
  | some s => exact fenced_blank _

theorem quotedText_append_inj {text text' : Option String}
    (h : quotedText text ++ ')' :: rest = quotedText text' ++ ')' :: rest') :
    text = text' ∧ rest = rest' := by
  cases text with
  | none =>
      cases text' with
      | none => exact ⟨rfl, (List.cons.inj h).2⟩
      | some s' => exact absurd (List.cons.inj h).1 (by decide)
  | some s =>
      cases text' with
      | none => exact absurd (List.cons.inj h).1 (by decide)
      | some s' =>
          obtain ⟨htext, hrest⟩ := Text.quotedChars_append_inj (List.cons.inj h).2
          exact ⟨congrArg some (String.toList_inj.mp htext), (List.cons.inj hrest).2⟩

/-- **Literals can be read**, whatever their kind and text. -/
theorem literalText_append_inj {kind kind' : Kind} {text text' : Option String}
    (h : (literalText kind text).toList ++ ')' :: rest
      = (literalText kind' text').toList ++ ')' :: rest') :
    kind = kind' ∧ text = text' ∧ rest = rest' := by
  rw [toList_literalText, toList_literalText, List.append_assoc, List.append_assoc] at h
  obtain ⟨hname, htail⟩ := run_append_inj kind.isBare_name kind'.isBare_name
    (fenced_quotedText text rest).not_isBare (fenced_quotedText text' rest').not_isBare h
  exact ⟨Kind.name_injective (String.toList_inj.mp hname), quotedText_append_inj htail⟩

/-! ## Nodes -/

/-- The margin of a node. -/
def margin (level : Int) : List Char :=
  (indent level).toList

/-- The last line of a node with children, and what follows it. -/
def closingLine (level : Int) (rest : List Char) : List Char :=
  '\n' :: (margin level ++ ']' :: ')' :: rest)

/-- The start of the children of an operator, and what follows it. -/
def childrenLine (rest : List Char) : List Char :=
  '\x27' :: (", nodes=[\n".toList ++ rest)

/-- The first letter of the class of a node. -/
def initial : Expr → Char
  | literal _ _ => 'L'
  | grouping _ => 'G'
  | unary _ _ => 'U'
  | binary _ _ _ => 'B'

/-- The dump of a node after its margin and initial, and what follows it. -/
def dumpTail (level : Int) (rest : List Char) : Expr → List Char
  | literal kind text => "iteral(".toList ++ ((literalText kind text).toList ++ ')' :: rest)
  | grouping e =>
    "rouping(nodes=[\n".toList ++ ((e.dump (level + 1)).toList ++ closingLine level rest)
  | unary op e =>
    "nary('".toList ++ (op.lexeme.toList
      ++ childrenLine ((e.dump (level + 1)).toList ++ closingLine level rest))
  | binary l op r =>
    "inary('".toList ++ (op.lexeme.toList
      ++ childrenLine ((l.dump (level + 1)).toList
        ++ ',' :: '\n' :: ((r.dump (level + 1)).toList ++ closingLine level rest)))

theorem toList_dump_append (level : Int) (e : Expr) (rest : List Char) :
    (e.dump level).toList ++ rest = margin level ++ e.initial :: e.dumpTail level rest := by
  cases e <;>
    simp only [dump_literal, dump_grouping, dump_unary, dump_binary, String.toList_append,
      List.append_assoc] <;> rfl

/-- Dumps at one level that start the same text are those of nodes of one class. -/
theorem dumpTail_inj_of_dump {level : Int}
    (h : (e.dump level).toList ++ rest = (e'.dump level).toList ++ rest') :
    e.initial = e'.initial ∧ e.dumpTail level rest = e'.dumpTail level rest' := by
  rw [toList_dump_append, toList_dump_append] at h
  exact List.cons.inj (List.append_cancel_left h)

theorem closingLine_inj {level : Int} (h : closingLine level rest = closingLine level rest') :
    rest = rest' := by
  have hmargin := List.append_cancel_left (List.cons.inj h).2
  exact (List.cons.inj (List.cons.inj hmargin).2).2

/-- The lexeme of an operator ends at the quote after it. -/
theorem operator_append_inj {s s' : Symbol}
    (h : s.text.toList ++ childrenLine rest = s'.text.toList ++ childrenLine rest') :
    s = s' ∧ rest = rest' := by
  obtain ⟨htext, hnodes⟩ := append_cons_inj s.quote_notMem_text s'.quote_notMem_text h
  exact ⟨Symbol.text_injective htext, List.append_cancel_left hnodes⟩

/-- **Two dumps at the front of one text are dumps of one tree**, up to lines, and
the same is left after them. -/
theorem Writable.dump_append_inj {level : Int} (h : e.Writable) (h' : e'.Writable)
    (heq : (e.dump level).toList ++ rest = (e'.dump level).toList ++ rest') :
    e.unplaced = e'.unplaced ∧ rest = rest' := by
  induction e generalizing e' level rest rest' with
  | literal kind text =>
      obtain ⟨hinitial, htail⟩ := dumpTail_inj_of_dump heq
      cases e' with
      | literal kind' text' =>
          obtain ⟨rfl, rfl, hrest⟩ := literalText_append_inj (List.append_cancel_left htail)
          exact ⟨rfl, hrest⟩
      | _ => exact absurd hinitial (by simp [initial])
  | grouping e ih =>
      obtain ⟨hinitial, htail⟩ := dumpTail_inj_of_dump heq
      cases h with
      | grouping he =>
          cases h' with
          | grouping he' =>
              obtain ⟨hinner, hclosing⟩ := ih he he' (List.append_cancel_left htail)
              exact ⟨congrArg Expr.grouping hinner, closingLine_inj hclosing⟩
          | _ => exact absurd hinitial (by simp [initial])
  | unary op e ih =>
      obtain ⟨hinitial, htail⟩ := dumpTail_inj_of_dump heq
      cases h with
      | unary hs he =>
          cases h' with
          | unary hs' he' =>
              obtain ⟨rfl, hnodes⟩ := operator_append_inj (List.append_cancel_left htail)
              obtain ⟨hright, hclosing⟩ := ih he he' hnodes
              exact ⟨congrArg (Expr.unary _) hright, closingLine_inj hclosing⟩
          | _ => exact absurd hinitial (by simp [initial])
  | binary l op r ihl ihr =>
      obtain ⟨hinitial, htail⟩ := dumpTail_inj_of_dump heq
      cases h with
      | binary hl hs hr =>
          cases h' with
          | binary hl' hs' hr' =>
              obtain ⟨rfl, hnodes⟩ := operator_append_inj (List.append_cancel_left htail)
              obtain ⟨hleft, hcomma⟩ := ihl hl hl' hnodes
              obtain ⟨hright, hclosing⟩ :=
                ihr hr hr' (List.cons.inj (List.cons.inj hcomma).2).2
              refine ⟨?_, closingLine_inj hclosing⟩
              rw [unplaced, unplaced, hleft, hright]
              rfl
          | _ => exact absurd hinitial (by simp [initial])

/-- What is shown where the depth is limited is the dump. -/
theorem dump_of_dump?_eq_ok {level : Int} {text : String} (h : e.dump? level = .ok text) :
    e.dump level = text := by
  unfold dump? at h
  split at h
  · exact Except.ok.inj h
  · cases h

/-- Trees that can be written down are told apart by their dumps, up to lines. -/
theorem Writable.dump_eq_iff (h : e.Writable) (h' : e'.Writable) (level : Int) :
    e.dump level = e'.dump level ↔ e.unplaced = e'.unplaced := by
  constructor
  · intro heq
    have hchars : (e.dump level).toList ++ [] = (e'.dump level).toList ++ [] := by rw [heq]
    exact (h.dump_append_inj h' hchars).1
  · intro hunplaced
    rw [← e.dump_unplaced, hunplaced, dump_unplaced]

end Expr

/-- **The dump is faithful.**  At every level the dumps of two trees that were
parsed are the same if and only if the trees are, up to the lines of their
operators.  Where the depth is limited, this holds of what is shown. -/
theorem dump_eq_iff_unplaced_eq {source source' : String} {e e' : Expr} (h : Parsed source e)
    (h' : Parsed source' e') (level : Int) :
    (e.dump level = e'.dump level ↔ e.unplaced = e'.unplaced) ∧
      ∀ text, e.dump? level = .ok text →
        (e'.dump? level = .ok text ↔ e.unplaced = e'.unplaced) := by
  have hiff := h.writable.dump_eq_iff h'.writable level
  refine ⟨hiff, ?_⟩
  intro text htext
  constructor
  · intro htext'
    exact hiff.mp ((Expr.dump_of_dump?_eq_ok htext).trans (Expr.dump_of_dump?_eq_ok htext').symm)
  · intro hunplaced
    have hheight : e'.height = e.height := by
      rw [← e'.height_unplaced, ← hunplaced, Expr.height_unplaced]
    rw [Expr.dump?, hheight, ← hiff.mpr hunplaced]
    exact htext

/-- A comparison with a string that has a quote, a backslash and a line feed in
it. -/
def escapeTree (numeral : String) (line : Int) : Expr :=
  .binary (.literal .number (some numeral)) ⟨.symbol .bangEqual, "!=", line, none⟩
    (.literal .string (some "it's\\\n"))

/-- The line of an operator does not show, but a zero at the end of a numeral
does. -/
theorem dump_eq_iff_unplaced_eq_escape :
    Parsed "1.50\n!= \"it's\\\n\"" (escapeTree "1.50" 2) ∧
      Parsed "1.50 != \"it's\\\n\"" (escapeTree "1.50" 1) ∧
      Parsed "1.5 != \"it's\\\n\"" (escapeTree "1.5" 1) ∧
      (escapeTree "1.50" 2).dump 0 = (escapeTree "1.50" 1).dump 0 ∧
      (escapeTree "1.50" 2).dump 0 ≠ (escapeTree "1.5" 1).dump 0 := by
  have h : Parsed "1.50\n!= \"it's\\\n\"" (escapeTree "1.50" 2) := ⟨_, rfl, by decide⟩
  have hline : Parsed "1.50 != \"it's\\\n\"" (escapeTree "1.50" 1) := ⟨_, rfl, by decide⟩
  have hnumeral : Parsed "1.5 != \"it's\\\n\"" (escapeTree "1.5" 1) := ⟨_, rfl, by decide⟩
  refine ⟨h, hline, hnumeral, (dump_eq_iff_unplaced_eq h hline 0).1.mpr rfl, ?_⟩
  rw [Ne, (dump_eq_iff_unplaced_eq h hnumeral 0).1]
  decide

end LoxCalc
