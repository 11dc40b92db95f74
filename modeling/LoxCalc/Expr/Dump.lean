import LoxCalc.Expr.Depth
import LoxCalc.Text.Quoted

/-!
# The tree dump

A tree with one node on each line, four spaces deeper for every level.  A node with children ends
on a line of its own, and every child but the last is followed by a comma.

The children are written in a loop, each with a comma behind it, and the last comma is cut off
again.  `nodeText_of_ne_nil` says what this comes to, and `dump_grouping`, `dump_unary` and
`dump_binary` give the text for each class of nodes.
-/

namespace LoxCalc.Expr

/-- The indentation at a level; a negative level counts as the outermost. -/
def indent (level : Int) : String :=
  String.ofList (List.replicate (4 * level.toNat) ' ')

/-- The description of a literal: its kind and its quoted text. -/
def literalText (kind : Kind) : Option String → String
  | none => kind.name
  | some s => kind.name ++ " " ++ Text.quoted s

/-- The name of the class of a node. -/
def className : Expr → String
  | literal _ _ => "Literal"
  | grouping _ => "Grouping"
  | unary _ _ => "Unary"
  | binary _ _ _ => "Binary"

/-- What a node says of itself, its children apart. -/
def description : Expr → String
  | literal kind text => literalText kind text
  | grouping _ => ""
  | unary op _ => "'" ++ op.lexeme ++ "'"
  | binary _ op _ => "'" ++ op.lexeme ++ "'"

/-- The children of a node from left to right. -/
def children : Expr → List Expr
  | literal _ _ => []
  | grouping e => [e]
  | unary _ e => [e]
  | binary l _ r => [l, r]

/-- A text with entries added to it, each on a new line and with a comma behind it. -/
def listed (text : String) (entries : List String) : String :=
  entries.foldl (fun text entry => text ++ ("\n" ++ entry ++ ",")) text

/-- A text without its last character. -/
def withoutLast (text : String) : String :=
  String.ofList text.toList.dropLast

/-- The text of a node at a level, given the texts of its children. -/
def nodeText (level : Int) (e : Expr) (entries : List String) : String :=
  let opening := indent level ++ e.className ++ "(" ++ e.description
  if entries.isEmpty then opening ++ ")"
  else
    let bracket := if e.description = "" then "nodes=[" else ", nodes=["
    withoutLast (listed (opening ++ bracket) entries) ++ ("\n" ++ indent level ++ "]") ++ ")"

/-- The dump of a tree whose root stands at a level. -/
def dump (level : Int) : Expr → String
  | literal kind text => (literal kind text).nodeText level []
  | grouping e => (grouping e).nodeText level [e.dump (level + 1)]
  | unary op e => (unary op e).nodeText level [e.dump (level + 1)]
  | binary l op r => (binary l op r).nodeText level [l.dump (level + 1), r.dump (level + 1)]

/-- The dump of a tree, unless it is nested too deeply. -/
def dump? (level : Int) (e : Expr) : Except Fault String :=
  if e.height ≤ levels 1 then .ok (e.dump level) else .error .tooDeep

/-! ## What the loop writes -/

/-- The loop over the entries, with the comma that is to be cut off. -/
theorem listed_eq (text : String) {entries : List String} (h : entries ≠ []) :
    listed text entries = text ++ "\n" ++ ",\n".intercalate entries ++ "," := by
  induction entries generalizing text with
  | nil => exact absurd rfl h
  | cons entry entries ih =>
    have hstep : listed text (entry :: entries) = listed (text ++ ("\n" ++ entry ++ ",")) entries :=
      rfl
    cases entries with
    | nil => simp [listed, String.append_assoc]
    | cons next entries =>
      have hcomma : "," ++ "\n" = ",\n" := rfl
      rw [hstep, ih _ (List.cons_ne_nil next entries), String.intercalate_cons_cons, ← hcomma]
      simp only [String.append_assoc]

theorem withoutLast_comma (text : String) : withoutLast (text ++ ",") = text := by
  have hcomma : (text ++ ",").toList = text.toList ++ [','] := String.toList_append
  rw [withoutLast, hcomma, List.dropLast_concat, String.ofList_toList]

/-- The text of a node with children: commas stand between their texts only. -/
theorem nodeText_of_ne_nil (level : Int) (e : Expr) {entries : List String} (h : entries ≠ []) :
    e.nodeText level entries
      = indent level ++ e.className ++ "(" ++ e.description
        ++ (if e.description = "" then "nodes=[" else ", nodes=[")
        ++ "\n" ++ ",\n".intercalate entries ++ "\n" ++ indent level ++ "])" := by
  have hclosing : "]" ++ ")" = "])" := rfl
  have hsome : ¬entries.isEmpty = true := by simpa using h
  simp only [nodeText, if_neg hsome, listed_eq _ h, withoutLast_comma]
  rw [← hclosing]
  simp only [String.append_assoc]

section Nodes

variable (level : Int) (op : Token) (l e r : Expr)

/-- **Whatever its class, a node is dumped with the dumps of its children.** -/
theorem dump_eq_nodeText :
    e.dump level = e.nodeText level (e.children.map (dump (level + 1))) := by
  cases e <;> rfl

theorem dump_literal (kind : Kind) (text : Option String) :
    (literal kind text).dump level
      = indent level ++ "Literal(" ++ literalText kind text ++ ")" := by
  have hopening : "Literal(" = "Literal" ++ "(" := rfl
  rw [hopening, ← String.append_assoc]
  rfl

theorem dump_grouping :
    (grouping e).dump level
      = indent level ++ "Grouping(nodes=[\n" ++ e.dump (level + 1) ++ "\n" ++ indent level
        ++ "])" := by
  have hopening : "Grouping(nodes=[\n" = "Grouping" ++ "(" ++ "" ++ "nodes=[" ++ "\n" := rfl
  have hdescribed : (grouping e).description = "" := rfl
  rw [dump, nodeText_of_ne_nil _ _ (List.cons_ne_nil _ _), if_pos hdescribed, hopening]
  simp only [className, description, String.intercalate_singleton, String.append_assoc]

theorem dump_unary :
    (unary op e).dump level
      = indent level ++ "Unary('" ++ op.lexeme ++ "', nodes=[\n" ++ e.dump (level + 1) ++ "\n"
        ++ indent level ++ "])" := by
  have hopening : "Unary('" = "Unary" ++ "(" ++ "'" := rfl
  have hbracket : "', nodes=[\n" = "'" ++ ", nodes=[" ++ "\n" := rfl
  have hdescribed : (unary op e).description ≠ "" := by simp [description]
  rw [dump, nodeText_of_ne_nil _ _ (List.cons_ne_nil _ _), if_neg hdescribed, hopening, hbracket]
  simp only [className, description, String.intercalate_singleton, String.append_assoc]

theorem dump_binary :
    (binary l op r).dump level
      = indent level ++ "Binary('" ++ op.lexeme ++ "', nodes=[\n" ++ l.dump (level + 1) ++ ",\n"
        ++ r.dump (level + 1) ++ "\n" ++ indent level ++ "])" := by
  have hopening : "Binary('" = "Binary" ++ "(" ++ "'" := rfl
  have hbracket : "', nodes=[\n" = "'" ++ ", nodes=[" ++ "\n" := rfl
  have hdescribed : (binary l op r).description ≠ "" := by simp [description]
  rw [dump, nodeText_of_ne_nil _ _ (List.cons_ne_nil _ _), if_neg hdescribed, hopening, hbracket]
  simp only [className, description, String.intercalate_cons_cons, String.intercalate_singleton,
    String.append_assoc]

end Nodes

end LoxCalc.Expr
