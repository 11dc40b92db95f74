import Mathlib.Algebra.Order.Ring.Nat
import LoxCalc.Proofs.Blame
import LoxCalc.Proofs.Quoting
import LoxCalc.Proofs.Safety
import LoxCalc.Text.Lines

/-!
# The lines of a tree dump

A dump is written by nested appends, with a margin that grows from level to level.
As a list of lines it is simple: a literal has one line, any other node has one
line before its children and one after them, and the lines of a child are those of
its own dump.  What is put behind a child, a comma or nothing, comes to stand on
its last line.

* `Text.lines_intercalate`: lines that are joined are found again;
* `Expr.intercalate_rows`: a dump is its lines, joined;
* `Expr.rows_add`: at a deeper level the same spaces stand before each line;
* `Expr.exists_rows_child`, `Expr.Stands.exists_rows`: the lines of a node stand
  together, from the line that its place in the tree gives, by one step from a node
  to its child and by induction for every place.
-/

namespace LoxCalc

/-! ## Lines of a text -/

namespace Text

/-- The text is one line, and not an empty one. -/
structure IsLine (s : String) : Prop where
  ne_empty : s ≠ ""
  newline_notMem : '\n' ∉ s.toList

/-- Characters up to the next line feed belong to the line that was begun. -/
theorem linesFrom_append {cs : List Char} (h : '\n' ∉ cs) (begun rest : List Char) :
    linesFrom begun (cs ++ rest) = linesFrom (cs.reverse ++ begun) rest := by
  induction cs generalizing begun with
  | nil => rfl
  | cons c cs ih =>
      obtain ⟨hc, hcs⟩ := not_or.mp (List.mem_cons.not.mp h)
      rw [List.cons_append, linesFrom, if_neg (Ne.symm hc), ih hcs, List.reverse_cons,
        List.append_assoc]
      rfl

theorem IsLine.lines_eq {s : String} (h : IsLine s) : lines s.toList = [s] := by
  have hbegun : s.toList.reverse ++ [] ≠ [] := by
    simpa using h.ne_empty
  have hread := linesFrom_append h.newline_notMem [] []
  rw [List.append_nil] at hread
  rw [lines, hread, linesFrom, if_neg hbegun]
  simp

theorem IsLine.lines_append {s : String} (h : IsLine s) (rest : List Char) :
    lines (s.toList ++ '\n' :: rest) = s :: lines rest := by
  rw [lines, linesFrom_append h.newline_notMem, linesFrom, if_pos rfl]
  simp [lines]

/-- **Lines that are joined are found again.** -/
theorem lines_intercalate {rows : List String} (h : ∀ row ∈ rows, IsLine row) :
    lines ("\n".intercalate rows).toList = rows := by
  induction rows with
  | nil => rfl
  | cons row rows ih =>
      have hrow := h row List.mem_cons_self
      have hrows := ih fun r hr => h r (List.mem_cons_of_mem row hr)
      cases rows with
      | nil => simpa using hrow.lines_eq
      | cons next rows =>
          have hjoin : ("\n".intercalate (row :: next :: rows)).toList
              = row.toList ++ '\n' :: ("\n".intercalate (next :: rows)).toList := by
            simp only [String.intercalate_cons_cons, String.toList_append, List.append_assoc]
            rfl
          rw [hjoin, hrow.lines_append, hrows]

/-- A number of spaces. -/
def spaces (n : Nat) : String :=
  String.ofList (List.replicate n ' ')

theorem spaces_add (m n : Nat) : spaces (m + n) = spaces m ++ spaces n := by
  rw [spaces, List.replicate_add, String.ofList_append]
  rfl

theorem newline_notMem_spaces (n : Nat) : '\n' ∉ (spaces n).toList := by
  intro hmem
  rw [spaces, String.toList_ofList] at hmem
  exact absurd (List.eq_of_mem_replicate hmem) (by decide)

/-- The text with a number of spaces put in front of each of its lines. -/
def shifted (n : Nat) (text : String) : String :=
  "\n".intercalate ((lines text.toList).map (spaces n ++ ·))

end Text

open Text

/-- There is no line feed in the name of a kind. -/
theorem Kind.newline_notMem_name (kind : Kind) : '\n' ∉ kind.name.toList := by
  cases kind with
  | symbol s => cases s <;> decide
  | keyword k => cases k <;> decide
  | _ => decide

namespace Expr

variable {e node : Expr}

/-! ## Nodes and their places -/

/-- Is the node a literal? -/
def isLiteral : Expr → Bool
  | literal _ _ => true
  | _ => false

/-- One line for every node, and one more for every node that is no literal. -/
def lineCount (e : Expr) : Nat :=
  e.postorder.length + e.postorder.countP fun node => !node.isLiteral

/-- A node stands in a tree at a depth.  Its lines start after a number of others: one for each node
around it and those of the children before it.  Other children of the same node may come
after it. -/
inductive Stands (root : Expr) : (depth start : Nat) → (after : List Expr) → (node : Expr) → Prop
  | root : Stands root 0 0 [] root
  | child {depth start : Nat} {others before after : List Expr} {node child : Expr}
      (hnode : Stands root depth start others node)
      (hchild : node.children = before ++ child :: after) :
      Stands root (depth + 1) (start + 1 + (before.map lineCount).sum) after child

/-- What stands behind a child: a comma, if there are children after it. -/
def separator : List Expr → String
  | [] => ""
  | _ :: _ => ","

/-! ## The lines of a dump -/

/-- The first line of a node without its margin. -/
def heading : Expr → String
  | literal kind text => "Literal(" ++ literalText kind text ++ ")"
  | grouping _ => "Grouping(nodes=["
  | unary op _ => "Unary('" ++ op.lexeme ++ "', nodes=["
  | binary _ op _ => "Binary('" ++ op.lexeme ++ "', nodes=["

/-- The lines of a node with children: those of the children between the first one and the one that
closes the node, with a text behind it. -/
def framed (level : Nat) (behind : String) (e : Expr) (body : List String) : List String :=
  (spaces (4 * level) ++ e.heading) :: body ++ [spaces (4 * level) ++ "])" ++ behind]

/-- The lines of a tree at a level, with a text behind the last one. -/
def rows (level : Nat) (behind : String) : Expr → List String
  | literal kind text => [spaces (4 * level) ++ (literal kind text).heading ++ behind]
  | grouping e => (grouping e).framed level behind (e.rows (level + 1) "")
  | unary op e => (unary op e).framed level behind (e.rows (level + 1) "")
  | binary l op r =>
    (binary l op r).framed level behind (l.rows (level + 1) "," ++ r.rows (level + 1) "")

theorem indent_natCast (n : Nat) : indent n = spaces (4 * n) := rfl

theorem rows_ne_nil (level : Nat) (behind : String) (e : Expr) : e.rows level behind ≠ [] := by
  cases e <;> simp [rows, framed]

theorem intercalate_framed (level : Nat) (behind : String) (e : Expr) {body : List String}
    (hbody : body ≠ []) :
    "\n".intercalate (e.framed level behind body)
      = indent level ++ e.heading ++ "\n" ++ "\n".intercalate body ++ "\n" ++ indent level ++ "])"
        ++ behind := by
  have hfront : (spaces (4 * level) ++ e.heading) :: body ≠ [] := List.cons_ne_nil _ _
  rw [framed, String.intercalate_append_of_ne_nil hfront (List.cons_ne_nil _ _),
    String.intercalate_cons_of_ne_nil hbody, String.intercalate_singleton, indent_natCast]
  simp only [String.append_assoc]

/-- **A dump is its lines, joined.** -/
theorem intercalate_rows (level : Nat) (behind : String) (e : Expr) :
    "\n".intercalate (e.rows level behind) = e.dump level ++ behind := by
  -- the level and what stands behind change on the way down
  induction e generalizing level behind with
  | literal kind text => simp [rows, heading, dump_literal, indent_natCast, String.append_assoc]
  | grouping e ih =>
      rw [rows, intercalate_framed _ _ _ (rows_ne_nil _ _ _), ih]
      simp [heading, dump_grouping, String.append_assoc]
  | unary op e ih =>
      rw [rows, intercalate_framed _ _ _ (rows_ne_nil _ _ _), ih]
      simp [heading, dump_unary, String.append_assoc]
  | binary l op r ihl ihr =>
      have hl := rows_ne_nil (level + 1) "," l
      have hr := rows_ne_nil (level + 1) "" r
      rw [rows, intercalate_framed _ _ _ (List.append_ne_nil_of_left_ne_nil hl _),
        String.intercalate_append_of_ne_nil hl hr, ihl, ihr]
      simp [heading, dump_binary, String.append_assoc]

theorem framed_add (n level : Nat) (behind : String) (e : Expr) (body : List String) :
    e.framed (n + level) behind (body.map (spaces (4 * n) ++ ·))
      = (e.framed level behind body).map (spaces (4 * n) ++ ·) := by
  simp [framed, Nat.mul_add, spaces_add, String.append_assoc]

/-- **At a deeper level the same spaces stand before each line.** -/
theorem rows_add (n level : Nat) (behind : String) (e : Expr) :
    e.rows (n + level) behind = (e.rows level behind).map (spaces (4 * n) ++ ·) := by
  induction e generalizing level behind with
  | literal kind text => simp [rows, Nat.mul_add, spaces_add, String.append_assoc]
  | grouping e ih => rw [rows, rows, Nat.add_assoc, ih, framed_add]
  | unary op e ih => rw [rows, rows, Nat.add_assoc, ih, framed_add]
  | binary l op r ihl ihr =>
      rw [rows, rows, Nat.add_assoc, ihl, ihr, ← List.map_append, framed_add]

/-- A node has as many lines as are counted for it. -/
theorem length_rows (level : Nat) (behind : String) (e : Expr) :
    (e.rows level behind).length = e.lineCount := by
  induction e generalizing level behind with
  | literal kind text => rfl
  | grouping e ih => grind [rows, framed, lineCount, postorder, isLiteral]
  | unary op e ih => grind [rows, framed, lineCount, postorder, isLiteral]
  | binary l op r ihl ihr => grind [rows, framed, lineCount, postorder, isLiteral]

/-- The last line ends in a parenthesis, and then comes the text behind it. -/
theorem exists_rows_last (level : Nat) (behind : String) (e : Expr) :
    ∃ above line, e.rows level behind = above ++ [line ++ ")" ++ behind] := by
  have hframed : ∀ (node : Expr) (body : List String),
      ∃ above line, node.framed level behind body = above ++ [line ++ ")" ++ behind] := by
    intro node body
    refine ⟨(spaces (4 * level) ++ node.heading) :: body, spaces (4 * level) ++ "]", ?_⟩
    have hclosing : "])" = "]" ++ ")" := by decide
    simp only [framed, hclosing, String.append_assoc]
  cases e with
  | literal kind text =>
      refine ⟨[], spaces (4 * level) ++ "Literal(" ++ literalText kind text, ?_⟩
      simp [rows, heading, String.append_assoc]
  | _ => exact hframed _ _

/-! ## Line feeds -/

theorem newline_notMem_literalText (kind : Kind) (text : Option String) :
    '\n' ∉ (literalText kind text).toList := by
  have hname := kind.newline_notMem_name
  cases text with
  | none => exact hname
  | some s => simp [literalText, quoted, hname, newline_notMem_quotedChars]

theorem isLine_heading (h : ∀ op ∈ e.operators, '\n' ∉ op.lexeme.toList) :
    IsLine e.heading := by
  cases e with
  | literal kind text => exact ⟨by simp [heading], by simp [heading, newline_notMem_literalText]⟩
  | grouping e => exact ⟨by simp [heading], by simp [heading]⟩
  | unary op e =>
      have hop := h op (by simp [operators])
      exact ⟨by simp [heading], by simp [heading, hop]⟩
  | binary l op r =>
      have hop := h op (by simp [operators])
      exact ⟨by simp [heading], by simp [heading, hop]⟩

theorem isLine_of_mem_framed {level : Nat} {behind row : String} {body : List String}
    (hheading : IsLine e.heading) (hbehind : '\n' ∉ behind.toList)
    (hbody : ∀ r ∈ body, IsLine r) (hrow : row ∈ e.framed level behind body) : IsLine row := by
  have hmargin := newline_notMem_spaces (4 * level)
  rw [framed, List.cons_append, List.mem_cons, List.mem_append, List.mem_singleton] at hrow
  rcases hrow with rfl | hrow | rfl
  · exact ⟨by simp [hheading.ne_empty], by simp [hmargin, hheading.newline_notMem]⟩
  · exact hbody row hrow
  · exact ⟨by simp, by simp [hmargin, hbehind]⟩

/-- No line of a dump is broken, if no operator is. -/
theorem isLine_of_mem_rows (h : ∀ op ∈ e.operators, '\n' ∉ op.lexeme.toList)
    (level : Nat) {behind : String} (hbehind : '\n' ∉ behind.toList) :
    ∀ row ∈ e.rows level behind, IsLine row := by
  have hnothing : '\n' ∉ "".toList := by decide
  have hcomma : '\n' ∉ ",".toList := by decide
  intro row hrow
  induction e generalizing level behind row with
  | literal kind text =>
      have hmargin := newline_notMem_spaces (4 * level)
      have hheading := isLine_heading h
      rw [List.mem_singleton.mp hrow]
      exact ⟨by simp [hheading.ne_empty], by simp [hmargin, hheading.newline_notMem, hbehind]⟩
  | grouping e ih =>
      exact isLine_of_mem_framed (isLine_heading h) hbehind (ih h (level + 1) hnothing) hrow
  | unary op e ih =>
      have hops : ∀ o ∈ e.operators, '\n' ∉ o.lexeme.toList :=
        fun o ho => h o (List.mem_cons_of_mem op ho)
      exact isLine_of_mem_framed (isLine_heading h) hbehind (ih hops (level + 1) hnothing) hrow
  | binary l op r ihl ihr =>
      have hl : ∀ o ∈ l.operators, '\n' ∉ o.lexeme.toList := by grind [operators]
      have hr : ∀ o ∈ r.operators, '\n' ∉ o.lexeme.toList := by grind [operators]
      refine isLine_of_mem_framed (isLine_heading h) hbehind ?_ hrow
      intro x hx
      rcases List.mem_append.mp hx with hx | hx
      · exact ihl hl (level + 1) hcomma x hx
      · exact ihr hr (level + 1) hnothing x hx

/-- Lines that are not broken are the lines of the dump. -/
theorem lines_dump {level : Nat} {behind : String}
    (h : ∀ row ∈ e.rows level behind, IsLine row) :
    lines (e.dump level ++ behind).toList = e.rows level behind := by
  rw [← intercalate_rows]
  exact lines_intercalate h

/-! ## The places of nodes -/

/-- The lines of children in turn, each with a comma behind it if there is another one. -/
def childRows (level : Nat) : List Expr → List String
  | [] => []
  | e :: after => e.rows level (separator after) ++ childRows level after

/-- Whatever its class, a node with children has their lines between its own two. -/
theorem rows_eq_framed (h : node.children ≠ []) (level : Nat) (behind : String) :
    node.rows level behind = node.framed level behind (childRows (level + 1) node.children) := by
  cases node with
  | literal kind text => exact absurd rfl h
  | _ => simp [rows, children, childRows, separator]

/-- The lines of a child come after those of the children before it. -/
theorem exists_childRows (level : Nat) (before : List Expr) (child : Expr) (after : List Expr) :
    ∃ front, childRows level (before ++ child :: after)
        = front ++ (child.rows level (separator after) ++ childRows level after) ∧
      front.length = (before.map lineCount).sum := by
  induction before with
  | nil => exact ⟨[], rfl, rfl⟩
  | cons first before ih =>
      obtain ⟨front, hrows, hlength⟩ := ih
      refine ⟨first.rows level (separator (before ++ child :: after)) ++ front, ?_, ?_⟩
      · rw [List.cons_append, childRows, hrows, List.append_assoc]
      · rw [List.length_append, length_rows, hlength, List.map_cons, List.sum_cons]

/-- The lines of a child stand together among those of its node. -/
theorem exists_rows_child {before after : List Expr} {child : Expr}
    (h : node.children = before ++ child :: after) (level : Nat) (behind : String) :
    ∃ above below, node.rows level behind
        = above ++ child.rows (level + 1) (separator after) ++ below ∧
      above.length = 1 + (before.map lineCount).sum := by
  obtain ⟨front, hrows, hlength⟩ := exists_childRows (level + 1) before child after
  refine ⟨(spaces (4 * level) ++ node.heading) :: front,
    childRows (level + 1) after ++ [spaces (4 * level) ++ "])" ++ behind], ?_, ?_⟩
  · rw [rows_eq_framed (by simp [h]), h, hrows, framed]
    simp only [List.cons_append, List.append_assoc]
  · rw [List.length_cons, hlength, Nat.add_comm]

/-- The lines of a node stand together among those of the tree. -/
theorem Stands.exists_rows {root node : Expr} {depth start : Nat} {after : List Expr}
    (h : root.Stands depth start after node) :
    ∃ above below, root.rows 0 "" = above ++ node.rows depth (separator after) ++ below ∧
      above.length = start := by
  induction h with
  | root => exact ⟨[], [], by simp [separator], rfl⟩
  | child hnode hchild ih =>
      obtain ⟨above, below, hrows, hstart⟩ := ih
      -- the lines of the child among those of its node, and these among those of the tree
      obtain ⟨within, rest, hnode, hlength⟩ := exists_rows_child hchild _ _
      refine ⟨above ++ within, rest ++ below, ?_, ?_⟩
      · rw [hrows, hnode]
        simp only [List.append_assoc]
      · rw [List.length_append, hstart, hlength, Nat.add_assoc]

/-! ## The dump of a tree -/

section Unbroken

variable (h : ∀ op ∈ e.operators, '\n' ∉ op.lexeme.toList)

include h

theorem lines_dump_zero : lines (e.dump 0).toList = e.rows 0 "" := by
  have hnothing : '\n' ∉ "".toList := by decide
  simpa using lines_dump (isLine_of_mem_rows h 0 hnothing)

/-- The dump at a level is the outermost one, shifted. -/
theorem dump_eq_shifted (n : Nat) : e.dump n = shifted (4 * n) (e.dump 0) :=
  calc e.dump n
      = "\n".intercalate (e.rows n "") := by rw [intercalate_rows, String.append_empty]
    _ = "\n".intercalate ((e.rows 0 "").map (spaces (4 * n) ++ ·)) := by
        rw [← rows_add, Nat.add_zero]
    _ = shifted (4 * n) (e.dump 0) := by rw [shifted, lines_dump_zero h]

/-- The limit of nesting is the same at all levels. -/
theorem dump?_eq_map_shifted (n : Nat) : e.dump? n = (e.dump? 0).map (shifted (4 * n)) := by
  by_cases hheight : e.height ≤ levels 1
  · rw [dump?, dump?, if_pos hheight, if_pos hheight, dump_eq_shifted h n]
    rfl
  · rw [dump?, dump?, if_neg hheight, if_neg hheight]
    rfl

/-- The lines of a node in the dump of a tree are those of its own dump. -/
theorem Stands.take_drop_lines {depth start : Nat} {after : List Expr}
    (hnode : e.Stands depth start after node) :
    ((lines (e.dump 0).toList).drop start).take node.lineCount
      = lines (node.dump depth ++ separator after).toList := by
  obtain ⟨above, below, hrows, hstart⟩ := hnode.exists_rows
  have hnothing : '\n' ∉ "".toList := by decide
  -- the lines of the node are lines of the tree, so they are not broken either
  have hunbroken : ∀ row ∈ node.rows depth (separator after), IsLine row := by
    intro row hrow
    apply isLine_of_mem_rows h 0 hnothing
    rw [hrows]
    exact List.mem_append_left _ (List.mem_append_right _ hrow)
  rw [lines_dump_zero h, lines_dump hunbroken, hrows, List.append_assoc, List.drop_left' hstart,
    List.take_left' (length_rows _ _ _)]

/-- The last line of a node ends in a comma if and only if another child follows. -/
theorem Stands.last_line {depth start : Nat} {after : List Expr}
    (hnode : e.Stands depth start after node) :
    ∃ last, (lines (e.dump 0).toList)[start + node.lineCount - 1]? = some last ∧
      (last.toList.getLast? = some ',' ↔ after ≠ []) := by
  obtain ⟨above, below, hrows, hstart⟩ := hnode.exists_rows
  obtain ⟨front, line, hlast⟩ := node.exists_rows_last depth (separator after)
  have hcount : node.lineCount = front.length + 1 := by
    rw [← node.length_rows depth (separator after), hlast]
    simp
  refine ⟨line ++ ")" ++ separator after, ?_, ?_⟩
  · rw [lines_dump_zero h, hrows, hlast, hcount, ← hstart]
    simp
  · cases after <;> simp [separator]

end Unbroken

/-- **The dump is indented uniformly.**  If no operator is broken by a line feed, the dump at level
`n` is the one at level 0 with `4 * n` spaces in front of each line, and the limit of nesting does
not depend on the level.  The dump has a line for every node and one more for every node that is no
literal.  The lines of a node are those of its own dump, from the line on that its place in the tree
gives, and the last of them ends in a comma if and only if another child of the same node
follows. -/
theorem dump_indents_uniformly (h : ∀ op ∈ e.operators, '\n' ∉ op.lexeme.toList) :
    (∀ n : Nat, e.dump n = shifted (4 * n) (e.dump 0) ∧
      e.dump? n = (e.dump? 0).map (shifted (4 * n))) ∧
    (e.dump? 0 = .ok (e.dump 0) ∨ e.dump? 0 = .error .tooDeep ∧ levels 1 < e.height) ∧
    (lines (e.dump 0).toList).length
      = e.postorder.length + e.postorder.countP (fun node => !node.isLiteral) ∧
    ∀ (depth start : Nat) (after : List Expr) (node : Expr), e.Stands depth start after node →
      ((lines (e.dump 0).toList).drop start).take node.lineCount
          = lines (node.dump depth ++ separator after).toList ∧
        ∃ last, (lines (e.dump 0).toList)[start + node.lineCount - 1]? = some last ∧
          (last.toList.getLast? = some ',' ↔ after ≠ []) := by
  refine ⟨?_, e.dump?_cases 0, ?_, ?_⟩
  · intro n
    exact ⟨dump_eq_shifted h n, dump?_eq_map_shifted h n⟩
  · rw [lines_dump_zero h, length_rows, lineCount]
  · intro depth start after node hnode
    exact ⟨hnode.take_drop_lines h, hnode.last_line h⟩

/-- A negated number in parentheses. -/
def negatedGroup : Expr :=
  .grouping (.unary ⟨.symbol .minus, "-", 1, none⟩ (.literal .number (some "1")))

/-- A string with a quote and a line feed in it. -/
def twoLineString : Expr :=
  .literal .string (some "it's\n")

/-- A comparison of the two. -/
def unevenTree : Expr :=
  .binary twoLineString ⟨.symbol .bangEqual, "!=", 1, none⟩ negatedGroup

/-- Five nodes of which two are literals.  The string is followed by another child, the parentheses
are not. -/
theorem dump_indents_uniformly_uneven :
    (∀ op ∈ unevenTree.operators, '\n' ∉ op.lexeme.toList) ∧
      unevenTree.dump 2 = shifted 8 (unevenTree.dump 0) ∧
      (lines (unevenTree.dump 0).toList).length = 5 + 3 ∧
      unevenTree.Stands 1 1 [negatedGroup] twoLineString ∧
      unevenTree.Stands 1 2 [] negatedGroup ∧
      (∃ last, (lines (unevenTree.dump 0).toList)[1]? = some last ∧
        last.toList.getLast? = some ',') ∧
      ∃ last, (lines (unevenTree.dump 0).toList)[6]? = some last ∧
        last.toList.getLast? ≠ some ',' := by
  have hops : ∀ op ∈ unevenTree.operators, '\n' ∉ op.lexeme.toList := by decide
  have hfirst : unevenTree.children = [] ++ twoLineString :: [negatedGroup] := rfl
  have hsecond : unevenTree.children = [twoLineString] ++ negatedGroup :: [] := rfl
  have hstring : unevenTree.Stands 1 1 [negatedGroup] twoLineString := .child .root hfirst
  have hgroup : unevenTree.Stands 1 2 [] negatedGroup := .child .root hsecond
  obtain ⟨hdump, -, hcount, hplaces⟩ := dump_indents_uniformly hops
  obtain ⟨-, last, hlast, hcomma⟩ := hplaces _ _ _ _ hstring
  obtain ⟨-, last', hlast', hnone⟩ := hplaces _ _ _ _ hgroup
  refine ⟨hops, (hdump 2).1, hcount, hstring, hgroup, ?_, ?_⟩
  · exact ⟨last, hlast, hcomma.mpr (List.cons_ne_nil _ _)⟩
  · exact ⟨last', hlast', fun h => hnone.mp h rfl⟩

end Expr

end LoxCalc
