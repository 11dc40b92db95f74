import LoxCalc.Expr.Basic
import LoxCalc.Fault

/-!
# Limits of nesting

Reading, showing and evaluating an expression each go down into it on a stack of limited size.
Reading uses slots for groupings and unary operators only: a chain of binary operators is read in a
loop, however long it is.  Every other walk uses slots for each level of the tree.

A walk fails when it **reaches** a place that is too deep.  One that ends before, because something
else is wrong or nothing more is to be learnt, does not notice the depth.

The limits are **nominal**.  They say how the depth of a tree uses up the stack, but not where
exactly the stack ends: the slots in use before a walk begins are not counted, so the last few
levels may be out of reach of a real stack of this size.
-/

namespace LoxCalc

/-- The slots of the stack, as if all of them were free when a walk begins. -/
def stackSlots : Nat := 1000

namespace Expr

/-- The slots that reading an expression nominally needs: a grouping goes down through all rules of
the grammar, a unary operator through one. -/
def nesting : Expr → Nat
  | literal _ _ => 0
  | grouping e => e.nesting + 11
  | unary _ e => e.nesting + 1
  | binary l _ r => max l.nesting r.nesting

/-- Can the expression be read? -/
def isReadable (e : Expr) : Bool :=
  e.nesting ≤ stackSlots

/-- The nominal number of levels of a tree that a walk can go down through if it uses `slots` slots
for each. -/
def levels (slots : Nat) : Nat :=
  stackSlots / slots

end Expr

end LoxCalc
