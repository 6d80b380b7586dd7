import TabletopDice.Dice

/-!
# Expressions

Dice terms and numbers, joined by `+`, `-` and `*`. An expression is a tree; its written form has
parentheses exactly where the tree cannot be told from another one without them. All three
operators group to the left, so a left operand needs parentheses if it binds less tightly than the
operator, and a right operand also if it binds just as tightly.

Two questions can be asked of an expression before anything is rolled: whether it comes out the same
every time (`Expr.isDeterministic`), and whether rolling it might never come to an end
(`Expr.mayNeverEnd`).
-/

set_option autoImplicit false

namespace TabletopDice

/-- The ways to join two expressions. -/
inductive Operator where
  | plus
  | minus
  | times
deriving DecidableEq

namespace Operator

/-- The sign that stands for the operator. -/
def symbol : Operator → Char
  | .plus => '+'
  | .minus => '-'
  | .times => '*'

/-- How tightly the operator binds. -/
def strength : Operator → Nat
  | .plus => 1
  | .minus => 1
  | .times => 2

/-- The operation on integers. -/
def onInt : Operator → Int → Int → Int
  | .plus, a, b => a + b
  | .minus, a, b => a - b
  | .times, a, b => a * b

/-- The operation on numbers: the exact result, held inside the range. -/
def apply (o : Operator) (a b : Number) : Number := Number.clamp (o.onInt a.toInt b.toInt)

instance : ToString Operator := ⟨fun o => String.ofList [o.symbol]⟩

end Operator

/-- An expression over dice. -/
inductive Expr where
  /-- A number by itself. -/
  | number (n : Number)
  /-- A dice term. -/
  | dice (d : Dice)
  /-- Two expressions joined by an operator. -/
  | join (o : Operator) (left right : Expr)
deriving DecidableEq

namespace Expr

instance : Inhabited Expr := ⟨.number 0⟩

/-- How tightly the outermost part of an expression holds together. A number or a dice term holds
together more tightly than any operator. -/
def strength : Expr → Nat
  | .number _ => 3
  | .dice _ => 3
  | .join o _ _ => o.strength

/-- A text, in parentheses if it needs them. -/
def grouped (needed : Bool) (t : Text) : Text := if needed then '(' :: t ++ [')'] else t

/-- The written form of an expression. -/
def text : Expr → Text
  | .number n => n.text
  | .dice d => d.text
  | .join o left right =>
    grouped (left.strength < o.strength) left.text ++ [' ', o.symbol, ' '] ++
      grouped (right.strength ≤ o.strength) right.text

instance : ToString Expr := ⟨fun e => String.ofList e.text⟩

/-- Whether the expression comes out the same whatever is rolled: its dice are none at all, or have
one side. -/
def isDeterministic : Expr → Bool
  | .number _ => true
  | .dice d => decide (d.count = 0) || decide (d.sides = 1)
  | .join _ left right => left.isDeterministic && right.isDeterministic

/-- Whether some of its dice may go on forever. -/
def mayNeverEnd : Expr → Bool
  | .number _ => false
  | .dice d => d.mayNeverEnd
  | .join _ left right => left.mayNeverEnd || right.mayNeverEnd

end Expr

end TabletopDice
