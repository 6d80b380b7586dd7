import TabletopDice.Expr
import TabletopDice.Parser.Dice

/-!
# Reading expressions

An expression is a sum of products of atoms, and an atom is an expression in parentheses, a dice
term, or a number. An atom takes the blanks on both sides of it along, so an operator always stands
directly between two atoms and needs no care of its own. A dice term is tried before a number, since
it may begin with one; where the term cannot be read, the number is what is left.

The expression inside parentheses is read by the same parser at one level of nesting less. Each level
takes a character, so a parser for more levels than the text has characters never meets its bound
(`nested_agree`), and `expr` is that parser. Its law is `expr_eq`: an expression is a sum whose
groups are expressions.
-/

set_option autoImplicit false

namespace TabletopDice.Parser

/-- Reads the sign of one of several operators. -/
def operator (os : List Operator) : Parser Operator :=
  choice (os.map fun o => do literal [o.symbol]; pure o)

/-- Reads a value and the blanks on both sides of it. -/
def amongBlanks {α : Type} (p : Parser α) : Parser α := do
  blank
  let a ← p
  blank
  pure a

/-- Reads an expression in parentheses. -/
def group (inner : Parser Expr) : Parser Expr := do
  literal ['(']
  let e ← inner
  literal [')']
  pure e

/-- Reads a part of an expression that no operator can divide. -/
def atom (inner : Parser Expr) : Parser Expr :=
  amongBlanks
    (choice
      [group inner, do let d ← dice; pure (.dice d), do let n ← number; pure (.number n)])

/-- The expression that begins with a part and goes on with operators and further parts, grouped to
the left. -/
def joined (first : Expr) (more : List (Operator × Expr)) : Expr :=
  more.foldl (fun left (o, right) => .join o left right) first

/-- Reads parts with operators between them. -/
def joinedBy (os : List Operator) (part : Parser Expr) : Parser Expr := do
  let first ← part
  let more ← many do
    let o ← operator os
    let e ← part
    pure (o, e)
  pure (joined first more)

/-- Reads a product. -/
def product (inner : Parser Expr) : Parser Expr := joinedBy [.times] (atom inner)

/-- Reads a sum. -/
def sum (inner : Parser Expr) : Parser Expr := joinedBy [.plus, .minus] (product inner)

/-- Reads an expression in which parentheses are nested less deeply than a bound. -/
def nested : Nat → Parser Expr
  | 0 => fail
  | bound + 1 => sum (nested bound)

/-- Reads an expression. -/
def expr : Parser Expr := fun s => nested (s.length + 1) s

/-! ## What is left behind an expression -/

theorem takesFront_operator (os : List Operator) : TakesFront (operator os) := by
  apply TakesFront.choice
  intro p hp
  obtain ⟨o, -, rfl⟩ := List.mem_map.1 hp
  exact (TakesFront.literal _).bind fun _ => .pure o

theorem TakesFront.amongBlanks {α : Type} {p : Parser α} (hp : TakesFront p) :
    TakesFront (amongBlanks p) :=
  TakesFront.blank.bind fun _ => hp.bind fun _ => TakesFront.blank.bind fun _ => .pure _

theorem TakesFront.group {inner : Parser Expr} (h : TakesFront inner) : TakesFront (group inner) :=
  (TakesFront.literal _).bind fun _ => h.bind fun _ => (TakesFront.literal _).bind fun _ => .pure _

theorem TakesFront.atom {inner : Parser Expr} (h : TakesFront inner) : TakesFront (atom inner) := by
  apply TakesFront.amongBlanks
  apply TakesFront.choice
  intro p hp
  simp only [List.mem_cons, List.not_mem_nil, or_false] at hp
  rcases hp with rfl | rfl | rfl
  · exact h.group
  · exact takesFront_dice.bind fun _ => .pure _
  · exact takesFront_number.bind fun _ => .pure _

theorem TakesFront.joinedBy {os : List Operator} {part : Parser Expr} (h : TakesFront part) :
    TakesFront (joinedBy os part) :=
  h.bind fun _ =>
    ((takesFront_operator os).bind fun _ => h.bind fun _ => .pure _).many.bind fun _ => .pure _

theorem TakesFront.sum {inner : Parser Expr} (h : TakesFront inner) : TakesFront (sum inner) :=
  TakesFront.joinedBy (TakesFront.joinedBy h.atom)

theorem takesFront_nested (bound : Nat) : TakesFront (nested bound) := by
  induction bound with
  | zero => exact TakesFront.fail
  | succ bound ih => exact ih.sum

theorem takesFront_expr : TakesFront expr := fun s _ _ h => takesFront_nested (s.length + 1) h

/-! ## The bound on nesting is never met -/

theorem AgreeUpTo.atom {n : Nat} {p q : Parser Expr} (h : ∀ m < n, AgreeUpTo m p q)
    (hp : TakesFront p) : AgreeUpTo n (atom p) (atom q) := by
  have groups : AgreeUpTo n (group p) (group q) :=
    AgreeUpTo.literal_then fun m less => (h m less).bind hp fun _ => .refl m _
  refine (AgreeUpTo.refl n blank).bind .blank fun _ => AgreeUpTo.bind ?_ ?_ fun _ => .refl n _
  · exact groups.orElse (.refl n _)
  · exact hp.group.orElse (.choice fun r hr => by
      simp only [List.mem_cons, List.not_mem_nil, or_false] at hr
      rcases hr with rfl | rfl
      · exact takesFront_dice.bind fun _ => .pure _
      · exact takesFront_number.bind fun _ => .pure _)

theorem AgreeUpTo.joinedBy {n : Nat} {os : List Operator} {p q : Parser Expr}
    (h : AgreeUpTo n p q) (hp : TakesFront p) : AgreeUpTo n (joinedBy os p) (joinedBy os q) := by
  have step : TakesFront (do let o ← operator os; let e ← p; pure (o, e)) :=
    (takesFront_operator os).bind fun _ => hp.bind fun _ => .pure _
  refine h.bind hp fun _ => AgreeUpTo.bind (AgreeUpTo.many ?_) step.many fun _ => .refl n _
  exact (AgreeUpTo.refl n _).bind (takesFront_operator os) fun _ => h.bind hp fun _ => .refl n _

theorem AgreeUpTo.sum {n : Nat} {p q : Parser Expr} (h : ∀ m < n, AgreeUpTo m p q)
    (hp : TakesFront p) : AgreeUpTo n (sum p) (sum q) :=
  ((AgreeUpTo.atom h hp).joinedBy hp.atom).joinedBy hp.atom.joinedBy

/-- Two bounds that a text is too short to meet come to the same. -/
theorem nested_agree {n bound other : Nat} (h : n < bound) (k : n < other) :
    AgreeUpTo n (nested bound) (nested other) := by
  induction n using Nat.strongRecOn generalizing bound other with
  | ind n ih =>
    obtain ⟨bound, rfl⟩ : ∃ b, bound = b + 1 := ⟨bound - 1, by omega⟩
    obtain ⟨other, rfl⟩ : ∃ b, other = b + 1 := ⟨other - 1, by omega⟩
    exact AgreeUpTo.sum (fun m less => ih m less (by omega) (by omega)) (takesFront_nested bound)

/-- An expression is a sum whose groups are expressions. -/
theorem expr_eq : expr = sum expr := by
  funext s
  refine AgreeUpTo.sum (n := s.length) (fun m less t small => ?_) (takesFront_nested s.length) s
    (Nat.le_refl _)
  exact nested_agree (n := t.length) (by omega) (by omega) t (Nat.le_refl _)

end TabletopDice.Parser

namespace TabletopDice

/-- The dice term that a whole text is. -/
def Dice.ofText (s : Text) : Except Refusal Dice := Parser.whole Parser.dice s

/-- The expression that a whole text is. -/
def Expr.ofText (s : Text) : Except Refusal Expr := Parser.whole Parser.expr s

/-- The modifier that a whole text is. -/
def Modifier.ofText (s : Text) : Except Refusal Modifier := Parser.whole Parser.modifier s

/-- The number that a whole text is. -/
def Number.ofText (s : Text) : Except Refusal Number := Parser.whole Parser.number s

end TabletopDice
