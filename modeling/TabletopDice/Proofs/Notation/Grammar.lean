import TabletopDice.Expr
import TabletopDice.Text.Blank

/-!
# The notation, as a grammar

What may be written for an expression, and which tree a text stands for, without any word about how
it is read:

```
sum      = product (('+' | '-') product)*
product  = factor ('*' factor)*
factor   = blanks atom blanks
atom     = '(' sum ')' | dice | number
dice     = [digits] 'd' number modifier*
modifier = one of nineteen beginnings, and a number
number   = ['+' | '-'] digits
```

A repetition is written as a rule that refers to its own layer on the left. That is the same set of
texts, and it says with no further word that operators of one layer group to the left.

Nothing here prefers one rule to another. That a reader which commits itself to the first thing
that works still reads exactly these texts is the subject of
`TabletopDice.Proofs.Notation.Expressions`.
-/

set_option autoImplicit false

namespace TabletopDice.Notation

/-! ## Numbers -/

/-- A run of digits without a leading zero, and the natural number that it is. -/
structure Unsigned (t : Text) (n : Nat) : Prop where
  digits : ∀ c ∈ t, c.isDigit = true
  written : t ≠ []
  leading : t.head? = some '0' → t = ['0']
  value : Nat.ofDigitChars 10 t 0 = n

/-- The integer that a natural number stands for behind a sign, `-` or another one or none. -/
def valueOf (sign : Option Char) (n : Nat) : Int := if sign = some '-' then -n else n

/-- A run of digits with or without a sign. That the value fits is said by its type. -/
inductive Signed : Text → Number → Prop
  | plain {t : Text} {n : Nat} {v : Number} (digits : Unsigned t n) (value : v.toInt = n) :
      Signed t v
  | plus {t : Text} {n : Nat} {v : Number} (digits : Unsigned t n) (value : v.toInt = n) :
      Signed ('+' :: t) v
  | minus {t : Text} {n : Nat} {v : Number} (digits : Unsigned t n) (value : v.toInt = -n) :
      Signed ('-' :: t) v

/-! ## Dice terms -/

/-- The nineteen beginnings of a modifier, each with what the number behind it makes of it. -/
def beginnings : List (Text × (Number → Modifier)) :=
  [(['k', 'h'], fun n => .select ⟨.keep, .highest, n⟩),
    (['k', 'l'], fun n => .select ⟨.keep, .lowest, n⟩),
    (['d', 'h'], fun n => .select ⟨.drop, .highest, n⟩),
    (['d', 'l'], fun n => .select ⟨.drop, .lowest, n⟩),
    (['r'], fun n => .reroll ⟨.equal, n⟩),
    (['r', '<'], fun n => .reroll ⟨.less, n⟩),
    (['r', '<', '='], fun n => .reroll ⟨.atMost, n⟩),
    (['r', '>'], fun n => .reroll ⟨.greater, n⟩),
    (['r', '>', '='], fun n => .reroll ⟨.atLeast, n⟩),
    (['x'], fun n => .explode ⟨.equal, n⟩),
    (['x', '<'], fun n => .explode ⟨.less, n⟩),
    (['x', '<', '='], fun n => .explode ⟨.atMost, n⟩),
    (['x', '>'], fun n => .explode ⟨.greater, n⟩),
    (['x', '>', '='], fun n => .explode ⟨.atLeast, n⟩),
    (['c', 's', '='], fun n => .countSuccesses ⟨.equal, n⟩),
    (['c', 's', '<'], fun n => .countSuccesses ⟨.less, n⟩),
    (['c', 's', '<', '='], fun n => .countSuccesses ⟨.atMost, n⟩),
    (['c', 's', '>'], fun n => .countSuccesses ⟨.greater, n⟩),
    (['c', 's', '>', '='], fun n => .countSuccesses ⟨.atLeast, n⟩)]

/-- One of the beginnings, and a number behind it. -/
def ModifierForm (t : Text) (m : Modifier) : Prop :=
  ∃ b f u n, (b, f) ∈ beginnings ∧ Signed u n ∧ t = b ++ u ∧ m = f n

/-- Modifiers one behind the other, with nothing between them. -/
inductive ModifiersForm : Text → List Modifier → Prop
  | none : ModifiersForm [] []
  | next {t u : Text} {m : Modifier} {ms : List Modifier} (first : ModifierForm t m)
      (more : ModifiersForm u ms) : ModifiersForm (t ++ u) (m :: ms)

/-- How many dice there are: a run of digits, or nothing for a single die. -/
inductive CountForm : Text → Count → Prop
  | omitted : CountForm [] 1
  | given {t : Text} {c : Count} (digits : Unsigned t c.toNat) : CountForm t c

/-- A dice term: no two of its modifiers share a category, and it carries each of them. -/
inductive DiceForm : Text → Dice → Prop
  | term {t u v : Text} {count : Count} {sides : Number} {ms : List Modifier}
      (dice : CountForm t count) (faces : Signed u sides) (modifiers : ModifiersForm v ms)
      (distinct : (ms.map Modifier.category).Nodup) :
      DiceForm (t ++ 'd' :: (u ++ v)) (ms.foldl Dice.set { count, sides })

/-! ## Expressions -/

/-- The layers of the grammar, the loosest first. -/
inductive Layer where
  | sum
  | product
  | factor
  | atom
deriving DecidableEq

/-- A text of a layer stands for an expression. -/
inductive Derives : Layer → Text → Expr → Prop
  | number {t : Text} {n : Number} (h : Signed t n) : Derives .atom t (.number n)
  | dice {t : Text} {d : Dice} (h : DiceForm t d) : Derives .atom t (.dice d)
  | group {t : Text} {e : Expr} (h : Derives .sum t e) : Derives .atom ('(' :: t ++ [')']) e
  | factor {before t behind : Text} {e : Expr} (left : ∀ c ∈ before, Text.isBlank c = true)
      (h : Derives .atom t e) (right : ∀ c ∈ behind, Text.isBlank c = true) :
      Derives .factor (before ++ t ++ behind) e
  | product {t : Text} {e : Expr} (h : Derives .factor t e) : Derives .product t e
  | times {t u : Text} {e f : Expr} (h : Derives .product t e) (k : Derives .factor u f) :
      Derives .product (t ++ '*' :: u) (.join .times e f)
  | sum {t : Text} {e : Expr} (h : Derives .product t e) : Derives .sum t e
  | plus {t u : Text} {e f : Expr} (h : Derives .sum t e) (k : Derives .product u f) :
      Derives .sum (t ++ '+' :: u) (.join .plus e f)
  | minus {t u : Text} {e f : Expr} (h : Derives .sum t e) (k : Derives .product u f) :
      Derives .sum (t ++ '-' :: u) (.join .minus e f)

/-! ## How a form begins -/

/-- Every run of digits has a first one. -/
theorem Unsigned.exists_cons {t : Text} {n : Nat} (h : Unsigned t n) :
    ∃ c u, t = c :: u ∧ c.isDigit = true := by
  obtain ⟨c, u, rfl⟩ := List.exists_cons_of_ne_nil h.written
  exact ⟨c, u, rfl, h.digits c (by simp)⟩

@[simp] theorem valueOf_none (n : Nat) : valueOf none n = n := rfl

@[simp] theorem valueOf_plus (n : Nat) : valueOf (some '+') n = n := rfl

@[simp] theorem valueOf_minus (n : Nat) : valueOf (some '-') n = -n := rfl

theorem valueOf_eq_or (sign : Option Char) (n : Nat) :
    valueOf sign n = n ∨ valueOf sign n = -n := by
  unfold valueOf
  split
  · exact .inr rfl
  · exact .inl rfl

/-- A character that a signed number can begin with. -/
def isSignOrDigit (c : Char) : Bool := c = '+' || c = '-' || c.isDigit

theorem Signed.exists_cons {t : Text} {n : Number} (h : Signed t n) :
    ∃ c u, t = c :: u ∧ isSignOrDigit c = true := by
  cases h with
  | plain digits value =>
    obtain ⟨c, u, rfl, digit⟩ := digits.exists_cons
    exact ⟨c, u, rfl, by simp [isSignOrDigit, digit]⟩
  | plus digits value => exact ⟨'+', _, rfl, by decide⟩
  | minus digits value => exact ⟨'-', _, rfl, by decide⟩

/-- No modifier begins with a digit. -/
theorem ModifiersForm.head {t : Text} {ms : List Modifier} (h : ModifiersForm t ms) :
    ∀ c ∈ t.head?, c.isDigit = false := by
  cases h with
  | none => simp
  | next first more =>
    obtain ⟨b, f, u, n, listed, -, rfl, -⟩ := first
    have letters : ∀ b ∈ beginnings.map Prod.fst, ∃ c v, b = c :: v ∧ c.isDigit = false := by
      simp [beginnings]
    obtain ⟨c, v, rfl, letter⟩ := letters b (List.mem_map_of_mem (f := Prod.fst) listed)
    intro d first
    obtain rfl : c = d := by simpa using first
    exact letter

end TabletopDice.Notation
