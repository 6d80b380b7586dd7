import TabletopDice.Condition
import TabletopDice.Selection

/-!
# Modifiers of a dice term

A modifier changes what becomes of dice once they are rolled. There are four categories of them, and
a dice term has room for one of each.

Three of the four are letters in front of a condition. Rerolls and explosions leave the sign of an
equality out (`r1`, `x6`), while successes write every sign (`cs=6`, `cs>=5`).
-/

set_option autoImplicit false

namespace TabletopDice

/-- Something attached to a dice term that changes what becomes of its dice. -/
inductive Modifier where
  /-- Lets only some of the dice count. -/
  | select (selection : Selection)
  /-- Rolls a die once more in place of one that meets the condition. -/
  | reroll (condition : Condition)
  /-- Rolls another die after one that meets the condition, and again after that one. -/
  | explode (condition : Condition)
  /-- Counts the dice that meet the condition instead of adding them up. -/
  | countSuccesses (condition : Condition)
deriving DecidableEq

/-- The kinds of modifier. -/
inductive Category where
  | select
  | reroll
  | explode
  | countSuccesses
deriving DecidableEq

/-- What a category is called in a message. -/
def Category.name : Category → String
  | .select => "keep/drop"
  | .reroll => "reroll"
  | .explode => "explode"
  | .countSuccesses => "count successes"

namespace Modifier

/-- The category that the modifier takes up. -/
def category : Modifier → Category
  | .select _ => .select
  | .reroll _ => .reroll
  | .explode _ => .explode
  | .countSuccesses _ => .countSuccesses

/-- The written form of a modifier. -/
def text : Modifier → Text
  | .select s => s.text
  | .reroll c => 'r' :: c.shortText
  | .explode c => 'x' :: c.shortText
  | .countSuccesses c => 'c' :: 's' :: c.text

instance : ToString Modifier := ⟨fun m => String.ofList m.text⟩

end Modifier

end TabletopDice
