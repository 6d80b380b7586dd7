import TabletopDice.Modifier

/-!
# Dice terms

`4d6r1kh3`: so many dice of so many sides, and at most one modifier of each category. The four
categories are four fields, so "at most one" is true of every value of the type, and the order in
which modifiers were written is not part of a term.

There are two ways to put modifiers on. `Dice.set` replaces what was there; `Dice.ofModifiers` takes
a list and refuses the second modifier of a category, with `DuplicateModifier` saying which. Read
back with `Dice.modifiers`, they stand in the order in which they take effect.

A term can also be put together piece by piece, its numbers no less than its modifiers, out of the
standard die (`Dice.build`). Nothing is refused there: of two pieces that take the same place the
later one stays.
-/

set_option autoImplicit false

namespace TabletopDice

/-- A number of alike dice and what is to be done with them. -/
@[ext]
structure Dice where
  /-- How many dice are rolled. -/
  count : Count
  /-- How many sides each of them has. -/
  sides : Number
  /-- Which dice are rolled once more. -/
  reroll : Option Condition := none
  /-- Which dice bring another die with them. -/
  explode : Option Condition := none
  /-- Which dice count. -/
  select : Option Selection := none
  /-- Which dice are successes, where successes are counted. -/
  successes : Option Condition := none
deriving DecidableEq

/-- Two modifiers of one category were given. -/
@[ext]
structure DuplicateModifier where
  /-- The category given twice. -/
  category : Category
deriving DecidableEq

/-- The wording of the refusal. -/
def DuplicateModifier.message (d : DuplicateModifier) : String :=
  "more than one " ++ d.category.name ++ " modifier"

namespace Dice

/-- The die that is rolled where nothing else is asked for: one with twenty sides. -/
def standard : Dice := { count := 1, sides := ⟨20, by decide, by decide⟩ }

instance : Inhabited Dice := ⟨standard⟩

/-- The same dice without modifiers. -/
def plain (d : Dice) : Dice := { count := d.count, sides := d.sides }

/-- The dice with a modifier put on, in place of one of the same category. -/
def set (d : Dice) : Modifier → Dice
  | .select s => { d with select := some s }
  | .reroll c => { d with reroll := some c }
  | .explode c => { d with explode := some c }
  | .countSuccesses c => { d with successes := some c }

/-- Whether the dice have a modifier of a category. -/
def has (d : Dice) : Category → Bool
  | .select => d.select.isSome
  | .reroll => d.reroll.isSome
  | .explode => d.explode.isSome
  | .countSuccesses => d.successes.isSome

/-- The dice with a modifier put on, if its category is still free. -/
def add (d : Dice) (m : Modifier) : Except DuplicateModifier Dice :=
  if d.has m.category then .error ⟨m.category⟩ else .ok (d.set m)

/-- Puts modifiers on one after the other, up to the first whose category is taken. -/
def addAll (d : Dice) : List Modifier → Except DuplicateModifier Dice
  | [] => .ok d
  | m :: ms =>
    match d.add m with
    | .error e => .error e
    | .ok e => e.addAll ms

/-- Dice with the modifiers of a list, which may hold them in any order. -/
def ofModifiers (count : Count) (sides : Number) (ms : List Modifier) :
    Except DuplicateModifier Dice :=
  addAll { count, sides } ms

/-- A piece of a dice term. -/
inductive Piece where
  | count (count : Count)
  | sides (sides : Number)
  | modifier (modifier : Modifier)
deriving DecidableEq

/-- The dice with a piece put in, in place of what was there. -/
def put (d : Dice) : Piece → Dice
  | .count count => { d with count }
  | .sides sides => { d with sides }
  | .modifier m => d.set m

/-- The dice that pieces make of the standard die, each put in after the one before it. -/
def build (pieces : List Piece) : Dice := pieces.foldl put standard

/-- The modifiers of the dice, in the order in which they take effect. -/
def modifiers (d : Dice) : List Modifier :=
  (d.reroll.map .reroll).toList ++ (d.explode.map .explode).toList ++
    (d.select.map .select).toList ++ (d.successes.map .countSuccesses).toList

/-- The written form of a dice term. -/
def text (d : Dice) : Text :=
  d.count.text ++ 'd' :: d.sides.text ++ d.modifiers.flatMap Modifier.text

instance : ToString Dice := ⟨fun d => String.ofList d.text⟩

/-- Whether a freshly rolled face is rolled once more. -/
def rerolls (d : Dice) (face : Number) : Bool := d.reroll.any (·.holds face)

/-- Whether a face brings another die with it. -/
def explodes (d : Dice) (face : Number) : Bool := d.explode.any (·.holds face)

/-- Whether there is a die to roll and every face that it can show brings another die with it. -/
def mayNeverEnd (d : Dice) : Bool :=
  decide (0 < d.count.toNat) && d.explode.any (·.alwaysHolds d.sides)

end Dice

end TabletopDice
