import TabletopDice.Number

/-!
# Dice on the table

A die that has been rolled shows a face, and it either counts or has been discarded. Discarded dice
stay on the table: they are listed with the others, in the order in which they fell, and marked.

A list of dice can be cut after so many entries; what is left out is then counted in its place.
-/

set_option autoImplicit false

namespace TabletopDice

/-- A die that has been rolled. -/
@[ext]
structure Die where
  /-- The face it shows. -/
  face : Number
  /-- How many sides it has. -/
  sides : Number
  /-- Whether it has been taken out of the result. -/
  discarded : Bool := false
deriving DecidableEq

namespace Die

/-- Whether the die counts. -/
def isKept (d : Die) : Bool := !d.discarded

/-- The written form of a die: its face, and a mark if it has been discarded. -/
def text (d : Die) : Text :=
  if d.discarded then d.face.text ++ [' ', '(', 'd', ')'] else d.face.text

instance : ToString Die := ⟨fun d => String.ofList d.text⟩

/-- The dice that count, in their order. -/
def kept (dice : List Die) : List Die := dice.filter isKept

/-- What stands for the dice that a list leaves out, if it leaves any out. -/
def omitted (n : Nat) : Text :=
  if n = 0 then [] else [',', ' '] ++ Text.digits n ++ " more...".toList

/-- Dice in brackets, no more of them than a limit allows. -/
def listText (limit : Option Nat) (dice : List Die) : Text :=
  let shown := limit.getD dice.length
  ['['] ++ Text.listed ((dice.take shown).map text) ++ omitted (dice.length - shown) ++ [']']

end Die

end TabletopDice
