import TabletopDice.Dice
import TabletopDice.Die

/-!
# A dice term and how it fell

A roll is a dice term together with the dice that it left on the table. Its total is the sum of the
dice that count, or, where the term counts successes, the number of those that are successes.

The sum is taken one die at a time, and whenever it would leave the range of `Number` it stops at
the end of the range and goes on from there. So with faces of both signs the order of the dice can
matter.
-/

set_option autoImplicit false

namespace TabletopDice

/-- A dice term and the dice it left on the table. -/
@[ext]
structure Roll where
  /-- What was rolled. -/
  term : Dice
  /-- What fell, in order, discarded dice among the rest. -/
  dice : List Die
deriving DecidableEq

namespace Roll

/-- A roll in which every die shows a given face and counts. -/
def ofFaces (term : Dice) (faces : List Number) : Roll :=
  { term, dice := faces.map fun face => { face, sides := term.sides } }

/-- The sum of faces, held inside the range after each of them. -/
def sum (faces : List Number) : Number :=
  faces.foldl (fun total face => Number.clamp (total.toInt + face.toInt)) 0

/-- What the roll comes to. -/
def total (r : Roll) : Number :=
  let faces := (Die.kept r.dice).map Die.face
  match r.term.successes with
  | some c => Number.clamp (faces.countP c.holds)
  | none => sum faces

/-- The term and the dice that fell, no more of them than a limit allows. -/
def description (limit : Option Nat) (r : Roll) : Text := r.term.text ++ Die.listText limit r.dice

instance : ToString Roll := ⟨fun r => String.ofList (r.description none)⟩

end Roll

end TabletopDice
