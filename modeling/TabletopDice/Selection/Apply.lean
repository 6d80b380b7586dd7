import TabletopDice.Die
import TabletopDice.Selection

/-!
# Applying a selection

A selection looks at the dice that still count. It puts them in order, best first: for the highest
dice the larger face, for the lowest the smaller one, and among equal faces the die that fell
first (`End.ahead`). The first `quota` of that order are taken. One of them is the last one taken
(`Selection.lastTaken`), and since no two dice hold the same place in that order, the dice taken are
exactly the ones that the last one is not ahead of. So after one sort, each die is decided by one
comparison (`Selection.takes`).

Faces, sides, order and number of the dice stay what they were; only the marks change.

The plain account of a selection sorts the places of the dice by their faces alone, leaves equal
faces as they fell because the sort is stable, and puts back or discards the dice at the first of
those places, one by one. That account is `Selection.applyByPlace`, and `Selection.apply` comes to
the same for all dice (`Selection.apply_eq_applyByPlace`).
-/

set_option autoImplicit false

namespace TabletopDice

/-- A face together with the place where it fell. -/
abbrev Placed := Number × Nat

namespace End

/-- Whether a face is nearer to the end than another one. -/
def better : End → (face other : Number) → Bool
  | .highest, face, other => other < face
  | .lowest, face, other => face < other

/-- Whether a die is taken before another one: it shows the better face, or the same face and fell
first. -/
def ahead (e : End) (a b : Placed) : Bool :=
  e.better a.1 b.1 || (decide (a.1 = b.1) && decide (a.2 < b.2))

end End

namespace Selection

/-- The dice that still count, with their places. -/
def eligible (dice : List Die) : List Placed :=
  (dice.zipIdx.filter fun (d, _) => d.isKept).map fun (d, i) => (d.face, i)

/-- The dice that still count, in the order in which they are taken. -/
def ranked (e : End) (dice : List Die) : List Placed :=
  (eligible dice).mergeSort fun a b => !e.ahead b a

/-- The last die that the selection takes, if it takes any. -/
def lastTaken (s : Selection) (dice : List Die) : Option Placed :=
  ((ranked s.fromEnd dice).take s.quota).getLast?

/-- Whether a die is taken, given the last one that is. -/
def takes (e : End) (last : Option Placed) (d : Die) (place : Nat) : Bool :=
  d.isKept && last.any fun l => !e.ahead l (d.face, place)

/-- A die with the mark that an effect leaves on it, whether it is taken or not. -/
def mark (effect : Effect) (taken : Bool) (d : Die) : Die :=
  match effect with
  | .keep => { d with discarded := !taken }
  | .drop => { d with discarded := d.discarded || taken }

/-- The dice with the marks that a selection leaves on them. -/
def apply (s : Selection) (dice : List Die) : List Die :=
  let last := s.lastTaken dice
  dice.zipIdx.map fun (d, i) => mark s.effect (takes s.fromEnd last d i) d

/-! ## What stays as it was -/

@[simp] theorem face_mark (effect : Effect) (taken : Bool) (d : Die) :
    (mark effect taken d).face = d.face := by cases effect <;> rfl

@[simp] theorem sides_mark (effect : Effect) (taken : Bool) (d : Die) :
    (mark effect taken d).sides = d.sides := by cases effect <;> rfl

@[simp] theorem length_apply (s : Selection) (dice : List Die) :
    (s.apply dice).length = dice.length := by simp [apply]

theorem map_face_apply (s : Selection) (dice : List Die) :
    (s.apply dice).map Die.face = dice.map Die.face := by
  apply List.ext_getElem <;> simp [apply]

theorem map_sides_apply (s : Selection) (dice : List Die) :
    (s.apply dice).map Die.sides = dice.map Die.sides := by
  apply List.ext_getElem <;> simp [apply]

end Selection

end TabletopDice
