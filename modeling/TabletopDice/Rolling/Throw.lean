import TabletopDice.Dice
import TabletopDice.Rolling.Record
import TabletopDice.Source

/-!
# Throwing the dice of a term

One die of a term can take several faces to settle: a second one if it is rolled once more, a whole
chain of them if it explodes. A throw is the run of faces that one die took, the face it showed
first in front. Which of them count, and why each was drawn, need not be remembered: both follow from
the term and the faces (`Dice.fallen`, `Dice.recorded`).

So drawing and reading are kept apart. `Source.throw` and `Source.throws` draw faces until the dice
have settled or the source has run out, and do nothing else. If it runs out, the faces that were
drawn are there all the same, those of the die that never settled last.

Chains and large handfuls of dice are drawn by loops that carry what they have so far along; the two
lemmas `chainFrom_eq` and `throwsFrom_eq` replace what is carried by the empty list, and with them
`chain_eq` and `throws_succ` give the equations to reason with.
-/

set_option autoImplicit false

namespace TabletopDice

namespace Source

variable {σ : Type}

/-- Faces drawn for one die. -/
structure Throw (σ : Type) where
  /-- The faces, in the order in which they were drawn. -/
  faces : List Number
  /-- Whether the die needs no further face. -/
  settled : Bool
  /-- Where the source stands. -/
  state : σ

/-- Draws faces after an exploding one, behind those that have been drawn before, until a face
brings no further die with it. The faces carried along are the latest first. -/
def chainFrom (src : Source σ) (d : Dice) (earlier : List Number) (s : σ) : Throw σ :=
  match _drawn : src.draw s d.sides with
  | none => ⟨earlier.reverse, false, s⟩
  | some (face, t) =>
    if d.explodes face then chainFrom src d (face :: earlier) t
    else ⟨(face :: earlier).reverse, true, t⟩
termination_by src.supply s
decreasing_by exact src.supply_draw ‹_›

/-- Draws faces after an exploding one until a face brings no further die with it. -/
def chain (src : Source σ) (d : Dice) (s : σ) : Throw σ := chainFrom src d [] s

/-- Faces with further ones in front. -/
def Throw.after (earlier : List Number) (t : Throw σ) : Throw σ :=
  { t with faces := earlier ++ t.faces }

/-- Draws faces for one die of a term. A face that the die is rolled once more for is followed by one
other, which stands whatever it is; only a face that stands can explode. -/
def throw (src : Source σ) (d : Dice) (s : σ) : Throw σ :=
  match src.draw s d.sides with
  | none => ⟨[], false, s⟩
  | some (face, t) =>
    if d.rerolls face then
      match src.draw t d.sides with
      | none => ⟨[face], false, t⟩
      | some (again, u) => ⟨[face, again], true, u⟩
    else if d.explodes face then (chain src d t).after [face]
    else ⟨[face], true, t⟩

/-- Faces drawn for several dice. -/
structure Throws (σ : Type) where
  /-- The faces of each die, in the order of the dice. -/
  groups : List (List Number)
  /-- Whether all dice have settled. -/
  settled : Bool
  /-- Where the source stands. -/
  state : σ

/-- Throws so many dice of a term, behind those that have been thrown before, or as many as the
source has faces for. The dice carried along are the latest first. -/
def throwsFrom (src : Source σ) (d : Dice) : (n : Nat) → (earlier : List (List Number)) → σ → Throws σ
  | 0, earlier, s => ⟨earlier.reverse, true, s⟩
  | n + 1, earlier, s =>
    let first := src.throw d s
    if first.settled then throwsFrom src d n (first.faces :: earlier) first.state
    else ⟨(first.faces :: earlier).reverse, false, first.state⟩

/-- Throws so many dice of a term, or as many as the source has faces for. -/
def throws (src : Source σ) (d : Dice) (n : Nat) (s : σ) : Throws σ := throwsFrom src d n [] s

/-- Several dice with further ones in front. -/
def Throws.after (earlier : List (List Number)) (t : Throws σ) : Throws σ :=
  { t with groups := earlier ++ t.groups }

/-! ## The loops without what they carry -/

theorem chainFrom_eq (src : Source σ) (d : Dice) (earlier : List Number) (s : σ) :
    chainFrom src d earlier s = (chain src d s).after earlier.reverse := by
  unfold chain
  suffices general : ∀ a b : List Number,
      chainFrom src d (b ++ a) s = (chainFrom src d b s).after a.reverse by
    simpa using general earlier []
  intro a b
  fun_induction chainFrom src d b s with
  | case1 b s h => rw [chainFrom, h]; simp [Throw.after]
  | case2 b s face t h explodes ih =>
    rw [chainFrom, h]
    simpa [explodes] using ih
  | case3 b s face t h calm =>
    rw [chainFrom, h]
    simp [calm, Throw.after]

/-- A chain is its first face and, if that one explodes, the chain after it. -/
theorem chain_eq (src : Source σ) (d : Dice) (s : σ) :
    chain src d s =
      match src.draw s d.sides with
      | none => ⟨[], false, s⟩
      | some (face, t) =>
        if d.explodes face then (chain src d t).after [face] else ⟨[face], true, t⟩ := by
  rw [chain, chainFrom]
  split
  · simp [*]
  · rename_i face t h
    rw [h]
    split
    · rename_i explodes
      simpa [explodes] using chainFrom_eq src d [face] t
    · rename_i calm
      simp [calm]

theorem throwsFrom_eq (src : Source σ) (d : Dice) (n : Nat) (earlier : List (List Number)) (s : σ) :
    throwsFrom src d n earlier s = (throws src d n s).after earlier.reverse := by
  unfold throws
  suffices general : ∀ a b : List (List Number),
      throwsFrom src d n (b ++ a) s = (throwsFrom src d n b s).after a.reverse by
    simpa using general earlier []
  intro a b
  induction n generalizing b s with
  | zero => simp [throwsFrom, Throws.after]
  | succ n ih =>
    simp only [throwsFrom]
    split
    · exact ih _ ((src.throw d s).faces :: b)
    · simp [Throws.after]

@[simp] theorem throws_zero (src : Source σ) (d : Dice) (s : σ) :
    throws src d 0 s = ⟨[], true, s⟩ := rfl

/-- Several dice are the first one and, if it settles, the others after it. -/
theorem throws_succ (src : Source σ) (d : Dice) (n : Nat) (s : σ) :
    throws src d (n + 1) s =
      if (src.throw d s).settled then
        (throws src d n (src.throw d s).state).after [(src.throw d s).faces]
      else ⟨[(src.throw d s).faces], false, (src.throw d s).state⟩ := by
  simp only [throws, throwsFrom]
  split
  · simpa [throws] using throwsFrom_eq src d n [(src.throw d s).faces] (src.throw d s).state
  · simp

end Source

/-! ## Reading the faces of a throw -/

namespace Dice

/-- The dice that the faces of one throw leave on the table. The first is discarded if it was rolled
once more. -/
def fallen (d : Dice) : (faces : List Number) → List Die
  | [] => []
  | first :: more =>
    { face := first, sides := d.sides, discarded := d.rerolls first } ::
      more.map fun face => { face, sides := d.sides }

/-- The record of the faces of one throw. -/
def recorded (d : Dice) : (faces : List Number) → List Record
  | [] => []
  | first :: more =>
    .rolled first d.sides ::
      more.map fun face => if d.rerolls first then .rerolled first face else .exploded face

@[simp] theorem map_face_fallen (d : Dice) (faces : List Number) :
    (d.fallen faces).map Die.face = faces := by
  cases faces with
  | nil => rfl
  | cons first more => simp [fallen, Function.comp_def]

end Dice

end TabletopDice
