import TabletopDice.Rolling.Throw
import TabletopDice.Selection.Apply

/-!
# Rolling and evaluating

A run is what becomes of a computation that rolls dice: its value, unless the source ran out before
there was one, the state in which it leaves the source, and the record of what happened up to
there. Computations follow one another (`Rolling`), and the record of the whole is the record of the
first followed by that of the second.

`Source.roll` rolls a dice term. Its dice are thrown one after the other, each until it has settled;
then the selection, if there is one, is applied to everything on the table. `Source.evaluate`
evaluates an expression, the left operand always before the right one, so the dice of the outcome
stand in the order in which they were rolled.
-/

set_option autoImplicit false

namespace TabletopDice

/-- What became of a computation that rolls dice. -/
structure Run (σ α : Type) where
  /-- The value, unless the source ran out. -/
  value? : Option α
  /-- Where the source stands. -/
  state : σ
  /-- What happened, oldest first. -/
  log : List Record

/-- A computation that rolls dice. -/
def Rolling (σ α : Type) : Type := σ → Run σ α

namespace Rolling

variable {σ α β : Type}

/-- Rolls nothing and answers with a value. -/
protected def pure (a : α) : Rolling σ α := fun s => ⟨some a, s, []⟩

/-- Goes on with a computation that may depend on the value of the first one. -/
protected def bind (m : Rolling σ α) (f : α → Rolling σ β) : Rolling σ β := fun s =>
  match m s with
  | ⟨none, t, log⟩ => ⟨none, t, log⟩
  | ⟨some a, t, log⟩ => let next := f a t; ⟨next.value?, next.state, log ++ next.log⟩

instance : Monad (Rolling σ) where
  pure := Rolling.pure
  bind := Rolling.bind

/-- Adds to the record. -/
def record (entries : List Record) : Rolling σ Unit := fun s => ⟨some (), s, entries⟩

/-! ### What one computation after another comes to -/

@[simp] theorem pure_apply (a : α) (s : σ) : (pure a : Rolling σ α) s = ⟨some a, s, []⟩ := rfl

@[simp] theorem record_apply (entries : List Record) (s : σ) :
    record entries s = ⟨some (), s, entries⟩ := rfl

theorem value?_bind (m : Rolling σ α) (f : α → Rolling σ β) (s : σ) :
    ((m >>= f) s).value? = (m s).value?.bind fun a => (f a (m s).state).value? := by
  show (Rolling.bind m f s).value? = _
  simp only [Rolling.bind]
  rcases m s with ⟨_ | a, t, log⟩ <;> rfl

theorem state_bind (m : Rolling σ α) (f : α → Rolling σ β) (s : σ) :
    ((m >>= f) s).state =
      (m s).value?.elim (m s).state fun a => (f a (m s).state).state := by
  show (Rolling.bind m f s).state = _
  simp only [Rolling.bind]
  rcases m s with ⟨_ | a, t, log⟩ <;> rfl

theorem log_bind (m : Rolling σ α) (f : α → Rolling σ β) (s : σ) :
    ((m >>= f) s).log =
      (m s).log ++ (m s).value?.elim [] fun a => (f a (m s).state).log := by
  show (Rolling.bind m f s).log = _
  simp only [Rolling.bind]
  rcases m s with ⟨_ | a, t, log⟩ <;> simp

end Rolling

/-- What an expression came to. -/
@[ext]
structure Outcome where
  /-- All dice that were rolled, in order, discarded ones among the rest. -/
  dice : List Die
  /-- The value of the expression. -/
  result : Number
deriving DecidableEq

namespace Outcome

/-- The dice, no more of them than a limit allows, and the result. -/
def description (limit : Option Nat) (o : Outcome) : Text :=
  Die.listText limit o.dice ++ " = ".toList ++ o.result.text

instance : ToString Outcome := ⟨fun o => String.ofList (o.description none)⟩

end Outcome

namespace Dice

/-- The dice on the table once a term has been thrown, with the marks of its selection. -/
def settle (d : Dice) (groups : List (List Number)) : Roll :=
  let dice := groups.flatMap d.fallen
  { term := d, dice := d.select.elim dice (·.apply dice) }

/-- The record of what follows the last throw of a term. -/
def closing (d : Dice) (r : Roll) : List Record :=
  (d.select.map fun s => .selected s r.dice.length).toList ++ [.finished r]

end Dice

namespace Source

variable {σ : Type}

/-- Throws all dice of a term. -/
def throwAll (src : Source σ) (d : Dice) : Rolling σ (List (List Number)) := fun s =>
  let thrown := src.throws d d.count.toNat s
  ⟨if thrown.settled then some thrown.groups else none, thrown.state,
    thrown.groups.flatMap d.recorded⟩

/-- Rolls a dice term. -/
def roll (src : Source σ) (d : Dice) : Rolling σ Roll := do
  let groups ← src.throwAll d
  let rolled := d.settle groups
  Rolling.record (d.closing rolled)
  pure rolled

/-- Records the value of a part of an expression. -/
def conclude (part : Expr) (o : Outcome) : Rolling σ Outcome := do
  Rolling.record [.evaluated part o.result]
  pure o

/-- Evaluates an expression. -/
def evaluate (src : Source σ) : Expr → Rolling σ Outcome
  | .number n => conclude (.number n) { dice := [], result := n }
  | .dice d => do
    let rolled ← src.roll d
    conclude (.dice d) { dice := rolled.dice, result := rolled.total }
  | .join o left right => do
    let a ← src.evaluate left
    let b ← src.evaluate right
    conclude (.join o left right) { dice := a.dice ++ b.dice, result := o.apply a.result b.result }

end Source

end TabletopDice
