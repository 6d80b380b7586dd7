import TabletopDice.Number

/-!
# Selections: which dice count

`kh3`, `kl1`, `dh2`, `dl1`: a selection takes so many dice from the high or from the low end of
what was rolled, and either keeps those and nothing else, or drops those and nothing else. The two
choices are independent of each other, and so they are two fields here instead of four kinds: every
statement about keeping has a twin about dropping, and every statement about the highest dice one
about the lowest.

This file has the selection as a thing that is written down. What it does to dice on the table is in
`TabletopDice.Selection.Apply`.
-/

set_option autoImplicit false

namespace TabletopDice

/-- What happens to the dice that a selection takes. -/
inductive Effect where
  /-- They are kept, and all others are discarded. -/
  | keep
  /-- They are discarded, and all others are left as they are. -/
  | drop
deriving DecidableEq

/-- The end of the range that a selection takes its dice from. -/
inductive End where
  | highest
  | lowest
deriving DecidableEq

/-- The letter that stands for an effect. -/
def Effect.letter : Effect → Char
  | .keep => 'k'
  | .drop => 'd'

/-- The letter that stands for an end. -/
def End.letter : End → Char
  | .highest => 'h'
  | .lowest => 'l'

/-- Takes a number of dice from one end, to keep or to drop them. -/
@[ext]
structure Selection where
  /-- What happens to the dice taken. -/
  effect : Effect
  /-- Where they are taken from. -/
  fromEnd : End
  /-- How many are meant to be taken. Fewer than one means none. -/
  count : Number
deriving DecidableEq

namespace Selection

/-- The letters in front of the count. -/
def symbol (effect : Effect) (fromEnd : End) : Text := [effect.letter, fromEnd.letter]

/-- The written form of a selection. -/
def text (s : Selection) : Text := symbol s.effect s.fromEnd ++ s.count.text

instance : ToString Selection := ⟨fun s => String.ofList s.text⟩

/-- Every pair of letters that a selection can begin with, in the order in which a reader tries
them. No one of them begins with another, so the order shows in diagnostics alone. -/
def kinds : List (Effect × End) :=
  [(.keep, .highest), (.keep, .lowest), (.drop, .highest), (.drop, .lowest)]

theorem mem_kinds (effect : Effect) (fromEnd : End) : (effect, fromEnd) ∈ kinds := by
  cases effect <;> cases fromEnd <;> decide

/-- The number of dice that the selection takes where there are enough. -/
def quota (s : Selection) : Nat := s.count.toInt.toNat

end Selection

end TabletopDice
