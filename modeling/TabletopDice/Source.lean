import TabletopDice.Number

/-!
# Where faces come from

A source is asked for the face of a die with so many sides and answers from its state, or has
nothing more to give. Everything that rolls dice is written for an arbitrary source, so that a
statement about rolling covers a list of faces noted down at the table just as well as a generator
of random ones.

A die may bring another die with it, for as long as the source keeps giving the right faces. For
rolling to be a function at all, a source therefore has to say how many faces it has left to give
(`Source.supply`), and each face it gives lowers that number. A list counts its entries. A source
that could go on forever is given an allowance (`Source.limited`): whatever it does within some
allowance, it does within every larger one, and a roll that needs no more than `n` dice cannot tell
an allowance of `n` from an endless supply.
-/

set_option autoImplicit false

namespace TabletopDice

/-- A supply of faces. -/
structure Source (σ : Type) where
  /-- The face of a die with so many sides, and the state afterwards. -/
  draw : σ → (sides : Number) → Option (Number × σ)
  /-- No more faces than this are left to draw. -/
  supply : σ → Nat
  /-- A face drawn is one face less to draw. -/
  supply_draw : ∀ {s t : σ} {sides face : Number},
    draw s sides = some (face, t) → supply t < supply s

namespace Source

/-- Faces from a list, in order, whatever die they are asked for. -/
def ofList : Source (List Number) where
  draw faces _ :=
    match faces with
    | [] => none
    | face :: rest => some (face, rest)
  supply := List.length
  supply_draw {s t sides face} h := by
    cases s with
    | nil => cases h
    | cons a s => cases h; exact Nat.lt_succ_self _

/-- Faces from something that always has another one, as many as an allowance permits. -/
def limited {σ : Type} (next : σ → (sides : Number) → Number × σ) : Source (Nat × σ) where
  draw s sides :=
    match s with
    | (0, _) => none
    | (allowance + 1, state) =>
      let (face, after) := next state sides
      some (face, (allowance, after))
  supply := Prod.fst
  supply_draw {s t sides face} h := by
    obtain ⟨_ | allowance, state⟩ := s
    · cases h
    · cases h; exact Nat.lt_succ_self _

/-- One face for every die, whatever its sides. -/
def constant (face : Number) : Source (Nat × Unit) := limited fun _ _ => (face, ())

/-- For every die the number of its sides. -/
def highest : Source (Nat × Unit) := limited fun _ sides => (sides, ())

@[simp] theorem draw_ofList_nil (sides : Number) : ofList.draw [] sides = none := rfl

@[simp] theorem draw_ofList_cons (face : Number) (rest : List Number) (sides : Number) :
    ofList.draw (face :: rest) sides = some (face, rest) := rfl

end Source

end TabletopDice
