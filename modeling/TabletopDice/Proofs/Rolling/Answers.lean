import TabletopDice.Proofs.Rolling.Consumption

/-!
# Answers that the dice could have given

A list will name any face for any die. Questions such as whether a roll can come to an end are about
faces that the dice have: between 1 and the number of sides, or 0 on a die without sides
(`Die.CanShow`). `Source.answers` reads a list up to the first face that is not one of them and has
nothing to give from there on. So a run that leaves nothing of the list behind has been given
nothing but faces of the dice it asked for.

For conditions this is the right notion of a face: `Condition.alwaysHolds`, which looks at the ends
of the range, tells whether all faces of a die meet the condition (`alwaysHolds_iff`).
-/

set_option autoImplicit false

namespace TabletopDice

/-- Whether a die with so many sides has the face. A die without sides shows nothing but 0. -/
def Die.CanShow (sides face : Number) : Prop :=
  if sides < 1 then face = 0 else 1 ≤ face ∧ face ≤ sides

instance (sides face : Number) : Decidable (Die.CanShow sides face) :=
  inferInstanceAs (Decidable (if sides < 1 then face = 0 else 1 ≤ face ∧ face ≤ sides))

theorem Die.exists_canShow (sides : Number) : ∃ face, Die.CanShow sides face := by
  unfold CanShow
  split
  · exact ⟨0, rfl⟩
  · rename_i real
    exact ⟨1, Int.le_refl 1, Number.not_lt.1 real⟩

theorem Condition.alwaysHolds_iff {c : Condition} {sides : Number} :
    c.alwaysHolds sides = true ↔ ∀ face, Die.CanShow sides face → c.holds face = true := by
  by_cases sideless : sides < 1
  · simp [alwaysHolds, Die.CanShow, sideless]
  · constructor
    · intro always face shown
      rw [Die.CanShow, if_neg sideless] at shown
      exact holds_of_alwaysHolds always shown.1 shown.2
    · intro all
      simp only [Die.CanShow, if_neg sideless] at all
      have real : 1 ≤ sides := Number.not_lt.1 sideless
      rw [alwaysHolds, if_neg sideless, all 1 ⟨Int.le_refl _, real⟩,
        all sides ⟨real, Int.le_refl _⟩]
      rfl

theorem Condition.any_alwaysHolds_iff {condition : Option Condition} {sides : Number} :
    condition.any (·.alwaysHolds sides) = true ↔
      ∀ face, Die.CanShow sides face → condition.any (·.holds face) = true := by
  cases condition with
  | some c => exact alwaysHolds_iff
  | none =>
    obtain ⟨face, shown⟩ := Die.exists_canShow sides
    simpa using ⟨face, shown⟩

namespace Source

variable {σ : Type}

/-- The source, up to the first face that the die asked for does not have. -/
def honest (src : Source σ) : Source σ where
  draw s sides := (src.draw s sides).filter fun next => decide (Die.CanShow sides next.1)
  supply := src.supply
  supply_draw h := src.supply_draw (Option.filter_eq_some_iff.1 h).1

theorem draw_honest {src : Source σ} {s t : σ} {sides face : Number} :
    src.honest.draw s sides = some (face, t) ↔
      src.draw s sides = some (face, t) ∧ Die.CanShow sides face := by
  simp [honest, Option.filter_eq_some_iff]

theorem draws_honest {src : Source σ} {s t : σ} {dice : List Die} :
    src.honest.Draws s dice t ↔
      src.Draws s dice t ∧ ∀ die ∈ dice, Die.CanShow die.sides die.face := by
  induction dice generalizing s with
  | nil => simp
  | cons die dice ih =>
    simp only [draws_cons, draw_honest, ih, List.forall_mem_cons]
    constructor
    · rintro ⟨u, ⟨first, shown⟩, rest, all⟩
      exact ⟨⟨u, first, rest⟩, shown, all⟩
    · rintro ⟨⟨u, first, rest⟩, shown, all⟩
      exact ⟨u, ⟨first, shown⟩, rest, all⟩

/-- The runs of the source that have shown no other faces are completed as they were. -/
theorem completes_honest_iff {src : Source σ} {e : Expr} {s t : σ} {o : Outcome} :
    (src.honest.evaluate e).Completes s o t ↔
      (src.evaluate e).Completes s o t ∧ ∀ die ∈ o.dice, Die.CanShow die.sides die.face := by
  rw [completes_evaluate_iff, completes_evaluate_iff, draws_honest, and_assoc]

/-- Faces from a list, in order, for as long as the dice that are asked for have them. -/
def answers : Source (List Number) := ofList.honest

theorem draws_answers {faces rest : List Number} {dice : List Die} :
    answers.Draws faces dice rest ↔
      faces = dice.map Die.face ++ rest ∧ ∀ die ∈ dice, Die.CanShow die.sides die.face := by
  rw [answers, draws_honest, draws_ofList]

theorem draws_answers_showing {faces rest shown : List Number} {d : Dice} :
    answers.Draws faces (d.showing shown) rest ↔
      faces = shown ++ rest ∧ ∀ face ∈ shown, Die.CanShow d.sides face := by
  rw [draws_answers, Dice.map_face_showing, Dice.showing, List.forall_mem_map]

theorem completes_answers_iff {e : Expr} {faces rest : List Number} {o : Outcome} :
    (answers.evaluate e).Completes faces o rest ↔
      e.Allows o ∧ faces = o.dice.map Die.face ++ rest ∧
        ∀ die ∈ o.dice, Die.CanShow die.sides die.face := by
  rw [completes_evaluate_iff, draws_answers]

theorem completes_answers_append {e : Expr} {faces rest : List Number} {o : Outcome}
    (done : (answers.evaluate e).Completes faces o rest) (more : List Number) :
    (answers.evaluate e).Completes (faces ++ more) o (rest ++ more) := by
  obtain ⟨taken, shown⟩ := completes_honest_iff.1 done
  exact completes_honest_iff.2 ⟨completes_evaluate_ofList_append taken more, shown⟩

/-- What was left over need not have been there. -/
theorem completes_answers_trim {e : Expr} {faces rest : List Number} {o : Outcome}
    (done : (answers.evaluate e).Completes faces o rest) :
    (answers.evaluate e).Completes (o.dice.map Die.face) o [] := by
  rw [completes_answers_iff] at done ⊢
  exact ⟨done.1, (List.append_nil _).symm, done.2.2⟩

/-- Before the first answer an evaluation either has its outcome already or asks for a face. -/
theorem completes_or_runsOut_nil (e : Expr) :
    (∃ o, (answers.evaluate e).Completes [] o []) ∨ (answers.evaluate e).RunsOut [] [] := by
  obtain ⟨o, rest, done⟩ | ⟨rest, out⟩ := (answers.evaluate e).completes_or_runsOut []
  · obtain ⟨-, taken, -⟩ := completes_answers_iff.1 done
    obtain ⟨-, rfl⟩ := List.append_eq_nil_iff.1 taken.symm
    exact .inl ⟨o, done⟩
  · obtain ⟨dice, _, draws, _⟩ := exists_draws_of_runsOut out
    obtain ⟨-, rfl⟩ := List.append_eq_nil_iff.1 (draws_answers.1 draws).1.symm
    exact .inr out

end Source

end TabletopDice
