import TabletopDice.Proofs.Rolling.Completion

/-!
# Replaying an outcome

The dice of an outcome are all that its source has contributed to it. So whatever rolled them, a
generator of random faces or a list noted down earlier, the faces as they are reported make the same
outcome once more, marks and all, and none of them is left over.
-/

set_option autoImplicit false

namespace TabletopDice

namespace Source

variable {σ : Type}

/-- The faces of an outcome are its replay. -/
theorem evaluate_replay (src : Source σ) (e : Expr) (s t : σ) (o : Outcome)
    (completed : (src.evaluate e).Completes s o t) :
    (ofList.evaluate e).Completes (o.dice.map Die.face) o [] := by
  obtain ⟨allowed, -⟩ := (src.completes_evaluate_iff).1 completed
  have draws : ofList.Draws (o.dice.map Die.face) o.dice [] :=
    (draws_ofList _ _ _).2 (List.append_nil _).symm
  exact (ofList.completes_evaluate_iff).2 ⟨allowed, draws⟩

/-- A source that counts: its next die shows one more than the one before. -/
def counting : Source (Nat × Nat) := limited fun n _ => (Number.clamp n, n + 1)

/-- Two dice, one of which is rolled once more and the other one explodes if the faces are one to
four. -/
def countedDice : Dice :=
  { count := ⟨2, by decide⟩, sides := Number.clamp 6, reroll := some ⟨.equal, 1⟩,
    explode := some ⟨.equal, Number.clamp 3⟩ }

/-- What the counted dice come to, less one. -/
def counted : Outcome :=
  { dice := [⟨1, countedDice.sides, true⟩, ⟨Number.clamp 2, countedDice.sides, false⟩,
      ⟨Number.clamp 3, countedDice.sides, false⟩, ⟨Number.clamp 4, countedDice.sides, false⟩]
    result := Number.clamp 8 }

theorem evaluate_replay_counted :
    (counting.evaluate (.join .minus (.dice countedDice) (.number 1))).Completes
        (4, 1) counted (0, 5) ∧
      (ofList.evaluate (.join .minus (.dice countedDice) (.number 1))).Completes
        [1, Number.clamp 2, Number.clamp 3, Number.clamp 4] counted [] := by
  have settled : ∀ faces ∈ [[1, Number.clamp 2], [Number.clamp 3, Number.clamp 4]],
      countedDice.Settled faces := by
    rw [List.forall_mem_cons, List.forall_mem_singleton]
    exact ⟨⟨Number.clamp 2, rfl⟩, rfl⟩
  have allowed : Expr.Allows (.join .minus (.dice countedDice) (.number 1)) counted :=
    .join (.dice ⟨_, rfl, settled, rfl⟩) (.number 1)
  have draws : counting.Draws (4, 1) counted.dice (0, 5) :=
    ⟨(3, 2), rfl, (2, 3), rfl, (1, 4), rfl, (0, 5), rfl, rfl⟩
  have completed := (counting.completes_evaluate_iff).2 ⟨allowed, draws⟩
  exact ⟨completed, evaluate_replay counting _ (4, 1) (0, 5) counted completed⟩

end Source

end TabletopDice
