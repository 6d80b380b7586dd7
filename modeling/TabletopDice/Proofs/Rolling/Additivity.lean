import TabletopDice.Proofs.Rolling.Exhaustion
import TabletopDice.Proofs.Totals.Rolls

/-!
# Dice rolled in two goes

Dice are thrown one after the other, and none of them knows of those before it. All that a die
leaves to the next one is the state of the source. So a handful of dice can be rolled in two goes,
the second one from where the first one has left the source, and nothing is different: not the
faces, not which dice are rolled once more or bring others with them, and not where the source
stands in the end (`Source.completes_roll_add_iff`).

A selection would see the difference, because it looks at all dice of a term together. And so would
a sum of faces of both signs, since what one part has too much is cut off before the other part can
make up for it (`Roll.total_append`).
-/

set_option autoImplicit false

namespace TabletopDice

namespace Dice

variable {d : Dice}

/-- How many dice there are is of no importance to one of them. -/
theorem settled_count (n : Count) (faces : List Number) :
    Settled { d with count := n } faces ↔ d.Settled faces := by
  cases faces with
  | nil => exact Iff.rfl
  | cons first more =>
    have chain := (chain_iff { d with count := n } (first :: more)).trans (d.chain_iff _).symm
    simp only [Settled, chain]
    exact Iff.rfl

theorem fallen_count (n : Count) : fallen { d with count := n } = d.fallen := by
  funext faces
  cases faces <;> rfl

theorem settle_count (all : d.select = none) (n : Count) (groups : List (List Number)) :
    settle { d with count := n } groups = ⟨{ d with count := n }, groups.flatMap d.fallen⟩ := by
  unfold settle
  rw [fallen_count, all]
  rfl

/-- The rolls of so many dice of a term, where all dice count. -/
theorem allows_count_iff (all : d.select = none) {n : Count} {r : Roll} :
    Allows { d with count := n } r ↔
      ∃ groups : List (List Number), groups.length = n.toNat ∧
        (∀ faces ∈ groups, d.Settled faces) ∧
          r = ⟨{ d with count := n }, groups.flatMap d.fallen⟩ := by
  simp only [Allows, settled_count, settle_count all]

theorem allows_add_iff (all : d.select = none) {a b c : Count}
    (sum : c.toNat = a.toNat + b.toNat) {r : Roll} :
    Allows { d with count := c } r ↔
      ∃ p q, Allows { d with count := a } p ∧ Allows { d with count := b } q ∧
        r = ⟨{ d with count := c }, p.dice ++ q.dice⟩ := by
  simp only [allows_count_iff all]
  constructor
  · rintro ⟨groups, length, settled, rfl⟩
    have cut : groups.take a.toNat ++ groups.drop a.toNat = groups := List.take_append_drop _ _
    rw [← cut] at settled
    obtain ⟨first, second⟩ := List.forall_mem_append.1 settled
    refine ⟨_, _, ⟨groups.take a.toNat, ?_, first, rfl⟩,
      ⟨groups.drop a.toNat, ?_, second, rfl⟩, ?_⟩
    · rw [List.length_take]
      omega
    · rw [List.length_drop]
      omega
    · rw [← List.flatMap_append, cut]
  · rintro ⟨_, _, ⟨first, lengthFirst, settledFirst, rfl⟩,
      ⟨second, lengthSecond, settledSecond, rfl⟩, rfl⟩
    refine ⟨first ++ second, ?_, List.forall_mem_append.2 ⟨settledFirst, settledSecond⟩, ?_⟩
    · rw [List.length_append, lengthFirst, lengthSecond, sum]
    · rw [List.flatMap_append]

end Dice

namespace Source

variable {σ : Type} (src : Source σ)

/-- Rolling some dice and then others is rolling all of them. -/
theorem completes_roll_add_iff {d : Dice} (all : d.select = none) {a b c : Count}
    (sum : c.toNat = a.toNat + b.toNat) {s t : σ} {r : Roll} :
    (src.roll { d with count := c }).Completes s r t ↔
      ∃ p u q, (src.roll { d with count := a }).Completes s p u ∧
        (src.roll { d with count := b }).Completes u q t ∧
          r = ⟨{ d with count := c }, p.dice ++ q.dice⟩ := by
  simp only [completes_roll_iff, Dice.allows_add_iff all sum]
  constructor
  · rintro ⟨⟨p, q, first, second, rfl⟩, draws⟩
    obtain ⟨u, before, after⟩ := (src.draws_append _ _ _ _).1 draws
    exact ⟨p, u, q, ⟨first, before⟩, ⟨second, after⟩, rfl⟩
  · rintro ⟨p, u, q, ⟨first, before⟩, ⟨second, after⟩, rfl⟩
    exact ⟨⟨p, q, first, second, rfl⟩, (src.draws_append _ _ _ _).2 ⟨u, before, after⟩⟩

/-- **Rolling is additive in the number of dice**, as long as all of them count: a roll comes to its
end if two rolls of the parts do so one after the other, it leaves their dice, and it leaves the
source where they leave it. Its total is the sum of theirs, if successes are counted or no face is
below zero. -/
theorem roll_add (src : Source σ) (d : Dice) (a b c : Count) (sum : c.toNat = a.toNat + b.toNat)
    (all : d.select = none) (s : σ) :
    (∀ r t, (src.roll { d with count := c }).Completes s r t ↔
        ∃ p u q, (src.roll { d with count := a }).Completes s p u ∧
          (src.roll { d with count := b }).Completes u q t ∧
            r = ⟨{ d with count := c }, p.dice ++ q.dice⟩) ∧
      ∀ r t p u q v, (src.roll { d with count := c }).Completes s r t →
        (src.roll { d with count := a }).Completes s p u →
          (src.roll { d with count := b }).Completes u q v →
            (d.successes = none → ∀ die ∈ Die.kept r.dice, 0 ≤ die.face.toInt) →
              r.total = Operator.plus.apply p.total q.total := by
  refine ⟨fun r t => src.completes_roll_add_iff all sum, ?_⟩
  intro r t p u q v whole first second real
  obtain ⟨_, _, _, before, after, rfl⟩ := (src.completes_roll_add_iff all sum).1 whole
  obtain ⟨rfl, rfl⟩ := first.unique before
  obtain ⟨rfl, -⟩ := second.unique after
  have termFirst := (src.completes_roll_iff.1 first).1.term
  have termSecond := (src.completes_roll_iff.1 second).1.term
  refine Roll.total_append rfl (by rw [termFirst]) (by rw [termSecond]) fun adds => .inl ?_
  intro face mem
  obtain ⟨die, kept, rfl⟩ := List.mem_map.1 mem
  exact real adds die kept

/-- Dice that are rolled once more for a one, and bring another with them for a six. -/
def lively : Dice :=
  { count := 1, sides := Number.clamp 6, reroll := some ⟨.equal, 1⟩,
    explode := some ⟨.equal, Number.clamp 6⟩ }

/-- One of them explodes twice. -/
def firstGo : Roll := Roll.ofFaces lively ([6, 6, 2].map Number.clamp)

/-- The other one is rolled once more. -/
def secondGo : Roll :=
  { term := lively, dice := [⟨1, Number.clamp 6, true⟩, ⟨Number.clamp 5, Number.clamp 6, false⟩] }

/-- Both of them, from five faces. -/
theorem roll_add_lively :
    ∃ r, (ofList.roll { lively with count := ⟨2, by decide⟩ }).Completes
        ([6, 6, 2, 1, 5].map Number.clamp) r [] ∧
      r.dice = firstGo.dice ++ secondGo.dice ∧
        r.total = Operator.plus.apply firstGo.total secondGo.total ∧ r.total.toInt = 19 := by
  obtain ⟨split, adds⟩ :=
    roll_add ofList lively 1 1 ⟨2, by decide⟩ rfl rfl ([6, 6, 2, 1, 5].map Number.clamp)
  have first : (ofList.roll { lively with count := 1 }).Completes
      ([6, 6, 2, 1, 5].map Number.clamp) firstGo ([1, 5].map Number.clamp) :=
    ⟨by cbv, by cbv⟩
  have second : (ofList.roll { lively with count := 1 }).Completes
      ([1, 5].map Number.clamp) secondGo [] :=
    ⟨by cbv, by cbv⟩
  have whole := (split _ _).2 ⟨_, _, _, first, second, rfl⟩
  refine ⟨_, whole, rfl, adds _ _ _ _ _ _ whole first second ?_, by decide⟩
  intro _
  decide

end Source

end TabletopDice
