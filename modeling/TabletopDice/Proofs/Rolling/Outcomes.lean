import TabletopDice.Proofs.Rolling.Completion

/-!
# The outcomes of a dice term

What can lie on the table after a dice term has been rolled, said about the dice alone: before the
selection they fall into one group for each die of the term, and each group is of one of three kinds
(`Dice.Legal`). Any such dice are the outcome of some sequence of faces and nothing else is.

The three kinds are separate because the two modifiers do not mix. A die that stands in for a
rerolled one is looked at by neither of them, and a die that an explosion brought with it is not
rolled once more.
-/

set_option autoImplicit false

namespace TabletopDice

/-- There is a condition, and the face meets it. -/
def Meets (condition : Option Condition) (face : Number) : Prop :=
  ∃ c, condition = some c ∧ c.holds face = true

namespace Dice

theorem meets_reroll (d : Dice) (face : Number) : Meets d.reroll face ↔ d.rerolls face = true := by
  cases reroll : d.reroll <;> simp [Meets, rerolls, reroll]

theorem meets_explode (d : Dice) (face : Number) :
    Meets d.explode face ↔ d.explodes face = true := by
  cases explode : d.explode <;> simp [Meets, explodes, explode]

/-- What one die of a term leaves on the table, before the selection. -/
inductive Legal (d : Dice) : List Die → Prop
  /-- A face that is rolled once more, and any other one in its place. -/
  | rerolled {first again : Number} (meets : Meets d.reroll first) :
      Legal d [{ face := first, sides := d.sides, discarded := true },
        { face := again, sides := d.sides, discarded := false }]
  /-- Exploding faces, as many as there are, and the one that ends them. -/
  | exploded {first last : Number} {more : List Number} (stands : ¬ Meets d.reroll first)
      (meets : Meets d.explode first) (chain : ∀ face ∈ more, Meets d.explode face)
      (calm : ¬ Meets d.explode last) :
      Legal d ((first :: (more ++ [last])).map fun face =>
        { face, sides := d.sides, discarded := false })
  /-- A face that neither condition asks anything of. -/
  | single {face : Number} (stands : ¬ Meets d.reroll face) (calm : ¬ Meets d.explode face) :
      Legal d [{ face, sides := d.sides, discarded := false }]

/-- The groups of the three kinds are what settled dice leave. -/
theorem legal_iff (d : Dice) (group : List Die) :
    d.Legal group ↔ ∃ faces, d.Settled faces ∧ group = d.fallen faces := by
  constructor
  · intro legal
    cases legal with
    | @rerolled first again meets =>
      rw [meets_reroll] at meets
      exact ⟨[first, again], by simp [Settled, meets], by simp [fallen, meets]⟩
    | @exploded first last more stands meets chain calm =>
      simp only [meets_reroll, meets_explode, Bool.not_eq_true] at stands meets chain calm
      have ends : d.Chain (first :: (more ++ [last])) :=
        (d.chain_iff _).2 ⟨first :: more, last, rfl, List.forall_mem_cons.2 ⟨meets, chain⟩, calm⟩
      exact ⟨first :: (more ++ [last]), by simpa [Settled, stands] using ends,
        by simp [fallen, stands]⟩
    | @single face stands calm =>
      simp only [meets_reroll, meets_explode, Bool.not_eq_true] at stands calm
      exact ⟨[face], by simp [Settled, Chain, stands, calm], by simp [fallen, stands]⟩
  · rintro ⟨faces, settled, rfl⟩
    cases faces with
    | nil => exact absurd settled (by simp [Settled])
    | cons first rest =>
      cases again : d.rerolls first with
      | true =>
        obtain ⟨replacement, rfl⟩ : ∃ w, rest = [w] := by simpa [Settled, again] using settled
        have meets := (d.meets_reroll first).2 again
        have legal : d.Legal [_, ⟨replacement, d.sides, false⟩] := .rerolled meets
        simpa [fallen, again] using legal
      | false =>
        have stands : ¬ Meets d.reroll first := by simp [meets_reroll, again]
        have ends : d.Chain (first :: rest) := by simpa [Settled, again] using settled
        obtain ⟨more, last, same, all, calm⟩ := (d.chain_iff _).1 ends
        replace calm : ¬ Meets d.explode last := by simp [meets_explode, calm]
        cases more with
        | nil =>
          obtain ⟨rfl, rfl⟩ := List.cons.inj same
          simpa [fallen, again] using Legal.single stands calm
        | cons _ more =>
          obtain ⟨rfl, rfl⟩ := List.cons.inj same
          simp only [← meets_explode, List.forall_mem_cons] at all
          simpa [fallen, again] using Legal.exploded stands all.1 all.2 calm

/-- Groups of the three kinds are what so many settled dice leave. -/
theorem forall_legal_iff (d : Dice) (groups : List (List Die)) :
    (∀ group ∈ groups, d.Legal group) ↔
      ∃ thrown : List (List Number), (∀ faces ∈ thrown, d.Settled faces) ∧
        groups = thrown.map d.fallen := by
  induction groups with
  | nil => simp
  | cons group groups ih =>
    rw [List.forall_mem_cons, ih, legal_iff]
    constructor
    · rintro ⟨⟨faces, settled, rfl⟩, thrown, all, rfl⟩
      exact ⟨faces :: thrown, List.forall_mem_cons.2 ⟨settled, all⟩, rfl⟩
    · rintro ⟨thrown, all, same⟩
      cases thrown with
      | nil => exact absurd same (by simp)
      | cons faces thrown =>
        obtain ⟨rfl, rfl⟩ := List.cons.inj same
        obtain ⟨settled, all⟩ := List.forall_mem_cons.1 all
        exact ⟨⟨faces, settled, rfl⟩, thrown, all, rfl⟩

/-- Dice are rolled by some sequence of faces, with none of them left over, if and only if they are
the dice of as many legal groups as the term has dice, with the marks of its selection. -/
theorem exists_roll_iff_legal (d : Dice) (dice : List Die) :
    (∃ faces r, (Source.ofList.roll d).Completes faces r [] ∧ r.dice = dice) ↔
      ∃ groups : List (List Die), groups.length = d.count.toNat ∧
        (∀ group ∈ groups, d.Legal group) ∧
        dice = d.select.elim groups.flatten fun k => k.apply groups.flatten := by
  simp only [Source.completes_roll_iff, Source.draws_ofList]
  constructor
  · rintro ⟨faces, r, ⟨⟨thrown, length, settled, rfl⟩, -⟩, rfl⟩
    refine ⟨thrown.map d.fallen, by simpa using length, ?_, rfl⟩
    exact (d.forall_legal_iff _).2 ⟨thrown, settled, rfl⟩
  · rintro ⟨groups, length, legal, rfl⟩
    obtain ⟨thrown, settled, rfl⟩ := (d.forall_legal_iff groups).1 legal
    have allowed : d.Allows (d.settle thrown) :=
      ⟨thrown, by simpa using length, settled, rfl⟩
    exact ⟨_, d.settle thrown, ⟨allowed, (List.append_nil _).symm⟩, rfl⟩

end Dice

end TabletopDice
