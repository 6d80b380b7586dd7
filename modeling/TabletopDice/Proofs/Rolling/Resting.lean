import TabletopDice.Proofs.Rolling.Stopping

/-!
# Dice that come to rest

Something that always has another face can keep a die rolling, and with an allowance the roll is cut
short instead. Whether any allowance is enough is a question about single dice: if a die of each term
comes to rest wherever the supply stands (`Source.Rests`), then so do the handfuls that the terms
roll and all the terms of an expression, one after the other. The allowance that is needed is the
number of dice that end up on the table, and every larger one serves as well
(`Source.exists_completes_limited`).

Without explosions there is nothing to show of the supply: a die is rolled at most once more.
-/

set_option autoImplicit false

namespace TabletopDice

namespace Dice

/-- Without explosions a die takes one face, or two if it is rolled once more. -/
theorem settled_cons_of_calm {d : Dice} (calm : d.explode = none) {first : Number}
    {more : List Number} :
    d.Settled (first :: more) ↔ if d.rerolls first then ∃ again, more = [again] else more = [] := by
  cases again : d.rerolls first <;> simp [Settled, Chain, again, explodes, calm]

end Dice

namespace Source

variable {σ : Type}

/-- Wherever the supply stands, it gives the faces that bring a die of the term to rest. -/
def Rests (next : σ → (sides : Number) → Number × σ) (d : Dice) : Prop :=
  ∀ s, ∃ faces t, d.Settled faces ∧ (limited next).Draws (faces.length, s) (d.showing faces) (0, t)

variable {next : σ → (sides : Number) → Number × σ}

/-- With an allowance of one more, the next face is drawn first. -/
theorem draws_limited_succ {d : Dice} {face : Number} {more : List Number} {n : Nat} {s t u : σ}
    (drawn : next s d.sides = (face, u)) (rest : (limited next).Draws (n, u) (d.showing more) (0, t)) :
    (limited next).Draws (n + 1, s) (d.showing (face :: more)) (0, t) :=
  ⟨(n, u), by simp [limited, drawn], rest⟩

theorem rests_of_calm (next : σ → (sides : Number) → Number × σ) {d : Dice}
    (calm : d.explode = none) : Rests next d := by
  intro s
  let first := next s d.sides
  let second := next first.2 d.sides
  cases again : d.rerolls first.1 with
  | false =>
    have settled : d.Settled [first.1] := (Dice.settled_cons_of_calm calm).2 (by simp [again])
    exact ⟨[first.1], first.2, settled, draws_limited_succ rfl rfl⟩
  | true =>
    have settled : d.Settled [first.1, second.1] :=
      (Dice.settled_cons_of_calm calm).2 (by simp [again])
    exact ⟨_, second.2, settled, draws_limited_succ rfl (draws_limited_succ rfl rfl)⟩

/-- As many dice as are wanted come to rest one after the other. -/
theorem exists_groups_of_rests {d : Dice} (n : Nat) (rests : 0 < n → Rests next d) (s : σ) :
    ∃ (groups : List (List Number)) (t : σ), groups.length = n ∧
      (∀ faces ∈ groups, d.Settled faces) ∧
        (limited next).Draws (groups.flatten.length, s) (d.showing groups.flatten) (0, t) := by
  induction n generalizing s with
  | zero => exact ⟨[], s, rfl, by simp, rfl⟩
  | succ n ih =>
    have eachRests := rests (Nat.succ_pos n)
    obtain ⟨faces, t, settled, first⟩ := eachRests s
    obtain ⟨groups, u, length, others, rest⟩ := ih (fun _ => eachRests) t
    refine ⟨faces :: groups, u, by simp [length], List.forall_mem_cons.2 ⟨settled, others⟩, ?_⟩
    rw [List.flatten_cons, List.length_append, Dice.showing_append]
    exact draws_limited_append first rest

theorem exists_allows_of_rests {e : Expr}
    (rests : ∀ d ∈ e.terms, 0 < d.count.toNat → Rests next d) (s : σ) :
    ∃ o t, e.Allows o ∧ (limited next).Draws (o.dice.length, s) o.dice (0, t) := by
  induction e generalizing s with
  | number n => exact ⟨_, s, .number n, rfl⟩
  | dice d =>
    obtain ⟨groups, t, length, settled, draws⟩ :=
      exists_groups_of_rests d.count.toNat (rests d (by simp [Expr.terms])) s
    refine ⟨_, t, Expr.allows_dice_iff.2 ⟨groups, length, settled, rfl⟩, ?_⟩
    rw [d.length_dice_settle groups]
    exact draws_settle.2 draws
  | join o left right ihl ihr =>
    obtain ⟨restsLeft, restsRight⟩ := List.forall_mem_append.1 rests
    obtain ⟨a, t, first, before⟩ := ihl restsLeft s
    obtain ⟨b, u, second, after⟩ := ihr restsRight t
    refine ⟨_, u, .join first second, ?_⟩
    rw [List.length_append]
    exact draws_limited_append before after

/-- If the dice of every term come to rest, an expression has an outcome, with an allowance for its
dice and with every larger one. -/
theorem exists_completes_limited {e : Expr}
    (rests : ∀ d ∈ e.terms, 0 < d.count.toNat → Rests next d) (s : σ) :
    ∃ o t, ∀ more, ((limited next).evaluate e).Completes (o.dice.length + more, s) o (more, t) := by
  obtain ⟨o, t, allowed, draws⟩ := exists_allows_of_rests rests s
  refine ⟨o, t, fun more => ?_⟩
  have done := (completes_evaluate_iff _).2 ⟨allowed, draws⟩
  simpa using completes_evaluate_limited_add more done

end Source

end TabletopDice
