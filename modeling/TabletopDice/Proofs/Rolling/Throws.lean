import TabletopDice.Proofs.Rolling.Drawing
import TabletopDice.Rolling.Throw

/-!
# When the dice of a term have settled

Which faces settle a die can be said without any source: a die that is rolled once more takes two
faces, whatever the second one is, and any other die takes faces up to the first one that does not
explode (`Dice.Settled`). What a source has to do with it is only whether it gives those faces.

`throw_eq_iff` and `throws_eq_iff` say just that of the two loops that draw: they end with settled
dice if and only if the faces settle them and the source gives the faces. The source may be of any
kind, and nothing more has to be known about the loops to reason about completed rolls.
-/

set_option autoImplicit false

namespace TabletopDice

namespace Dice

/-- All faces but the last one explode. -/
def Chain (d : Dice) : (faces : List Number) → Prop
  | [] => False
  | face :: more => if d.explodes face then Chain d more else more = []

/-- The faces are those of one die, from its first face to the last one that it needs. -/
def Settled (d : Dice) : (faces : List Number) → Prop
  | [] => False
  | first :: more =>
    if d.rerolls first then ∃ again, more = [again] else d.Chain (first :: more)

/-- Dice of a term that show given faces, without marks. -/
def showing (d : Dice) (faces : List Number) : List Die :=
  faces.map fun face => { face, sides := d.sides }

@[simp] theorem map_face_showing (d : Dice) (faces : List Number) :
    (d.showing faces).map Die.face = faces := by simp [showing, Function.comp_def]

@[simp] theorem map_sides_showing (d : Dice) (faces : List Number) :
    (d.showing faces).map Die.sides = faces.map fun _ => d.sides := by
  simp [showing, Function.comp_def]

@[simp] theorem showing_append (d : Dice) (first second : List Number) :
    d.showing (first ++ second) = d.showing first ++ d.showing second := by simp [showing]

@[simp] theorem showing_nil (d : Dice) : d.showing [] = [] := rfl

@[simp] theorem showing_cons (d : Dice) (face : Number) (more : List Number) :
    d.showing (face :: more) = { face, sides := d.sides } :: d.showing more := rfl

@[simp] theorem map_sides_fallen (d : Dice) (faces : List Number) :
    (d.fallen faces).map Die.sides = faces.map fun _ => d.sides := by
  cases faces with
  | nil => rfl
  | cons first more => simp [fallen, Function.comp_def]

/-- A chain is some exploding faces, or none, and one that does not explode. -/
theorem chain_iff (d : Dice) (faces : List Number) :
    d.Chain faces ↔ ∃ more last, faces = more ++ [last] ∧
      (∀ face ∈ more, d.explodes face = true) ∧ d.explodes last = false := by
  induction faces with
  | nil => simp [Chain]
  | cons face rest ih =>
    rw [Chain]
    split
    case isTrue explodes =>
      rw [ih]
      constructor
      · rintro ⟨more, last, rfl, all, calm⟩
        exact ⟨face :: more, last, rfl, List.forall_mem_cons.2 ⟨explodes, all⟩, calm⟩
      · rintro ⟨more, last, split, all, calm⟩
        cases more with
        | nil =>
          -- the first face would be the last one, which does not explode
          obtain ⟨rfl, rfl⟩ := List.cons.inj split
          exact absurd explodes (by simp [calm])
        | cons _ more =>
          obtain ⟨rfl, rfl⟩ := List.cons.inj split
          exact ⟨more, last, rfl, (List.forall_mem_cons.1 all).2, calm⟩
    case isFalse calm =>
      constructor
      · rintro rfl
        exact ⟨[], face, rfl, by simp, by simpa using calm⟩
      · rintro ⟨more, last, split, all, -⟩
        cases more with
        | nil => exact (List.cons.inj split).2
        | cons other more =>
          obtain ⟨rfl, -⟩ := List.cons.inj split
          exact absurd (List.forall_mem_cons.1 all).1 calm

end Dice

namespace Source

variable {σ : Type} (src : Source σ) (d : Dice)

theorem Throw.after_eq_iff {thrown : Throw σ} {earlier faces : List Number} {settled : Bool}
    {t : σ} : thrown.after earlier = ⟨faces, settled, t⟩ ↔
      ∃ more, thrown = ⟨more, settled, t⟩ ∧ faces = earlier ++ more := by
  obtain ⟨more, b, u⟩ := thrown
  simp [Throw.after, and_comm, and_assoc, eq_comm]

theorem Throws.after_eq_iff {thrown : Throws σ} {earlier groups : List (List Number)}
    {settled : Bool} {t : σ} : thrown.after earlier = ⟨groups, settled, t⟩ ↔
      ∃ more, thrown = ⟨more, settled, t⟩ ∧ groups = earlier ++ more := by
  obtain ⟨more, b, u⟩ := thrown
  simp [Throws.after, and_comm, and_assoc, eq_comm]

variable {src d}

/-- Once a face has been drawn, it is the first one, and the others are drawn after it. -/
theorem draws_showing_cons_of_draw {s u t : σ} {face first : Number} {more : List Number}
    (drawn : src.draw s d.sides = some (face, u)) :
    src.Draws s (d.showing (first :: more)) t ↔
      first = face ∧ src.Draws u (d.showing more) t := by
  simp only [Dice.showing_cons, draws_cons, drawn, Option.some.injEq, Prod.mk.injEq]
  constructor
  · rintro ⟨v, ⟨rfl, rfl⟩, rest⟩
    exact ⟨rfl, rest⟩
  · rintro ⟨rfl, rest⟩
    exact ⟨u, ⟨rfl, rfl⟩, rest⟩

variable (src d)

/-- Faces drawn after an exploding one come to an end where they are a chain. -/
theorem chain_eq_iff (s t : σ) (faces : List Number) :
    src.chain d s = ⟨faces, true, t⟩ ↔ d.Chain faces ∧ src.Draws s (d.showing faces) t := by
  -- on what the source still has to give: the chain behind a face is drawn from less
  induction s using src.inductionOn generalizing faces with
  | step s ih =>
    rw [chain_eq]
    cases faces with
    | nil =>
      -- a chain has a last face
      cases src.draw s d.sides with
      | none => simp [Dice.Chain]
      | some next => simp only []; split <;> simp [Dice.Chain, Throw.after]
    | cons first more =>
      cases drawn : src.draw s d.sides with
      | none => simp [drawn]
      | some next =>
        obtain ⟨face, u⟩ := next
        rw [draws_showing_cons_of_draw drawn, Dice.Chain]
        have after := ih _ _ _ drawn more
        by_cases explodes : d.explodes face = true
        · simp only [explodes, if_true, Throw.after_eq_iff]
          constructor
          · rintro ⟨more, rest, same⟩
            obtain ⟨rfl, rfl⟩ := List.cons.inj same
            obtain ⟨chain, draws⟩ := after.1 rest
            exact ⟨by simpa [explodes] using chain, rfl, draws⟩
          · rintro ⟨chain, rfl, draws⟩
            rw [if_pos explodes] at chain
            exact ⟨more, after.2 ⟨chain, draws⟩, rfl⟩
        · simp only [explodes]
          constructor
          · intro ended
            obtain ⟨same, -, rfl⟩ := Throw.mk.inj ended
            obtain ⟨rfl, rfl⟩ := List.cons.inj same
            exact ⟨by simp [explodes], rfl, rfl⟩
          · rintro ⟨chain, rfl, draws⟩
            rw [if_neg explodes] at chain
            subst chain
            obtain rfl : t = u := draws
            rfl

/-- A die whose first face stands is thrown like one that follows an exploding one. -/
theorem throw_eq_chain {s u : σ} {face : Number} (drawn : src.draw s d.sides = some (face, u))
    (stands : d.rerolls face = false) : src.throw d s = src.chain d s := by
  rw [throw, chain_eq, drawn]
  simp only [stands]
  rfl

/-- A die whose first face does not stand takes one other face. -/
theorem throw_eq_pair {s u : σ} {face : Number} (drawn : src.draw s d.sides = some (face, u))
    (again : d.rerolls face = true) :
    src.throw d s =
      match src.draw u d.sides with
      | none => ⟨[face], false, u⟩
      | some (replacement, v) => ⟨[face, replacement], true, v⟩ := by
  rw [throw, drawn]
  cases second : src.draw u d.sides <;> simp [again, second]

/-- One die is thrown to its end where the faces settle it. -/
theorem throw_eq_iff (s t : σ) (faces : List Number) :
    src.throw d s = ⟨faces, true, t⟩ ↔ d.Settled faces ∧ src.Draws s (d.showing faces) t := by
  cases drawn : src.draw s d.sides with
  | none => cases faces <;> simp [throw, drawn, Dice.Settled]
  | some next =>
    obtain ⟨face, u⟩ := next
    -- the first face decides which of the two ways to settle is asked for
    cases again : d.rerolls face with
    | false =>
      rw [throw_eq_chain src d drawn again, chain_eq_iff]
      refine and_congr_left fun draws => ?_
      cases faces with
      | nil => exact Iff.rfl
      | cons first more =>
        obtain ⟨rfl, -⟩ := (draws_showing_cons_of_draw drawn).1 draws
        simp [Dice.Settled, again]
    | true =>
      rw [throw_eq_pair src d drawn again]
      cases faces with
      | nil => cases src.draw u d.sides <;> simp [Dice.Settled]
      | cons first more =>
        rw [draws_showing_cons_of_draw drawn]
        cases second : src.draw u d.sides with
        | none =>
          simp only [Throw.mk.injEq, Bool.false_eq_true, false_and, and_false, false_iff]
          rintro ⟨settled, rfl, draws⟩
          obtain ⟨w, rfl⟩ : ∃ w, more = [w] := by simpa [Dice.Settled, again] using settled
          simp [second] at draws
        | some last =>
          obtain ⟨replacement, v⟩ := last
          constructor
          · intro ended
            obtain ⟨same, -, rfl⟩ := Throw.mk.inj ended
            obtain ⟨rfl, rfl⟩ := List.cons.inj same
            exact ⟨by simp [Dice.Settled, again], rfl, v, second, rfl⟩
          · rintro ⟨settled, rfl, draws⟩
            obtain ⟨w, rfl⟩ : ∃ w, more = [w] := by simpa [Dice.Settled, again] using settled
            obtain ⟨rfl, rfl⟩ := (draws_showing_cons_of_draw second).1 draws
            rfl

theorem throws_succ_eq_iff (n : Nat) (s t : σ) (faces : List Number) (groups : List (List Number)) :
    src.throws d (n + 1) s = ⟨faces :: groups, true, t⟩ ↔
      ∃ u, src.throw d s = ⟨faces, true, u⟩ ∧ src.throws d n u = ⟨groups, true, t⟩ := by
  rw [throws_succ]
  obtain ⟨first, settled, u⟩ := src.throw d s
  cases settled with
  | false => simp
  | true =>
    simp only [if_true, Throws.after_eq_iff, List.singleton_append, List.cons.injEq,
      Throw.mk.injEq, true_and]
    constructor
    · rintro ⟨more, rest, rfl, rfl⟩
      exact ⟨u, ⟨rfl, rfl⟩, rest⟩
    · rintro ⟨v, ⟨rfl, rfl⟩, rest⟩
      exact ⟨groups, rest, rfl, rfl⟩

/-- Several dice are thrown to their end where the faces of each of them settle it. -/
theorem throws_eq_iff (n : Nat) (s t : σ) (groups : List (List Number)) :
    src.throws d n s = ⟨groups, true, t⟩ ↔
      groups.length = n ∧ (∀ faces ∈ groups, d.Settled faces) ∧
        src.Draws s (d.showing groups.flatten) t := by
  induction n generalizing s groups with
  | zero =>
    rw [throws_zero]
    cases groups with
    | nil => simp [eq_comm]
    | cons faces groups => simp
  | succ n ih =>
    cases groups with
    | nil => rw [throws_succ]; split <;> simp [Throws.after]
    | cons faces groups =>
      rw [throws_succ_eq_iff, List.length_cons, Nat.add_right_cancel_iff, List.forall_mem_cons,
        List.flatten_cons, Dice.showing_append, draws_append]
      constructor
      · rintro ⟨u, first, others⟩
        obtain ⟨settled, draws⟩ := (throw_eq_iff src d s u faces).1 first
        obtain ⟨length, all, more⟩ := (ih u groups).1 others
        exact ⟨length, ⟨settled, all⟩, u, draws, more⟩
      · rintro ⟨length, ⟨settled, all⟩, u, draws, more⟩
        exact ⟨u, (throw_eq_iff src d s u faces).2 ⟨settled, draws⟩,
          (ih u groups).2 ⟨length, all, more⟩⟩

end Source

end TabletopDice
