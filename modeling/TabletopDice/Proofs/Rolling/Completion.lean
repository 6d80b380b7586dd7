import TabletopDice.Proofs.Rolling.Throws
import TabletopDice.Rolling.Evaluation

/-!
# Completed runs

A run is completed if the source did not run out before there was a value. `Rolling.Completes` says
so, together with the value and the state in which the source is left, and computations one after
the other are completed step by step (`completes_bind`).

What a completed run can come to does not depend on the source. `Dice.Allows` and `Expr.Allows`
are the rolls of a dice term and the outcomes of an expression, described without a source, and
`completes_roll_iff` and `completes_evaluate_iff` say that a source completes a run with one of
them if and only if it gives the faces of its dice. So a law about completed runs is a law about
`Allows`, for all sources at once.
-/

set_option autoImplicit false

namespace TabletopDice

namespace Rolling

variable {σ α β : Type}

/-- From one state of the source the computation comes to a value and leaves the source in another
state. -/
def Completes (m : Rolling σ α) (s : σ) (a : α) (t : σ) : Prop :=
  (m s).value? = some a ∧ (m s).state = t

theorem completes_pure {a b : α} {s t : σ} :
    (pure a : Rolling σ α).Completes s b t ↔ b = a ∧ t = s := by
  simp [Completes, eq_comm]

theorem completes_record {entries : List Record} {s t : σ} {u : Unit} :
    (record entries : Rolling σ Unit).Completes s u t ↔ t = s := by
  simp [Completes, eq_comm]

theorem completes_bind {m : Rolling σ α} {f : α → Rolling σ β} {s u : σ} {b : β} :
    (m >>= f).Completes s b u ↔ ∃ a t, m.Completes s a t ∧ (f a).Completes t b u := by
  simp only [Completes, value?_bind, state_bind]
  cases value : (m s).value? with
  | none => simp
  | some a =>
    constructor
    · intro after
      exact ⟨a, _, ⟨rfl, rfl⟩, after⟩
    · rintro ⟨_, _, ⟨same, rfl⟩, after⟩
      obtain rfl := Option.some.inj same
      exact after

end Rolling

namespace Dice

/-- The rolls that the faces of settled dice make. -/
def Allows (d : Dice) (r : Roll) : Prop :=
  ∃ groups : List (List Number), groups.length = d.count.toNat ∧
    (∀ faces ∈ groups, d.Settled faces) ∧ r = d.settle groups

theorem Allows.term {d : Dice} {r : Roll} (allowed : d.Allows r) : r.term = d := by
  obtain ⟨_, -, -, rfl⟩ := allowed
  rfl

/-- What neither a reroll nor a selection changes can be read off the faces. -/
theorem map_settle {α : Type} {f : Die → α} {g : Number → α} (d : Dice)
    (groups : List (List Number)) (fallen : ∀ faces, (d.fallen faces).map f = faces.map g)
    (marked : ∀ (k : Selection) (dice : List Die), (k.apply dice).map f = dice.map f) :
    (d.settle groups).dice.map f = groups.flatten.map g := by
  have unmarked : (groups.flatMap d.fallen).map f = groups.flatten.map g := by
    simp only [List.flatMap, List.map_flatten, List.map_map, Function.comp_def, fallen]
  rw [settle]
  cases d.select with
  | none => exact unmarked
  | some k => exact (marked k _).trans unmarked

theorem map_face_settle (d : Dice) (groups : List (List Number)) :
    (d.settle groups).dice.map Die.face = groups.flatten := by
  simpa using d.map_settle groups (g := id) (by simp) Selection.map_face_apply

theorem length_dice_settle (d : Dice) (groups : List (List Number)) :
    (d.settle groups).dice.length = groups.flatten.length := by
  rw [← map_face_settle, List.length_map]

/-- A face that counts has been drawn. -/
theorem mem_flatten_of_mem_kept {d : Dice} {groups : List (List Number)} {face : Number}
    (mem : face ∈ (Die.kept (d.settle groups).dice).map Die.face) : face ∈ groups.flatten := by
  rw [← map_face_settle]
  exact (List.filter_sublist.map Die.face).subset mem

theorem map_sides_settle (d : Dice) (groups : List (List Number)) :
    (d.settle groups).dice.map Die.sides = groups.flatten.map fun _ => d.sides :=
  d.map_settle groups d.map_sides_fallen Selection.map_sides_apply

/-- What is said of the faces and sides of all dice of a roll is said of the faces drawn. -/
theorem forall_mem_settle {P : (sides face : Number) → Prop} {d : Dice}
    {groups : List (List Number)} :
    (∀ die ∈ (d.settle groups).dice, P die.sides die.face) ↔
      ∀ face ∈ groups.flatten, P d.sides face := by
  have sides : ∀ die ∈ (d.settle groups).dice, die.sides = d.sides := by
    intro die mem
    have named := List.mem_map_of_mem (f := Die.sides) mem
    rw [map_sides_settle] at named
    obtain ⟨_, _, same⟩ := List.mem_map.1 named
    exact same.symm
  rw [← map_face_settle]
  constructor
  · intro all face mem
    obtain ⟨die, here, rfl⟩ := List.mem_map.1 mem
    exact sides die here ▸ all die here
  · intro all die mem
    rw [sides die mem]
    exact all die.face (List.mem_map_of_mem mem)

end Dice

namespace Expr

/-- The outcomes that an expression can have: those of its dice terms, put together. -/
inductive Allows : Expr → Outcome → Prop
  | number (n : Number) : Allows (.number n) { dice := [], result := n }
  | dice {d : Dice} {r : Roll} (roll : d.Allows r) :
      Allows (.dice d) { dice := r.dice, result := r.total }
  | join {o : Operator} {left right : Expr} {a b : Outcome} (first : Allows left a)
      (second : Allows right b) :
      Allows (.join o left right)
        { dice := a.dice ++ b.dice, result := o.apply a.result b.result }

theorem allows_dice_iff {d : Dice} {o : Outcome} :
    Allows (.dice d) o ↔ ∃ groups : List (List Number), groups.length = d.count.toNat ∧
      (∀ faces ∈ groups, d.Settled faces) ∧
        o = { dice := (d.settle groups).dice, result := (d.settle groups).total } := by
  constructor
  · intro allowed
    cases allowed with
    | dice roll =>
      obtain ⟨groups, length, settled, same⟩ := roll
      exact ⟨groups, length, settled, by rw [same]⟩
  · rintro ⟨groups, length, settled, same⟩
    exact same ▸ .dice ⟨groups, length, settled, rfl⟩

end Expr

namespace Source

variable {σ : Type} (src : Source σ)

theorem completes_throwAll {d : Dice} {s t : σ} {groups : List (List Number)} :
    (src.throwAll d).Completes s groups t ↔
      src.throws d d.count.toNat s = ⟨groups, true, t⟩ := by
  simp only [Rolling.Completes, throwAll]
  obtain ⟨thrown, settled, u⟩ := src.throws d d.count.toNat s
  cases settled <;> simp

variable {src} in
/-- A source that gives the faces of a roll has not seen the marks that are on its dice by now. -/
theorem draws_settle {d : Dice} {groups : List (List Number)} {s t : σ} :
    src.Draws s (d.settle groups).dice t ↔ src.Draws s (d.showing groups.flatten) t := by
  refine Draws.congr ?_ ?_
  · rw [Dice.map_face_settle, Dice.map_face_showing]
  · rw [Dice.map_sides_settle, Dice.map_sides_showing]

/-- A dice term is rolled to its end where the source gives the faces of a roll that is allowed. -/
theorem completes_roll_iff {d : Dice} {s t : σ} {r : Roll} :
    (src.roll d).Completes s r t ↔ d.Allows r ∧ src.Draws s r.dice t := by
  simp only [roll, Rolling.completes_bind, completes_throwAll, Rolling.completes_record,
    Rolling.completes_pure, throws_eq_iff]
  constructor
  · rintro ⟨groups, u, ⟨length, settled, draws⟩, -, v, rfl, rfl, rfl⟩
    exact ⟨⟨groups, length, settled, rfl⟩, draws_settle.2 draws⟩
  · rintro ⟨⟨groups, length, settled, rfl⟩, draws⟩
    exact ⟨groups, t, ⟨length, settled, draws_settle.1 draws⟩, (), t, rfl, rfl, rfl⟩

theorem completes_conclude {part : Expr} {o p : Outcome} {s t : σ} :
    (conclude part o : Rolling σ Outcome).Completes s p t ↔ p = o ∧ t = s := by
  simp only [conclude, Rolling.completes_bind, Rolling.completes_record, Rolling.completes_pure]
  constructor
  · rintro ⟨_, u, rfl, rfl, rfl⟩
    exact ⟨rfl, rfl⟩
  · rintro ⟨rfl, rfl⟩
    exact ⟨(), t, rfl, rfl, rfl⟩

/-- An expression is evaluated to its end where the source gives the faces of an outcome that is
allowed. -/
theorem completes_evaluate_iff {e : Expr} {s t : σ} {o : Outcome} :
    (src.evaluate e).Completes s o t ↔ e.Allows o ∧ src.Draws s o.dice t := by
  induction e generalizing s t o with
  | number n =>
    rw [evaluate, completes_conclude]
    constructor
    · rintro ⟨rfl, rfl⟩
      exact ⟨.number n, rfl⟩
    · rintro ⟨⟨⟩, rfl⟩
      exact ⟨rfl, rfl⟩
  | dice d =>
    simp only [evaluate, Rolling.completes_bind, completes_conclude, completes_roll_iff]
    constructor
    · rintro ⟨r, u, ⟨allowed, draws⟩, rfl, rfl⟩
      exact ⟨.dice allowed, draws⟩
    · rintro ⟨⟨⟩, draws⟩
      rename_i r allowed
      exact ⟨r, t, ⟨allowed, draws⟩, rfl, rfl⟩
  | join op left right ihl ihr =>
    simp only [evaluate, Rolling.completes_bind, completes_conclude, ihl, ihr]
    constructor
    · rintro ⟨a, u, ⟨first, before⟩, b, v, ⟨second, after⟩, rfl, rfl⟩
      exact ⟨.join first second, (src.draws_append s t a.dice b.dice).2 ⟨u, before, after⟩⟩
    · rintro ⟨⟨⟩, draws⟩
      rename_i a b first second
      obtain ⟨u, before, after⟩ := (src.draws_append s t a.dice b.dice).1 draws
      exact ⟨a, u, ⟨first, before⟩, b, t, ⟨second, after⟩, rfl, rfl⟩

/-- An outcome that some allowance was enough for is the outcome with every larger one. -/
theorem completes_evaluate_limited_add {next : σ → (sides : Number) → Number × σ} {e : Expr}
    {n m : Nat} {s t : σ} {o : Outcome} (more : Nat)
    (completed : ((limited next).evaluate e).Completes (n, s) o (m, t)) :
    ((limited next).evaluate e).Completes (n + more, s) o (m + more, t) := by
  rw [completes_evaluate_iff] at completed ⊢
  exact ⟨completed.1, draws_limited_add more completed.2⟩

end Source

end TabletopDice
