import TabletopDice.Die
import TabletopDice.Source

/-!
# Dice drawn from a source

`src.Draws s dice t` says that a source, asked for the dice of a list one after the other, gives the
faces that they show and is left in the state `t`. Only the faces and the sides of the dice are
looked at. Their marks are put on afterwards, by rerolls and selections, and no source sees them
(`Draws.congr`); so the dice of a finished roll can be taken as they lie on the table.

This is all that the laws of rolling have to know about a source. For a list the relation says that
the faces are the beginning of the list (`draws_ofList`), and for an endless supply of faces it says
the same with every larger allowance (`draws_limited_add`).
-/

set_option autoImplicit false

namespace TabletopDice

namespace Source

variable {σ : Type}

/-- The source gives the faces of the dice, one after the other. -/
def Draws (src : Source σ) : σ → List Die → σ → Prop
  | s, [], t => t = s
  | s, die :: dice, t => ∃ u, src.draw s die.sides = some (die.face, u) ∧ Draws src u dice t

/-- A source can be reasoned about from the end: what holds of a state if it holds of all states
that a die leads to, holds of every state. -/
theorem inductionOn (src : Source σ) {P : σ → Prop} (s : σ)
    (step : ∀ s, (∀ sides face t, src.draw s sides = some (face, t) → P t) → P s) : P s := by
  have below : ∀ n s, src.supply s < n → P s := by
    intro n
    induction n with
    | zero => intro s h; exact absurd h (Nat.not_lt_zero _)
    | succ n ih =>
      intro s h
      refine step s fun sides face t drawn => ih t ?_
      exact Nat.lt_of_lt_of_le (src.supply_draw drawn) (Nat.le_of_lt_succ h)
  exact below _ s (Nat.lt_succ_self _)

@[simp] theorem draws_nil (src : Source σ) (s t : σ) : src.Draws s [] t ↔ t = s := Iff.rfl

@[simp] theorem draws_cons (src : Source σ) (s t : σ) (die : Die) (dice : List Die) :
    src.Draws s (die :: dice) t ↔
      ∃ u, src.draw s die.sides = some (die.face, u) ∧ src.Draws u dice t := Iff.rfl

theorem draws_append (src : Source σ) (s t : σ) (first second : List Die) :
    src.Draws s (first ++ second) t ↔ ∃ u, src.Draws s first u ∧ src.Draws u second t := by
  induction first generalizing s with
  | nil => simp
  | cons die first ih =>
    simp only [List.cons_append, draws_cons, ih]
    constructor
    · rintro ⟨u, drawn, v, rest, last⟩
      exact ⟨v, ⟨u, drawn, rest⟩, last⟩
    · rintro ⟨v, ⟨u, drawn, rest⟩, last⟩
      exact ⟨u, drawn, v, rest, last⟩

/-- A source does not see the marks of the dice. -/
theorem Draws.congr {src : Source σ} {s t : σ} {dice marked : List Die}
    (faces : marked.map Die.face = dice.map Die.face)
    (sides : marked.map Die.sides = dice.map Die.sides) :
    src.Draws s marked t ↔ src.Draws s dice t := by
  induction dice generalizing s marked with
  | nil => rw [List.map_eq_nil_iff.1 faces]
  | cons die dice ih =>
    cases marked with
    | nil => exact absurd faces (by simp)
    | cons other marked =>
      simp only [List.map_cons, List.cons.injEq] at faces sides
      simp only [draws_cons, faces.1, sides.1, ih faces.2 sides.2]

/-- From a list come the faces that it begins with. -/
theorem draws_ofList (faces rest : List Number) (dice : List Die) :
    ofList.Draws faces dice rest ↔ faces = dice.map Die.face ++ rest := by
  induction dice generalizing faces with
  | nil => simp [eq_comm]
  | cons die dice ih =>
    rw [draws_cons, List.map_cons, List.cons_append]
    cases faces with
    | nil => simp
    | cons face faces =>
      simp only [draw_ofList_cons, Option.some.injEq, Prod.mk.injEq, List.cons.injEq]
      constructor
      · rintro ⟨u, ⟨shown, here⟩, drawn⟩
        exact ⟨shown, (ih faces).1 (here ▸ drawn)⟩
      · rintro ⟨shown, more⟩
        exact ⟨faces, ⟨shown, rfl⟩, (ih faces).2 more⟩

/-- What comes within some allowance comes within every larger one. -/
theorem draws_limited_add {next : σ → (sides : Number) → Number × σ} {n m : Nat} {s t : σ}
    {dice : List Die} (more : Nat) (drawn : (limited next).Draws (n, s) dice (m, t)) :
    (limited next).Draws (n + more, s) dice (m + more, t) := by
  induction dice generalizing n s with
  | nil =>
    cases drawn
    rfl
  | cons die dice ih =>
    obtain ⟨⟨k, u⟩, first, rest⟩ := drawn
    refine ⟨(k + more, u), ?_, ih rest⟩
    cases n with
    | zero => cases first
    | succ n =>
      rw [Nat.succ_add]
      simp only [limited, Option.some.injEq, Prod.mk.injEq] at first ⊢
      exact ⟨first.1, by rw [first.2.1], first.2.2⟩

/-- Two allowances, each used up, are together enough for the dice of both. -/
theorem draws_limited_append {next : σ → (sides : Number) → Number × σ} {n m : Nat} {s t u : σ}
    {first second : List Die} (before : (limited next).Draws (n, s) first (0, t))
    (after : (limited next).Draws (m, t) second (0, u)) :
    (limited next).Draws (n + m, s) (first ++ second) (0, u) := by
  have started := draws_limited_add m before
  rw [Nat.zero_add] at started
  exact (draws_append _ _ _ _ _).2 ⟨(m, t), started, after⟩

/-- What holds of every face that something gives holds of all dice drawn from it. -/
theorem forall_mem_of_draws_limited {next : σ → (sides : Number) → Number × σ}
    {P : (sides face : Number) → Prop} (each : ∀ s sides, P sides (next s sides).1) {s t : Nat × σ}
    {dice : List Die} (drawn : (limited next).Draws s dice t) :
    ∀ die ∈ dice, P die.sides die.face := by
  induction dice generalizing s with
  | nil =>
    intro die mem
    cases mem
  | cons die dice ih =>
    obtain ⟨u, first, rest⟩ := drawn
    obtain ⟨allowance, state⟩ := s
    cases allowance with
    | zero => cases first
    | succ allowance =>
      have face : (next state die.sides).1 = die.face := congrArg Prod.fst (Option.some.inj first)
      exact List.forall_mem_cons.2 ⟨face ▸ each state die.sides, ih rest⟩

end Source

end TabletopDice
