import TabletopDice.Proofs.Rolling.Completion

/-!
# Runs that the source cuts short

A run that comes to no value has drawn dice all the same, and it stands where it asked for a die
that the source did not have. `Rolling.RunsOut` says so together with the state in which the source
is left, and like completed runs these are put together step by step (`runsOut_bind`): either the
first computation runs out, or it is completed and the second one runs out after it.

Of a dice term it can be said without a source how far such a run has come. Some of its dice have
settled, fewer than the term has, and the faces of the next one ask for another
(`Dice.Unsettled`). `throws_eq_iff_unsettled` is the counterpart of `throws_eq_iff` and leaves no
third possibility.
-/

set_option autoImplicit false

namespace TabletopDice

namespace Rolling

variable {σ α β : Type}

/-- From one state of the source the computation comes to no value and leaves the source in another
state. -/
def RunsOut (m : Rolling σ α) (s t : σ) : Prop := (m s).value? = none ∧ (m s).state = t

theorem completes_or_runsOut (m : Rolling σ α) (s : σ) :
    (∃ a t, m.Completes s a t) ∨ ∃ t, m.RunsOut s t := by
  cases value : (m s).value? with
  | none => exact .inr ⟨_, value, rfl⟩
  | some a => exact .inl ⟨a, _, value, rfl⟩

theorem Completes.unique {m : Rolling σ α} {s t u : σ} {a b : α} (first : m.Completes s a t)
    (second : m.Completes s b u) : a = b ∧ t = u := by
  obtain ⟨value, rfl⟩ := first
  obtain ⟨same, rfl⟩ := second
  exact ⟨Option.some.inj (value.symm.trans same), rfl⟩

theorem Completes.not_runsOut {m : Rolling σ α} {s t u : σ} {a : α} (done : m.Completes s a t) :
    ¬ m.RunsOut s u := by
  intro out
  have : some a = none := done.1.symm.trans out.1
  cases this

theorem not_runsOut_pure {a : α} {s t : σ} : ¬ (pure a : Rolling σ α).RunsOut s t := by
  simp [RunsOut]

theorem not_runsOut_record {entries : List Record} {s t : σ} :
    ¬ (record entries : Rolling σ Unit).RunsOut s t := by
  simp [RunsOut]

theorem runsOut_bind {m : Rolling σ α} {f : α → Rolling σ β} {s u : σ} :
    (m >>= f).RunsOut s u ↔
      m.RunsOut s u ∨ ∃ a t, m.Completes s a t ∧ (f a).RunsOut t u := by
  simp only [RunsOut, Completes, value?_bind, state_bind]
  cases value : (m s).value? with
  | none => simp
  | some a =>
    constructor
    · intro after
      exact .inr ⟨a, _, ⟨rfl, rfl⟩, after⟩
    · intro either
      obtain ⟨impossible, -⟩ | ⟨b, t, ⟨same, rfl⟩, after⟩ := either
      · cases impossible
      · obtain rfl := Option.some.inj same
        exact after

end Rolling

namespace Dice

/-- The faces are those of one die that needs another face. -/
def Unsettled (d : Dice) : (faces : List Number) → Prop
  | [] => True
  | first :: more =>
    if d.rerolls first then more = [] else ∀ face ∈ first :: more, d.explodes face = true

end Dice

namespace Source

variable {σ : Type} (src : Source σ) (d : Dice)

theorem not_draws_nil_of_draw {src : Source σ} {s t : σ} {sides : Number} {next : Number × σ}
    (drawn : src.draw s sides = some next) :
    ¬ (src.Draws s [] t ∧ src.draw t sides = none) := by
  rintro ⟨here, dry⟩
  rw [(src.draws_nil s t).1 here, drawn] at dry
  cases dry

theorem chain_eq_iff_unsettled (s t : σ) (faces : List Number) :
    src.chain d s = ⟨faces, false, t⟩ ↔
      (∀ face ∈ faces, d.explodes face = true) ∧ src.Draws s (d.showing faces) t ∧
        src.draw t d.sides = none := by
  -- as for chains that end, on what the source still has to give
  induction s using src.inductionOn generalizing faces with
  | step s ih =>
    rw [chain_eq]
    cases drawn : src.draw s d.sides with
    | none =>
      cases faces with
      | cons first more => simp [drawn]
      | nil =>
        constructor
        · intro ended
          obtain ⟨-, -, rfl⟩ := Throw.mk.inj ended
          exact ⟨by simp, rfl, drawn⟩
        · rintro ⟨_, same, _⟩
          rw [show t = s from same]
    | some next =>
      obtain ⟨face, u⟩ := next
      cases faces with
      | nil =>
        -- the source has a face, and so does the chain
        have here := not_draws_nil_of_draw (t := t) drawn
        by_cases explodes : d.explodes face = true <;>
          simpa [explodes, Throw.after] using here
      | cons first more =>
        rw [draws_showing_cons_of_draw drawn, List.forall_mem_cons]
        by_cases explodes : d.explodes face = true
        · simp only [explodes, if_true, Throw.after_eq_iff]
          constructor
          · rintro ⟨rest, ended, same⟩
            obtain ⟨rfl, rfl⟩ := List.cons.inj same
            obtain ⟨all, draws, dry⟩ := (ih _ _ _ drawn more).1 ended
            exact ⟨⟨explodes, all⟩, ⟨rfl, draws⟩, dry⟩
          · rintro ⟨⟨_, all⟩, ⟨same, draws⟩, dry⟩
            exact ⟨more, (ih _ _ _ drawn more).2 ⟨all, draws, dry⟩, by rw [same]; rfl⟩
        · simp only [explodes]
          constructor
          · intro ended
            cases ended
          · rintro ⟨⟨first_explodes, _⟩, ⟨same, _⟩, _⟩
            exact absurd (same ▸ first_explodes) explodes

/-- One die is left unsettled where the source has nothing after faces that ask for more. -/
theorem throw_eq_iff_unsettled (s t : σ) (faces : List Number) :
    src.throw d s = ⟨faces, false, t⟩ ↔
      d.Unsettled faces ∧ src.Draws s (d.showing faces) t ∧ src.draw t d.sides = none := by
  cases drawn : src.draw s d.sides with
  | none =>
    cases faces with
    | cons first more => simp [throw, drawn]
    | nil =>
      rw [throw, drawn]
      constructor
      · intro ended
        obtain ⟨-, -, rfl⟩ := Throw.mk.inj ended
        exact ⟨trivial, rfl, drawn⟩
      · rintro ⟨_, same, _⟩
        rw [show t = s from same]
  | some next =>
    obtain ⟨face, u⟩ := next
    cases again : d.rerolls face with
    | false =>
      rw [throw_eq_chain src d drawn again, chain_eq_iff_unsettled]
      refine and_congr_left ?_
      rintro ⟨draws, -⟩
      cases faces with
      | nil => simp [Dice.Unsettled]
      | cons first more =>
        obtain ⟨rfl, -⟩ := (draws_showing_cons_of_draw drawn).1 draws
        simp [Dice.Unsettled, again]
    | true =>
      rw [throw_eq_pair src d drawn again]
      cases faces with
      | nil =>
        have here := not_draws_nil_of_draw (t := t) drawn
        cases src.draw u d.sides <;> simpa [Dice.Unsettled] using here
      | cons first more =>
        rw [draws_showing_cons_of_draw drawn]
        cases second : src.draw u d.sides with
        | none =>
          constructor
          · intro ended
            obtain ⟨same, -, rfl⟩ := Throw.mk.inj ended
            obtain ⟨rfl, rfl⟩ := List.cons.inj same
            exact ⟨by simp [Dice.Unsettled, again], ⟨rfl, rfl⟩, second⟩
          · rintro ⟨unsettled, ⟨same, draws⟩, _⟩
            obtain rfl : more = [] := by simpa [Dice.Unsettled, same, again] using unsettled
            rw [same, show t = u from draws]
        | some last =>
          -- two faces are enough for a die that is rolled once more
          constructor
          · intro ended
            cases ended
          · rintro ⟨unsettled, ⟨same, draws⟩, dry⟩
            obtain rfl : more = [] := by simpa [Dice.Unsettled, same, again] using unsettled
            rw [show t = u from draws, second] at dry
            cases dry

/-- Some dice are left unsettled where those before one of them settle and that one does not. -/
theorem throws_eq_iff_unsettled (n : Nat) (s t : σ) (groups : List (List Number)) :
    src.throws d n s = ⟨groups, false, t⟩ ↔
      ∃ before last, groups = before ++ [last] ∧ before.length < n ∧
        (∀ faces ∈ before, d.Settled faces) ∧ d.Unsettled last ∧
          src.Draws s (d.showing groups.flatten) t ∧ src.draw t d.sides = none := by
  induction n generalizing s groups with
  | zero => simp
  | succ n ih =>
    rw [throws_succ]
    constructor
    · cases thrown : src.throw d s with
      | mk faces settled u =>
        intro ended
        cases settled with
        | true =>
          obtain ⟨more, rest, same⟩ := Throws.after_eq_iff.1 ended
          obtain ⟨before, last, rfl, fewer, all, unsettled, draws, dry⟩ := (ih u more).1 rest
          obtain ⟨first, here⟩ := (throw_eq_iff src d s u faces).1 thrown
          refine ⟨faces :: before, last, same, Nat.succ_lt_succ fewer,
            List.forall_mem_cons.2 ⟨first, all⟩, unsettled, ?_, dry⟩
          rw [same, List.singleton_append, List.flatten_cons, Dice.showing_append, draws_append]
          exact ⟨u, here, draws⟩
        | false =>
          obtain ⟨rfl, -, rfl⟩ := Throws.mk.inj ended
          obtain ⟨unsettled, here, dry⟩ := (throw_eq_iff_unsettled src d s u faces).1 thrown
          exact ⟨[], faces, rfl, Nat.succ_pos n, by simp, unsettled, by simpa using here, dry⟩
    · rintro ⟨before, last, same, fewer, all, unsettled, draws, dry⟩
      subst same
      cases before with
      | nil =>
        have first : src.throw d s = ⟨last, false, t⟩ :=
          (throw_eq_iff_unsettled src d s t last).2 ⟨unsettled, by simpa using draws, dry⟩
        rw [first]
        rfl
      | cons faces before =>
        obtain ⟨settled, all⟩ := List.forall_mem_cons.1 all
        rw [List.cons_append, List.flatten_cons, Dice.showing_append, draws_append] at draws
        obtain ⟨u, here, rest⟩ := draws
        have others : src.throws d n u = ⟨before ++ [last], false, t⟩ :=
          (ih u _).2 ⟨before, last, rfl, Nat.lt_of_succ_lt_succ fewer, all, unsettled, rest, dry⟩
        rw [(throw_eq_iff src d s u faces).2 ⟨settled, here⟩]
        exact Throws.after_eq_iff.2 ⟨_, others, rfl⟩

variable {src}

theorem runsOut_throwAll {d : Dice} {s t : σ} :
    (src.throwAll d).RunsOut s t ↔ ∃ groups, src.throws d d.count.toNat s = ⟨groups, false, t⟩ := by
  simp only [Rolling.RunsOut, throwAll]
  obtain ⟨groups, settled, u⟩ := src.throws d d.count.toNat s
  cases settled <;> simp

/-- The roll of a dice term is cut short where the source has nothing after some settled dice, fewer
than there are to roll, and the faces of one that needs more. -/
theorem runsOut_roll_iff {d : Dice} {s t : σ} :
    (src.roll d).RunsOut s t ↔
      ∃ (before : List (List Number)) (last : List Number),
        before.length < d.count.toNat ∧ (∀ faces ∈ before, d.Settled faces) ∧
        d.Unsettled last ∧ src.Draws s (d.showing (before.flatten ++ last)) t ∧
          src.draw t d.sides = none := by
  have only : (src.roll d).RunsOut s t ↔ (src.throwAll d).RunsOut s t := by
    simp [roll, Rolling.runsOut_bind, Rolling.not_runsOut_record, Rolling.not_runsOut_pure]
  simp only [only, runsOut_throwAll, throws_eq_iff_unsettled]
  constructor
  · rintro ⟨_, before, last, same, fewer, all, unsettled, draws, dry⟩
    subst same
    exact ⟨before, last, fewer, all, unsettled, by simpa using draws, dry⟩
  · rintro ⟨before, last, fewer, all, unsettled, draws, dry⟩
    exact ⟨_, before, last, rfl, fewer, all, unsettled, by simpa using draws, dry⟩

theorem not_runsOut_conclude {part : Expr} {o : Outcome} {s t : σ} :
    ¬ (conclude part o : Rolling σ Outcome).RunsOut s t := by
  simp [conclude, Rolling.runsOut_bind, Rolling.not_runsOut_record, Rolling.not_runsOut_pure]

theorem runsOut_evaluate_dice {d : Dice} {s t : σ} :
    (src.evaluate (.dice d)).RunsOut s t ↔ (src.roll d).RunsOut s t := by
  simp [evaluate, Rolling.runsOut_bind, not_runsOut_conclude]

/-- An operation is cut short in its left operand, or in its right one after the left one has been
evaluated. -/
theorem runsOut_evaluate_join {o : Operator} {left right : Expr} {s t : σ} :
    (src.evaluate (.join o left right)).RunsOut s t ↔
      (src.evaluate left).RunsOut s t ∨
        ∃ a u, (src.evaluate left).Completes s a u ∧ (src.evaluate right).RunsOut u t := by
  simp [evaluate, Rolling.runsOut_bind, not_runsOut_conclude]

theorem completes_evaluate_join {o : Operator} {left right : Expr} {s t : σ} {c : Outcome} :
    (src.evaluate (.join o left right)).Completes s c t ↔
      ∃ a u b, (src.evaluate left).Completes s a u ∧ (src.evaluate right).Completes u b t ∧
        c = { dice := a.dice ++ b.dice, result := o.apply a.result b.result } := by
  simp only [evaluate, Rolling.completes_bind, completes_conclude]
  constructor
  · rintro ⟨a, u, first, b, v, second, same, here⟩
    subst here
    exact ⟨a, u, b, first, second, same⟩
  · rintro ⟨a, u, b, first, second, same⟩
    exact ⟨a, u, first, b, t, second, same, rfl⟩

/-- A run that is cut short has drawn some dice, and there is one that the source could not give
it. -/
theorem exists_draws_of_runsOut {e : Expr} {s t : σ} (out : (src.evaluate e).RunsOut s t) :
    ∃ dice sides, src.Draws s dice t ∧ src.draw t sides = none := by
  induction e generalizing s with
  | number n => exact absurd out not_runsOut_conclude
  | dice d =>
    obtain ⟨before, last, _, _, _, draws, dry⟩ := runsOut_roll_iff.1 (runsOut_evaluate_dice.1 out)
    exact ⟨_, _, draws, dry⟩
  | join o left right ihl ihr =>
    obtain first | ⟨a, u, first, second⟩ := runsOut_evaluate_join.1 out
    · exact ihl first
    · obtain ⟨dice, sides, draws, dry⟩ := ihr second
      have before := (src.completes_evaluate_iff.1 first).2
      exact ⟨a.dice ++ dice, sides, (src.draws_append _ _ _ _).2 ⟨u, before, draws⟩, dry⟩

end Source

end TabletopDice
