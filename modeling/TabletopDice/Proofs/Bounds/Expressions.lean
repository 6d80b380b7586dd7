import TabletopDice.Proofs.Bounds.Interval
import TabletopDice.Proofs.Rolling.Chance
import TabletopDice.Proofs.Rolling.Journal
import TabletopDice.Proofs.Selection.Taking
import TabletopDice.Proofs.Totals.Sums

/-!
# What an expression can come to

Without explosions the size of a roll is known beforehand. Each die puts one face on the table that
counts, and one more that does not if it is rolled once more; a selection then leaves so many of the
faces that count, whichever they are (`Dice.remaining`). With faces between 1 and the number of sides
this bounds the total of a term on both sides, and from there the bounds of an expression are those
of its parts, put together by its operators (`Expr.bounds`).

`Source.evaluate_mem_bounds` says that every evaluation keeps to them, whatever gives the faces, and
that it comes to an end to do so.
-/

set_option autoImplicit false

namespace TabletopDice

namespace Dice

/-- How many dice of a term count after its selection, if one die of each throw did so before. -/
def remaining (d : Dice) : Nat :=
  match d.select with
  | none => d.count.toNat
  | some s => s.remaining d.count.toNat

/-- What the total of a term lies between, without explosions. -/
def bounds (d : Dice) : Interval :=
  if d.successes.isSome then .between 0 d.remaining (Int.natCast_nonneg _)
  else if real : d.sides < 1 then .point 0
  else .between d.remaining (d.remaining * d.sides.toInt) (by
    rw [Number.lt_iff, Number.toInt_one] at real
    have grows : (d.remaining : Int) * 1 ≤ d.remaining * d.sides.toInt :=
      Int.mul_le_mul_of_nonneg_left (by omega) (Int.natCast_nonneg _)
    rwa [Int.mul_one] at grows)

end Dice

namespace Expr

/-- What the value of an expression lies between, without explosions. -/
def bounds : Expr → Interval
  | .number n => .point n
  | .dice d => d.bounds
  | .join o left right => .join o left.bounds right.bounds

/-- The most faces that an expression takes, without explosions. -/
def mostFaces : Expr → Nat
  | .number _ => 0
  | .dice d => 2 * d.count.toNat
  | .join _ left right => left.mostFaces + right.mostFaces

end Expr

/-! ## The size of a roll -/

namespace Dice

variable {d : Dice}

theorem length_of_settled (calm : d.explode = none) {faces : List Number}
    (settled : d.Settled faces) :
    1 ≤ faces.length ∧ faces.length ≤ 2 ∧ (Die.kept (d.fallen faces)).length = 1 := by
  cases faces with
  | nil => exact settled.elim
  | cons first more =>
    rw [settled_cons_of_calm calm] at settled
    cases again : d.rerolls first with
    | true =>
      obtain ⟨second, rfl⟩ : ∃ second, more = [second] := by simpa [again] using settled
      simp [fallen, Die.kept, Die.isKept, again]
    | false =>
      obtain rfl : more = [] := by simpa [again] using settled
      simp [fallen, Die.kept, Die.isKept, again]

theorem length_of_allSettled (calm : d.explode = none) {groups : List (List Number)}
    (settled : ∀ faces ∈ groups, d.Settled faces) :
    groups.length ≤ groups.flatten.length ∧ groups.flatten.length ≤ 2 * groups.length := by
  induction groups with
  | nil => simp
  | cons faces groups ih =>
    obtain ⟨first, others⟩ := List.forall_mem_cons.1 settled
    obtain ⟨low, high, -⟩ := length_of_settled calm first
    obtain ⟨lows, highs⟩ := ih others
    simp only [List.flatten_cons, List.length_append, List.length_cons]
    omega

theorem length_of_allows (calm : d.explode = none) {r : Roll} (allowed : d.Allows r) :
    d.count.toNat ≤ r.dice.length ∧ r.dice.length ≤ 2 * d.count.toNat := by
  obtain ⟨groups, length, settled, rfl⟩ := allowed
  obtain ⟨low, high⟩ := length_of_allSettled calm settled
  rw [length_dice_settle]
  omega

/-- If every throw leaves one die that counts, as many dice count as are thrown. -/
theorem length_kept_flatMap_fallen {groups : List (List Number)}
    (one : ∀ faces ∈ groups, (Die.kept (d.fallen faces)).length = 1) :
    (Die.kept (groups.flatMap d.fallen)).length = groups.length := by
  induction groups with
  | nil => rfl
  | cons faces groups ih =>
    obtain ⟨first, others⟩ := List.forall_mem_cons.1 one
    have rest := ih others
    simp only [Die.kept] at first rest ⊢
    rw [List.flatMap_cons, List.filter_append, List.length_append, first, rest, List.length_cons,
      Nat.add_comm]

theorem length_kept_settle {groups : List (List Number)} (length : groups.length = d.count.toNat)
    (one : ∀ faces ∈ groups, (Die.kept (d.fallen faces)).length = 1) :
    (Die.kept (d.settle groups).dice).length = d.remaining := by
  have kept := length_kept_flatMap_fallen one
  cases select : d.select with
  | none => simp [settle, remaining, select, kept, length]
  | some s => simp [settle, remaining, select, Selection.length_kept_apply, kept, length]

theorem length_kept_of_allows (calm : d.explode = none) {r : Roll} (allowed : d.Allows r) :
    (Die.kept r.dice).length = d.remaining := by
  obtain ⟨groups, length, settled, rfl⟩ := allowed
  refine length_kept_settle length fun faces mem => ?_
  exact (length_of_settled calm (settled faces mem)).2.2

/-! ## The total of a roll -/

/-- Of faces that the dice have, so many come to something between the bounds. -/
theorem sum_mem_bounds (plain : d.successes = none) {faces : List Number}
    (length : faces.length = d.remaining) (shown : ∀ face ∈ faces, Die.CanShow d.sides face) :
    Roll.sum faces ∈ d.bounds := by
  by_cases sideless : d.sides < 1
  · have zero : ∀ face ∈ faces, face.toInt = 0 := by
      simpa [Die.CanShow, sideless, Number.ext_iff] using shown
    have below : exactSum faces ≤ faces.length * 0 :=
      exactSum_le fun face mem => Int.le_of_eq (zero face mem)
    have above : faces.length * 0 ≤ exactSum faces :=
      le_exactSum fun face mem => Int.le_of_eq (zero face mem).symm
    have sign : Roll.OneSign faces := .inl fun face mem => Int.le_of_eq (zero face mem).symm
    have sum : exactSum faces = 0 := by omega
    rw [Roll.sum_eq_clamp sign, sum]
    simp only [bounds, plain, Option.isSome_none, Bool.false_eq_true, if_false, dif_pos sideless]
    exact ⟨Int.le_refl 0, Int.le_refl 0⟩
  · have real : ∀ face ∈ faces, 1 ≤ face.toInt ∧ face.toInt ≤ d.sides.toInt := by
      simpa [Die.CanShow, sideless, Number.le_iff] using shown
    have sign : Roll.OneSign faces :=
      .inl fun face mem => Int.le_trans (by decide) (real face mem).1
    have above := le_exactSum fun face mem => (real face mem).1
    have below := exactSum_le fun face mem => (real face mem).2
    rw [length] at above below
    rw [Roll.sum_eq_clamp sign]
    simp only [bounds, plain, Option.isSome_none, Bool.false_eq_true, if_false, dif_neg sideless]
    exact Interval.clamp_mem_between (by omega) below

theorem total_mem_bounds (calm : d.explode = none) {r : Roll} (allowed : d.Allows r)
    (shown : ∀ die ∈ r.dice, Die.CanShow die.sides die.face) : r.total ∈ d.bounds := by
  have kept := length_kept_of_allows calm allowed
  obtain ⟨groups, -, -, rfl⟩ := allowed
  cases successes : d.successes with
  | some c =>
    have count : ((Die.kept (d.settle groups).dice).map Die.face).countP c.holds ≤ d.remaining := by
      rw [← kept, ← List.length_map (f := Die.face)]
      exact List.countP_le_length
    simp only [Roll.total, settle, bounds, successes, Option.isSome_some, if_true] at count ⊢
    exact Interval.clamp_mem_between (Int.natCast_nonneg _) (Int.ofNat_le.2 count)
  | none =>
    have faces : ∀ face ∈ (Die.kept (d.settle groups).dice).map Die.face,
        Die.CanShow d.sides face := by
      intro face mem
      exact forall_mem_settle.1 shown face (mem_flatten_of_mem_kept mem)
    have total :
        (d.settle groups).total = Roll.sum ((Die.kept (d.settle groups).dice).map Die.face) := by
      simp [Roll.total, settle, successes]
    rw [total]
    exact sum_mem_bounds successes (by simpa using kept) faces

end Dice

/-! ## Expressions -/

theorem Expr.Allows.mem_bounds {e : Expr} {o : Outcome} (allowed : e.Allows o)
    (calm : ∀ d ∈ e.terms, d.explode = none)
    (shown : ∀ die ∈ o.dice, Die.CanShow die.sides die.face) : o.result ∈ e.bounds := by
  induction allowed with
  | number n => exact ⟨Int.le_refl n.toInt, Int.le_refl n.toInt⟩
  | @dice d r roll => exact Dice.total_mem_bounds (calm d (by simp [terms])) roll shown
  | join first second ihl ihr =>
    obtain ⟨calmLeft, calmRight⟩ := List.forall_mem_append.1 calm
    obtain ⟨shownLeft, shownRight⟩ := List.forall_mem_append.1 shown
    exact Interval.mem_join _ (ihl calmLeft shownLeft) (ihr calmRight shownRight)

theorem Expr.Allows.length_le_mostFaces {e : Expr} {o : Outcome} (allowed : e.Allows o)
    (calm : ∀ d ∈ e.terms, d.explode = none) : o.dice.length ≤ e.mostFaces := by
  induction allowed with
  | number n => exact Nat.le_refl 0
  | @dice d r roll =>
    exact (Dice.length_of_allows (calm d (by simp [terms])) roll).2
  | join first second ihl ihr =>
    obtain ⟨calmLeft, calmRight⟩ := List.forall_mem_append.1 calm
    rw [List.length_append]
    exact Nat.add_le_add (ihl calmLeft) (ihr calmRight)

/-! ## Evaluations -/

namespace Source

variable {σ : Type}

/-- Whatever gives the faces, an expression without explosions has an outcome within its bounds. Any
allowance of at least two faces a die is enough for it, and the rolls on record are those of the
terms, each with as many dice as are wanted or up to twice as many. -/
theorem evaluate_mem_bounds (next : σ → (sides : Number) → Number × σ) (e : Expr) (s : σ)
    (calm : ∀ d ∈ e.terms, d.explode = none)
    (real : ∀ s sides, Die.CanShow sides (next s sides).1) :
    ∃ o : Outcome, o.result ∈ e.bounds ∧ ∀ allowance, e.mostFaces ≤ allowance →
      let run := (limited next).evaluate e (allowance, s)
      run.value? = some o ∧ run.rolls.map Roll.term = e.terms ∧
        run.rolls.flatMap Roll.dice = o.dice ∧
          ∀ r ∈ run.rolls, r.term.count.toNat ≤ r.dice.length ∧
            r.dice.length ≤ 2 * r.term.count.toNat := by
  obtain ⟨o, t, completes⟩ :=
    exists_completes_limited (fun d mem _ => rests_of_calm next (calm d mem)) s
  obtain ⟨allowed, draws⟩ := (completes_evaluate_iff _).1 (completes 0)
  -- what the outcome has taken from the allowance is known before it is rolled
  have faces := allowed.length_le_mostFaces calm
  refine ⟨o, allowed.mem_bounds calm (forall_mem_of_draws_limited real draws), ?_⟩
  intro allowance enough
  have done := completes (allowance - o.dice.length)
  rw [Nat.add_sub_cancel' (Nat.le_trans faces enough)] at done
  obtain ⟨terms, dice, rolled⟩ := rolls_evaluate done
  refine ⟨done.1, terms, dice, fun r mem => ?_⟩
  have term : r.term ∈ e.terms := terms ▸ List.mem_map_of_mem mem
  exact Dice.length_of_allows (calm _ term) (rolled r mem)

/-- The best three of four dice, ones rolled once more, times what a small die leaves of 3. -/
def gamble : Expr :=
  .join .times
    (.dice { count := ⟨4, by decide⟩, sides := Number.clamp 6, reroll := some ⟨.equal, 1⟩,
             select := some ⟨.keep, .highest, Number.clamp 3⟩ })
    (.join .minus (.number (Number.clamp 3)) (.dice { count := 1, sides := Number.clamp 4 }))

theorem evaluate_mem_bounds_gamble :
    (gamble.bounds.low.toInt, gamble.bounds.high.toInt, gamble.mostFaces) = (-18, 36, 10) ∧
      ∃ o : Outcome, ((limited Generator.roll).evaluate gamble (10, 42)).value? = some o ∧
        o.result ∈ gamble.bounds := by
  refine ⟨by decide, ?_⟩
  obtain ⟨o, inside, enough⟩ :=
    evaluate_mem_bounds Generator.roll gamble 42 (by decide) Generator.canShow_roll
  exact ⟨o, (enough 10 (by decide)).1, inside⟩

end Source

end TabletopDice
