import TabletopDice.Proofs.Rolling.Answers

/-!
# Bringing a roll to its end

However far a roll has come, some faces bring it to its end, unless its dice leave no choice. A die
that waits for a face needs one that does not explode. If all its faces do, it comes to rest only
by being rolled once more, because the face that takes the place of the first one is not asked
whether it explodes (`Dice.CanStop`). With such faces for the die that waits, and for all dice that
are still to come, the evaluation is completed (`exists_completes_of_runsOut`).
-/

set_option autoImplicit false

namespace TabletopDice

namespace Dice

/-- Whether no face of the dice stands: every one is rolled once more. -/
def alwaysRerolls (d : Dice) : Bool := d.reroll.any (·.alwaysHolds d.sides)

theorem alwaysRerolls_iff {d : Dice} :
    d.alwaysRerolls = true ↔ ∀ face, Die.CanShow d.sides face → d.rerolls face = true :=
  Condition.any_alwaysHolds_iff

theorem mayNeverEnd_iff {d : Dice} :
    d.mayNeverEnd = true ↔
      0 < d.count.toNat ∧ ∀ face, Die.CanShow d.sides face → d.explodes face = true := by
  rw [mayNeverEnd, Bool.and_eq_true, decide_eq_true_eq,
    Condition.any_alwaysHolds_iff]
  rfl

/-- A die of the term can be brought to rest: it takes two faces whatever they are, or it has a face
that does not explode. -/
def CanStop (d : Dice) : Prop :=
  d.alwaysRerolls = true ∨ ∃ face, Die.CanShow d.sides face ∧ d.explodes face = false

theorem canStop_of_mayNeverEnd {d : Dice} (wanted : 0 < d.count.toNat)
    (tame : d.mayNeverEnd = true → d.alwaysRerolls = true) : d.CanStop := by
  by_cases goesOn : ∀ face, Die.CanShow d.sides face → d.explodes face = true
  · exact .inl (tame (mayNeverEnd_iff.2 ⟨wanted, goesOn⟩))
  · exact .inr (by simpa using goesOn)

theorem settled_or_unsettled (d : Dice) (face : Number) :
    d.Settled [face] ∨ d.Unsettled [face] := by
  cases again : d.rerolls face <;> cases explodes : d.explodes face <;>
    simp [Settled, Unsettled, Chain, again, explodes]

/-- One more face is enough for a die that has begun to roll. -/
theorem exists_settled_cons {d : Dice} {first : Number} {earlier : List Number} (ends : d.CanStop)
    (unsettled : d.Unsettled (first :: earlier)) (shown : Die.CanShow d.sides first) :
    ∃ face, Die.CanShow d.sides face ∧ d.Settled (first :: (earlier ++ [face])) := by
  cases again : d.rerolls first with
  | true =>
    obtain ⟨face, here⟩ := Die.exists_canShow d.sides
    obtain rfl : earlier = [] := by simpa [Unsettled, again] using unsettled
    exact ⟨face, here, by simp [Settled, again]⟩
  | false =>
    have explodes : ∀ face ∈ first :: earlier, d.explodes face = true := by
      simpa [Unsettled, again] using unsettled
    -- the first face stands, so it is not the rerolls that can stop the die
    obtain all | ⟨face, here, calm⟩ := ends
    · have rerolled : d.rerolls first = true := alwaysRerolls_iff.1 all first shown
      rw [again] at rerolled
      cases rerolled
    · refine ⟨face, here, ?_⟩
      have chain : d.Chain (first :: (earlier ++ [face])) :=
        (d.chain_iff _).2 ⟨first :: earlier, face, rfl, explodes, calm⟩
      simpa [Settled, again] using chain

theorem exists_settled_append {d : Dice} {faces : List Number} (ends : d.CanStop)
    (unsettled : d.Unsettled faces) (shown : ∀ face ∈ faces, Die.CanShow d.sides face) :
    ∃ more, (∀ face ∈ more, Die.CanShow d.sides face) ∧ d.Settled (faces ++ more) := by
  cases faces with
  | cons first earlier =>
    obtain ⟨face, here, settled⟩ := exists_settled_cons ends unsettled (shown first (by simp))
    exact ⟨[face], by simpa using here, settled⟩
  | nil =>
    -- the first face may be all that it needs; if it is not, the die has begun to roll
    obtain ⟨first, here⟩ := Die.exists_canShow d.sides
    obtain settled | unsettled := d.settled_or_unsettled first
    · exact ⟨[first], by simpa using here, settled⟩
    · obtain ⟨face, after, settled⟩ := exists_settled_cons ends unsettled here
      exact ⟨[first, face], by simpa using ⟨here, after⟩, settled⟩

theorem exists_settled_groups {d : Dice} (ends : d.CanStop) (n : Nat) :
    ∃ groups : List (List Number), groups.length = n ∧ (∀ faces ∈ groups, d.Settled faces) ∧
      ∀ face ∈ groups.flatten, Die.CanShow d.sides face := by
  obtain ⟨faces, shown, settled⟩ :=
    exists_settled_append ends (show d.Unsettled [] from trivial) (by simp)
  refine ⟨List.replicate n faces, List.length_replicate, ?_, ?_⟩
  · intro group mem
    exact List.eq_of_mem_replicate mem ▸ settled
  · intro face mem
    obtain ⟨group, within, mem⟩ := List.mem_flatten.1 mem
    exact shown face (List.eq_of_mem_replicate within ▸ mem)

end Dice

namespace Expr

/-- The dice terms of an expression, in the order in which they are rolled. -/
def terms : Expr → List Dice
  | .number _ => []
  | .dice d => [d]
  | .join _ left right => left.terms ++ right.terms

theorem mayNeverEnd_iff {e : Expr} :
    e.mayNeverEnd = true ↔ ∃ d ∈ e.terms, d.mayNeverEnd = true := by
  induction e with
  | number n => simp [mayNeverEnd, terms]
  | dice d => simp [mayNeverEnd, terms]
  | join o left right ihl ihr => simp [mayNeverEnd, terms, ihl, ihr, or_and_right, exists_or]

end Expr

namespace Source

theorem completes_answers_dice {d : Dice} {groups : List (List Number)}
    (length : groups.length = d.count.toNat) (settled : ∀ faces ∈ groups, d.Settled faces)
    (shown : ∀ face ∈ groups.flatten, Die.CanShow d.sides face) :
    ∃ o, (answers.evaluate (.dice d)).Completes groups.flatten o [] := by
  have allowed := Expr.allows_dice_iff.2 ⟨groups, length, settled, rfl⟩
  refine ⟨_, completes_answers_iff.2 ⟨allowed, ?faces, ?onDice⟩⟩
  case faces => rw [Dice.map_face_settle, List.append_nil]
  case onDice => exact Dice.forall_mem_settle.2 shown

/-- A dice term is brought to its end by answers for the die that waits for one and for each of the
dice that are still to come. -/
theorem exists_completes_dice {d : Dice} {faces : List Number}
    (tame : d.mayNeverEnd = true → d.alwaysRerolls = true)
    (waiting : (answers.evaluate (.dice d)).RunsOut faces []) :
    ∃ more o, (answers.evaluate (.dice d)).Completes (faces ++ more) o [] := by
  obtain ⟨before, last, fewer, settled, unsettled, draws, -⟩ :=
    runsOut_roll_iff.1 (runsOut_evaluate_dice.1 waiting)
  obtain ⟨taken, shown⟩ := draws_answers_showing.1 draws
  have shownLast := (List.forall_mem_append.1 shown).2
  have ends := Dice.canStop_of_mayNeverEnd (Nat.lt_of_le_of_lt (Nat.zero_le _) fewer) tame
  obtain ⟨rest, shownRest, settledLast⟩ := Dice.exists_settled_append ends unsettled shownLast
  obtain ⟨others, length, settledOthers, shownOthers⟩ :=
    Dice.exists_settled_groups ends (d.count.toNat - before.length - 1)
  have whole : (before ++ (last ++ rest) :: others).flatten = faces ++ (rest ++ others.flatten) := by
    simp [taken]
  refine ⟨rest ++ others.flatten, ?_⟩
  rw [← whole]
  refine completes_answers_dice ?_ ?_ ?_
  · rw [List.length_append, List.length_cons]
    omega
  · exact List.forall_mem_append.2 ⟨settled, List.forall_mem_cons.2 ⟨settledLast, settledOthers⟩⟩
  · rw [whole, taken, List.append_nil]
    exact List.forall_mem_append.2 ⟨shown, List.forall_mem_append.2 ⟨shownRest, shownOthers⟩⟩

theorem exists_completes_of_runsOut {e : Expr} {faces : List Number}
    (tame : ∀ d ∈ e.terms, d.mayNeverEnd = true → d.alwaysRerolls = true)
    (waiting : (answers.evaluate e).RunsOut faces []) :
    ∃ more o, (answers.evaluate e).Completes (faces ++ more) o [] := by
  induction e generalizing faces with
  | number n => exact absurd waiting not_runsOut_conclude
  | dice d => exact exists_completes_dice (tame d (by simp [Expr.terms])) waiting
  | join o left right ihl ihr =>
    obtain ⟨tameLeft, tameRight⟩ := List.forall_mem_append.1 tame
    obtain first | ⟨a, u, first, second⟩ := runsOut_evaluate_join.1 waiting
    · obtain ⟨more, a, before⟩ := ihl tameLeft first
      -- the right operand has not been begun: it has its outcome without dice, or asks for one
      obtain ⟨others, b, after⟩ : ∃ others b, (answers.evaluate right).Completes others b [] := by
        obtain ⟨b, done⟩ | asks := completes_or_runsOut_nil right
        · exact ⟨[], b, done⟩
        · exact ihr tameRight asks
      refine ⟨more ++ others, _, completes_evaluate_join.2 ⟨a, others, b, ?_, after, rfl⟩⟩
      rw [← List.append_assoc]
      exact completes_answers_append before others
    · obtain ⟨more, b, after⟩ := ihr tameRight second
      have before := completes_answers_append first more
      exact ⟨more, _, completes_evaluate_join.2 ⟨a, u ++ more, b, before, after, rfl⟩⟩

end Source

end TabletopDice
