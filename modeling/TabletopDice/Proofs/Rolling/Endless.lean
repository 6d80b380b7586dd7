import TabletopDice.Proofs.Rolling.Stopping

/-!
# Rolls that never come to an end

A die whose every face explodes brings another one with it again and again, and no sequence of its
faces brings it to rest. `Dice.mayNeverEnd` tells which terms have such dice, and what it promises
is `Expr.mayNeverEnd_sound_and_exact`: where it raises no alarm, an evaluation that waits for a face
can always be brought to its end, and where it does, no answers bring it there, as long as nothing
is rolled once more.

A term that rolls every face once more takes two faces for each die and is done, exploding or not.
`Dice.mayNeverEnd` does not look at rerolls, so it raises a false alarm for such a term
(`Expr.mayNeverEnd_not_canGoOnForever_rerolledDie`). It is the only kind of false alarm:
`Expr.canGoOnForever_iff` says exactly which expressions can go on forever.
-/

set_option autoImplicit false

namespace TabletopDice

/-- A die that has shown nothing but exploding faces has come to rest only if its first face was
rolled once more. -/
theorem Dice.rerolls_of_settled {d : Dice} {first : Number} {more : List Number}
    (settled : d.Settled (first :: more))
    (explodes : ∀ face ∈ first :: more, d.explodes face = true) : d.rerolls first = true := by
  cases again : d.rerolls first with
  | true => rfl
  | false =>
    have chain : d.Chain (first :: more) := by simpa [Settled, again] using settled
    obtain ⟨earlier, last, same, -, calm⟩ := (d.chain_iff _).1 chain
    have explodesLast : d.explodes last = true := explodes last (by simp [same])
    rw [calm] at explodesLast
    cases explodesLast

/-- A term whose every face explodes is completed only by a die that is rolled once more, from the
first one on. -/
theorem Source.rerolls_first_of_completes {d : Dice} {faces rest : List Number} {o : Outcome}
    (endless : d.mayNeverEnd = true) (done : (answers.evaluate (.dice d)).Completes faces o rest) :
    ∃ first more, faces = first :: more ∧ d.rerolls first = true := by
  obtain ⟨wanted, goesOn⟩ := Dice.mayNeverEnd_iff.1 endless
  obtain ⟨allowed, taken, shown⟩ := completes_answers_iff.1 done
  obtain ⟨groups, length, settled, rfl⟩ := Expr.allows_dice_iff.1 allowed
  replace shown := Dice.forall_mem_settle.1 shown
  rw [Dice.map_face_settle] at taken
  cases groups with
  | nil => exact absurd length (Nat.ne_of_lt wanted)
  | cons thrown others =>
    obtain ⟨settledFirst, -⟩ := List.forall_mem_cons.1 settled
    cases thrown with
    | nil => exact settledFirst.elim
    | cons first more =>
      refine ⟨first, more ++ others.flatten ++ rest, by simpa using taken, ?_⟩
      refine Dice.rerolls_of_settled settledFirst ?_
      intro face mem
      exact goesOn face (shown face (List.mem_flatten.2 ⟨_, List.mem_cons_self, mem⟩))

namespace Expr

open Source

theorem not_completes_of_mayNeverEnd {e : Expr} {faces rest : List Number} {o : Outcome}
    (plain : ∀ d ∈ e.terms, d.reroll = none) (endless : e.mayNeverEnd = true) :
    ¬ (answers.evaluate e).Completes faces o rest := by
  intro done
  induction e generalizing faces rest o with
  | number n => cases endless
  | dice d =>
    obtain ⟨first, _, _, again⟩ := rerolls_first_of_completes endless done
    have noReroll : d.reroll = none := plain d (by simp [terms])
    rw [Dice.rerolls, noReroll] at again
    cases again
  | join op left right ihl ihr =>
    obtain ⟨plainLeft, plainRight⟩ := List.forall_mem_append.1 plain
    obtain ⟨a, u, b, first, second, -⟩ := completes_evaluate_join.1 done
    obtain endless | endless := Bool.or_eq_true_iff.1 endless
    · exact ihl plainLeft endless first
    · exact ihr plainRight endless second

/-- Where there is no alarm, an evaluation that waits for a face can be brought to its end. Where
there is one and no dice are rolled once more, no answers bring it to its end. -/
theorem mayNeverEnd_sound_and_exact (e : Expr) :
    (e.mayNeverEnd = false → ∀ faces, (answers.evaluate e).RunsOut faces [] →
        ∃ more o, (answers.evaluate e).Completes (faces ++ more) o []) ∧
      ((∀ d ∈ e.terms, d.reroll = none) → e.mayNeverEnd = true →
        ∀ faces o rest, ¬ (answers.evaluate e).Completes faces o rest) := by
  constructor
  · intro quiet faces waiting
    refine exists_completes_of_runsOut ?_ waiting
    intro d mem endless
    have alarm := mayNeverEnd_iff.2 ⟨d, mem, endless⟩
    rw [quiet] at alarm
    cases alarm
  · intro plain endless faces o rest
    exact not_completes_of_mayNeverEnd plain endless

/-! ## Going on forever -/

/-- There are answers after which the evaluation waits for a face and no further answers bring it to
its end. -/
def CanGoOnForever (e : Expr) : Prop :=
  ∃ faces, (answers.evaluate e).RunsOut faces [] ∧
    ∀ more o rest, ¬ (answers.evaluate e).Completes (faces ++ more) o rest

theorem exists_completes_of_not_canGoOnForever {e : Expr} (ends : ¬ e.CanGoOnForever) :
    ∃ faces o, (answers.evaluate e).Completes faces o [] := by
  obtain ⟨o, done⟩ | asks := completes_or_runsOut_nil e
  · exact ⟨[], o, done⟩
  · simp only [CanGoOnForever, not_exists, not_and, Classical.not_forall,
      Classical.not_not] at ends
    obtain ⟨more, o, rest, done⟩ := ends [] asks
    exact ⟨_, o, completes_answers_trim done⟩

/-- The first face of a term goes on forever if it stands and all faces explode. -/
theorem canGoOnForever_dice {d : Dice} (endless : d.mayNeverEnd = true)
    (stands : d.alwaysRerolls = false) : CanGoOnForever (.dice d) := by
  obtain ⟨wanted, goesOn⟩ := Dice.mayNeverEnd_iff.1 endless
  obtain ⟨face, shown, calm⟩ : ∃ face, Die.CanShow d.sides face ∧ d.rerolls face = false := by
    have notAll : ¬ ∀ face, Die.CanShow d.sides face → d.rerolls face = true := by
      rw [← Dice.alwaysRerolls_iff, stands]
      exact Bool.false_ne_true
    simpa using notAll
  refine ⟨[face], ?waiting, ?stuck⟩
  case waiting =>
    have unsettled : d.Unsettled [face] := by
      simpa [Dice.Unsettled, calm] using goesOn face shown
    have draws : answers.Draws [face] (d.showing [face]) [] :=
      draws_answers_showing.2 ⟨rfl, by simpa using shown⟩
    exact runsOut_evaluate_dice.2
      (runsOut_roll_iff.2 ⟨[], [face], wanted, by simp, unsettled, draws, rfl⟩)
  case stuck =>
    intro more o rest done
    obtain ⟨first, _, same, again⟩ := rerolls_first_of_completes endless done
    obtain ⟨rfl, -⟩ := List.cons.inj same
    rw [calm] at again
    cases again

theorem CanGoOnForever.left {o : Operator} {left right : Expr} (h : left.CanGoOnForever) :
    CanGoOnForever (.join o left right) := by
  obtain ⟨faces, waiting, stuck⟩ := h
  refine ⟨faces, runsOut_evaluate_join.2 (.inl waiting), ?_⟩
  intro more c rest done
  obtain ⟨a, u, b, first, -, -⟩ := completes_evaluate_join.1 done
  exact stuck more a u first

/-- A right operand that can go on forever is reached, or the left one goes on forever before it. -/
theorem CanGoOnForever.right {o : Operator} {left right : Expr} (h : right.CanGoOnForever) :
    CanGoOnForever (.join o left right) := by
  by_cases first : left.CanGoOnForever
  · exact first.left
  · obtain ⟨before, a, done⟩ := exists_completes_of_not_canGoOnForever first
    obtain ⟨faces, waiting, stuck⟩ := h
    have reached := completes_answers_append done faces
    refine ⟨before ++ faces, runsOut_evaluate_join.2 (.inr ⟨a, faces, reached, waiting⟩), ?_⟩
    intro more c rest whole
    obtain ⟨_, u, b, again, second, -⟩ := completes_evaluate_join.1 whole
    -- the left operand takes the same answers as before and leaves the others to the right one
    obtain ⟨-, rfl⟩ := again.unique (completes_answers_append reached more)
    exact stuck more b rest second

theorem canGoOnForever_of_mem_terms {e : Expr} {d : Dice} (mem : d ∈ e.terms)
    (endless : d.mayNeverEnd = true) (stands : d.alwaysRerolls = false) : e.CanGoOnForever := by
  induction e with
  | number n => cases mem
  | dice d =>
    obtain rfl := List.mem_singleton.1 mem
    exact canGoOnForever_dice endless stands
  | join o left right ihl ihr =>
    obtain mem | mem := List.mem_append.1 mem
    · exact (ihl mem).left
    · exact (ihr mem).right

/-- An expression can go on forever if and only if one of its terms has dice whose every face
explodes and some face of which stands. -/
theorem canGoOnForever_iff (e : Expr) :
    e.CanGoOnForever ↔ ∃ d ∈ e.terms, d.mayNeverEnd = true ∧ d.alwaysRerolls = false := by
  constructor
  · rintro ⟨faces, waiting, stuck⟩
    apply Classical.byContradiction
    intro absent
    have tame : ∀ d ∈ e.terms, d.mayNeverEnd = true → d.alwaysRerolls = true := by
      simpa using absent
    obtain ⟨more, o, done⟩ := exists_completes_of_runsOut tame waiting
    exact stuck more o [] done
  · rintro ⟨d, mem, endless, stands⟩
    exact canGoOnForever_of_mem_terms mem endless stands

/-- One six-sided die of which every face explodes and every face is rolled once more. -/
def rerolledDie : Dice :=
  { count := 1, sides := Number.clamp 6, reroll := some ⟨.atLeast, 1⟩,
    explode := some ⟨.atLeast, 1⟩ }

/-- The alarm is raised for a die that always comes to rest. -/
theorem mayNeverEnd_not_canGoOnForever_rerolledDie :
    mayNeverEnd (.dice rerolledDie) = true ∧ ¬ CanGoOnForever (.dice rerolledDie) := by
  refine ⟨by decide, ?_⟩
  rintro ⟨faces, waiting, stuck⟩
  have tame : ∀ d ∈ terms (.dice rerolledDie), d.mayNeverEnd = true → d.alwaysRerolls = true := by
    intro d mem _
    obtain rfl := List.mem_singleton.1 mem
    decide
  obtain ⟨more, o, done⟩ := exists_completes_of_runsOut tame waiting
  exact stuck more o [] done

end Expr

end TabletopDice
