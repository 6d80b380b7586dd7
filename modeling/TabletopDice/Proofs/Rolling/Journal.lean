import TabletopDice.Proofs.Rolling.Stopping

/-!
# The rolls on record

The record of a run has an entry for every dice term whose dice have all fallen, with the term and
its dice. Of an evaluation that comes to an end these entries tell how its outcome came about: they
are the rolls of the terms of the expression, one for each and in the order in which the terms are
written, each of them is a roll that its term allows, and their dice one after the other are the dice
of the outcome (`Source.rolls_evaluate`).
-/

set_option autoImplicit false

namespace TabletopDice

/-- The roll that a record is about, where all dice of a term had fallen. -/
def Record.roll? : Record → Option Roll
  | .finished roll => some roll
  | _ => none

/-- The rolls on record, oldest first. -/
def Run.rolls {σ α : Type} (run : Run σ α) : List Roll := run.log.filterMap Record.roll?

theorem Rolling.rolls_bind {σ α β : Type} {m : Rolling σ α} {f : α → Rolling σ β} {s t : σ} {a : α}
    (done : m.Completes s a t) : ((m >>= f) s).rolls = (m s).rolls ++ (f a t).rolls := by
  obtain ⟨value, rfl⟩ := done
  simp [Run.rolls, log_bind, value]

/-- No roll is on record before all dice of the term have fallen. -/
theorem Dice.filterMap_roll?_recorded (d : Dice) (faces : List Number) :
    (d.recorded faces).filterMap Record.roll? = [] := by
  cases faces with
  | nil => rfl
  | cons first more =>
    rw [List.filterMap_eq_nil_iff]
    intro r mem
    simp only [recorded, List.mem_cons, List.mem_map] at mem
    obtain rfl | ⟨face, -, rfl⟩ := mem
    · rfl
    · split <;> rfl

theorem Dice.filterMap_roll?_closing (d : Dice) (r : Roll) :
    (d.closing r).filterMap Record.roll? = [r] := by
  unfold closing
  cases d.select <;> rfl

namespace Source

variable {σ : Type} {src : Source σ}

theorem rolls_throwAll (d : Dice) (s : σ) : (src.throwAll d s).rolls = [] := by
  simp [Run.rolls, throwAll, List.filterMap_flatMap, Dice.filterMap_roll?_recorded]

theorem rolls_roll {d : Dice} {s t : σ} {r : Roll} (done : (src.roll d).Completes s r t) :
    (src.roll d s).rolls = [r] := by
  obtain ⟨groups, u, thrown, rest⟩ := Rolling.completes_bind.1 done
  obtain ⟨_, v, recorded, same⟩ := Rolling.completes_bind.1 rest
  obtain ⟨rfl, -⟩ := Rolling.completes_pure.1 same
  rw [roll, Rolling.rolls_bind thrown, rolls_throwAll, Rolling.rolls_bind recorded]
  simpa [Run.rolls] using d.filterMap_roll?_closing (d.settle groups)

theorem rolls_conclude (part : Expr) (o : Outcome) (s : σ) :
    (conclude part o s : Run σ Outcome).rolls = [] := rfl

theorem rolls_evaluate_dice {d : Dice} {s t : σ} {r : Roll} (done : (src.roll d).Completes s r t) :
    (src.evaluate (.dice d) s).rolls = [r] := by
  rw [evaluate, Rolling.rolls_bind done, rolls_roll done, rolls_conclude, List.append_nil]

theorem rolls_evaluate_join {op : Operator} {left right : Expr} {s t u : σ} {a b : Outcome}
    (first : (src.evaluate left).Completes s a t) (second : (src.evaluate right).Completes t b u) :
    (src.evaluate (.join op left right) s).rolls =
      (src.evaluate left s).rolls ++ (src.evaluate right t).rolls := by
  rw [evaluate, Rolling.rolls_bind first, Rolling.rolls_bind second, rolls_conclude,
    List.append_nil]

/-- The rolls on record are those of the terms of the expression. -/
theorem rolls_evaluate {e : Expr} {s t : σ} {o : Outcome} (done : (src.evaluate e).Completes s o t) :
    (src.evaluate e s).rolls.map Roll.term = e.terms ∧
      (src.evaluate e s).rolls.flatMap Roll.dice = o.dice ∧
        ∀ r ∈ (src.evaluate e s).rolls, r.term.Allows r := by
  induction e generalizing s t o with
  | number n =>
    obtain ⟨rfl, -⟩ := completes_conclude.1 done
    rw [evaluate, rolls_conclude]
    simp [Expr.terms]
  | dice d =>
    obtain ⟨r, u, rolled, ended⟩ := Rolling.completes_bind.1 done
    obtain ⟨rfl, -⟩ := completes_conclude.1 ended
    have allowed := (src.completes_roll_iff.1 rolled).1
    obtain ⟨groups, -, -, rfl⟩ := id allowed
    rw [rolls_evaluate_dice rolled]
    exact ⟨rfl, by simp, List.forall_mem_singleton.2 allowed⟩
  | join op left right ihl ihr =>
    obtain ⟨a, u, b, first, second, rfl⟩ := completes_evaluate_join.1 done
    obtain ⟨termsLeft, diceLeft, allowedLeft⟩ := ihl first
    obtain ⟨termsRight, diceRight, allowedRight⟩ := ihr second
    rw [rolls_evaluate_join first second]
    refine ⟨?_, ?_, List.forall_mem_append.2 ⟨allowedLeft, allowedRight⟩⟩
    · rw [List.map_append, termsLeft, termsRight, Expr.terms]
    · rw [List.flatMap_append, diceLeft, diceRight]

end Source

end TabletopDice
