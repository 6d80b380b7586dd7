import TabletopDice.Proofs.Rolling.Consumption
import TabletopDice.Proofs.Rolling.Lines
import TabletopDice.Proofs.Rolling.Narration

/-!
# What the written record tells

The record of an evaluation is enough to know what was drawn, whether or not the evaluation came to
an end: the faces that its lines tell of are the faces that the source has given, in their order and
no others. This is a property that computations have one after another (`Rolling.Tells.bind`), and
an event has it because its face goes on record before anything else is drawn
(`Rolling.Tells.draw`).

Of an evaluation that comes to an end, the record also shows how the result was worked out: there is
a line for every part of the expression, those of the operands before that of the operation, and the
values on them are an account of the outcome (`Expr.Accounts`).
-/

set_option autoImplicit false

namespace TabletopDice

/-- The faces that the lines of a run tell of, in the order of the lines. -/
def Run.toldFaces {σ α : Type} (run : Run σ α) : List Number := run.lines.filterMap Line.face?

/-- The lines of a run that give the values of an expression and its parts. -/
def Run.verdicts {σ α : Type} (run : Run σ α) : List Line := run.lines.filter Line.isVerdict

/-! ## Faces -/

/-- What a record tells of can be taken from it before it is written down. -/
theorem Run.toldFaces_eq {σ α : Type} (run : Run σ α) :
    run.toldFaces = run.log.filterMap Record.face? := by
  rw [toldFaces, lines, List.filterMap_map]
  exact congrArg (List.filterMap · run.log) (funext Record.face?_line)

namespace Rolling

variable {σ α β : Type} {src : Source σ}

/-- The faces on record are those that the source gives, whether or not there is a value. -/
def Tells (src : Source σ) (m : Rolling σ α) : Prop :=
  ∀ s, ∃ dice, src.Draws s dice (m s).state ∧ dice.map Die.face = (m s).toldFaces

theorem tells_pure (a : α) : Tells src (pure a) := by
  intro s
  exact ⟨[], rfl, rfl⟩

theorem tells_record {entries : List Record} (faceless : ∀ r ∈ entries, r.face? = none) :
    Tells src (record entries) := by
  intro s
  refine ⟨[], rfl, ?_⟩
  rw [Run.toldFaces_eq]
  exact (List.filterMap_eq_nil_iff.2 faceless).symm

theorem Tells.bind {m : Rolling σ α} {f : α → Rolling σ β} (first : Tells src m)
    (second : ∀ a, Tells src (f a)) : Tells src (m >>= f) := by
  intro s
  obtain ⟨dice, drawn, told⟩ := first s
  rw [Run.toldFaces_eq] at told
  simp only [Run.toldFaces_eq, state_bind, log_bind, List.filterMap_append, ← told]
  cases value : (m s).value? with
  | none => exact ⟨dice, drawn, by simp⟩
  | some a =>
    obtain ⟨more, rest, toldMore⟩ := second a (m s).state
    rw [Run.toldFaces_eq] at toldMore
    refine ⟨dice ++ more, (src.draws_append _ _ _ _).2 ⟨_, drawn, rest⟩, ?_⟩
    rw [List.map_append, toldMore]
    rfl

/-- An event: a face is drawn and goes on record. -/
theorem Tells.draw {sides : Number} {event : Number → Record} {f : Number → Rolling σ α}
    (named : ∀ face, (event face).face? = some face) (after : ∀ face, Tells src (f face)) :
    Tells src (do let face ← src.drawFace sides; record [event face]; f face) := by
  intro s
  cases drawn : src.draw s sides with
  | none =>
    rw [Source.drawFace_bind_apply_none src _ drawn]
    exact ⟨[], rfl, rfl⟩
  | some next =>
    obtain ⟨face, t⟩ := next
    obtain ⟨dice, rest, told⟩ := after face t
    rw [Run.toldFaces_eq] at told
    rw [Source.drawFace_bind_apply_some src _ drawn, record_bind_apply, Run.toldFaces_eq]
    refine ⟨{ face, sides } :: dice, ⟨t, drawn, rest⟩, ?_⟩
    simp [told, named]

end Rolling

namespace Dice

/-- What closes a roll names no face. -/
theorem face?_of_mem_closing {d : Dice} {r : Roll} : ∀ e ∈ d.closing r, e.face? = none := by
  intro e mem
  simp only [closing, List.mem_append, Option.mem_toList, Option.map_eq_some_iff,
    List.mem_singleton] at mem
  obtain ⟨k, -, rfl⟩ | rfl := mem
  · rfl
  · rfl

end Dice

namespace Source

variable {σ : Type} (src : Source σ) (d : Dice)

open Rolling

theorem tells_narratedChain : Tells src (src.narratedChain d) := by
  intro s
  induction s using src.inductionOn with
  | step s ih =>
    rw [narratedChain]
    split
    case h_1 dry => exact ⟨[], rfl, rfl⟩
    case h_2 face t drawn =>
      by_cases explodes : d.explodes face = true
      · -- the chain goes on, and what it tells stands behind this face
        obtain ⟨dice, rest, told⟩ := ih _ _ _ drawn
        rw [Run.toldFaces_eq] at told
        rw [if_pos explodes, Run.toldFaces_eq]
        refine ⟨{ face, sides := d.sides } :: dice, ⟨t, drawn, rest⟩, ?_⟩
        simp [told, Record.face?]
      · rw [if_neg explodes, Run.toldFaces_eq]
        exact ⟨[{ face, sides := d.sides }], ⟨t, drawn, rfl⟩, rfl⟩

theorem tells_narratedThrow : Tells src (src.narratedThrow d) := by
  refine Tells.draw (fun _ => rfl) ?_
  intro face
  split
  · refine Tells.draw (fun _ => rfl) ?_
    intro again
    exact tells_pure _
  · split
    · refine (tells_narratedChain src d).bind ?_
      intro more
      exact tells_pure _
    · exact tells_pure _

theorem tells_narratedThrows (n : Nat) : Tells src (src.narratedThrows d n) := by
  induction n with
  | zero => exact tells_pure []
  | succ n ih =>
    refine (tells_narratedThrow src d).bind ?_
    intro first
    refine ih.bind ?_
    intro others
    exact tells_pure _

theorem tells_roll : Tells src (src.roll d) := by
  rw [roll_eq_narratedRoll]
  refine (tells_narratedThrows src d _).bind ?_
  intro dice
  refine (tells_record Dice.face?_of_mem_closing).bind ?_
  intro _
  exact tells_pure _

theorem tells_conclude (part : Expr) (o : Outcome) : Tells src (conclude part o) := by
  refine (tells_record ?_).bind ?_
  · exact List.forall_mem_singleton.2 rfl
  · intro _
    exact tells_pure o

/-- Whatever an evaluation draws goes on record, and nothing else does. -/
theorem tells_evaluate (e : Expr) : Tells src (src.evaluate e) := by
  induction e with
  | number n => exact tells_conclude src _ _
  | dice d =>
    refine (tells_roll src d).bind ?_
    intro r
    exact tells_conclude src _ _
  | join o left right ihl ihr =>
    refine ihl.bind ?_
    intro a
    refine ihr.bind ?_
    intro b
    exact tells_conclude src _ _

end Source

/-! ## Values -/

namespace Expr

/-- The expression and all its parts: those of the left operand, those of the right one, and the
operation behind them. -/
def parts : Expr → List Expr
  | .number n => [.number n]
  | .dice d => [.dice d]
  | .join o left right => left.parts ++ right.parts ++ [.join o left right]

/-- How an outcome is worked out, as the value of each part: that of an operation is what it makes
of the values of its operands. -/
inductive Accounts : Expr → Outcome → List (Expr × Number) → Prop
  | number (n : Number) : Accounts (.number n) { dice := [], result := n } [(.number n, n)]
  | dice {d : Dice} {r : Roll} (roll : d.Allows r) :
      Accounts (.dice d) { dice := r.dice, result := r.total } [(.dice d, r.total)]
  | join {o : Operator} {left right : Expr} {a b : Outcome} {first second : List (Expr × Number)}
      (before : Accounts left a first) (after : Accounts right b second) :
      Accounts (.join o left right)
        { dice := a.dice ++ b.dice, result := o.apply a.result b.result }
        (first ++ second ++ [(.join o left right, o.apply a.result b.result)])

/-- There is one value for every part. -/
theorem Accounts.map_fst {e : Expr} {o : Outcome} {account : List (Expr × Number)}
    (h : e.Accounts o account) : account.map Prod.fst = e.parts := by
  induction h with
  | number n => rfl
  | dice roll => rfl
  | join before after ihl ihr => simp [parts, ihl, ihr]

theorem Accounts.getLast?_eq {e : Expr} {o : Outcome} {account : List (Expr × Number)}
    (h : e.Accounts o account) : account.getLast? = some (e, o.result) := by
  cases h with
  | number n => rfl
  | dice roll => rfl
  | join before after => simp

end Expr

namespace Rolling

variable {σ α β : Type}

theorem verdicts_bind {m : Rolling σ α} {f : α → Rolling σ β} {s t : σ} {a : α}
    (done : m.Completes s a t) : ((m >>= f) s).verdicts = (m s).verdicts ++ (f a t).verdicts := by
  obtain ⟨value, rfl⟩ := done
  simp [Run.verdicts, Run.lines, log_bind, value]

end Rolling

/-- A run without a value on record has no line with one. -/
theorem Run.verdicts_eq_nil {σ α : Type} {run : Run σ α}
    (events : ∀ r ∈ run.log, ∀ part value, r ≠ .evaluated part value) : run.verdicts = [] := by
  rw [verdicts, lines, List.filter_eq_nil_iff]
  intro line mem
  obtain ⟨r, here, rfl⟩ := List.mem_map.1 mem
  intro verdict
  obtain ⟨part, value, same⟩ := (Record.isVerdict_line r).1 verdict
  exact events r here part value same

namespace Source

variable {σ : Type} {src : Source σ}

theorem verdicts_throwAll (d : Dice) (s : σ) : (src.throwAll d s).verdicts = [] := by
  apply Run.verdicts_eq_nil
  intro r mem part value
  obtain ⟨faces, -, here⟩ := List.mem_flatMap.1 mem
  cases faces with
  | nil => cases here
  | cons first more =>
    simp only [Dice.recorded, List.mem_cons, List.mem_map] at here
    obtain rfl | ⟨face, -, rfl⟩ := here
    · simp
    · split <;> simp

theorem verdicts_roll {d : Dice} {s t : σ} {r : Roll} (done : (src.roll d).Completes s r t) :
    (src.roll d s).verdicts = [] := by
  obtain ⟨groups, u, thrown, rest⟩ := Rolling.completes_bind.1 done
  rw [roll, Rolling.verdicts_bind thrown, verdicts_throwAll, List.nil_append]
  apply Run.verdicts_eq_nil
  intro e mem part value
  rw [Rolling.record_bind_apply] at mem
  simp only [Rolling.pure_apply, List.append_nil, Dice.closing, List.mem_append,
    Option.mem_toList, Option.map_eq_some_iff, List.mem_singleton] at mem
  obtain ⟨k, -, rfl⟩ | rfl := mem
  · simp
  · simp

theorem verdicts_conclude (part : Expr) (o : Outcome) (s : σ) :
    (conclude part o s : Run σ Outcome).verdicts = [(Record.evaluated part o.result).line] := rfl

/-- The values on record are an account of the outcome. -/
theorem verdicts_evaluate {e : Expr} {s t : σ} {o : Outcome}
    (done : (src.evaluate e).Completes s o t) :
    ∃ account, e.Accounts o account ∧
      (src.evaluate e s).verdicts =
        account.map fun entry => (.evaluated entry.1 entry.2 : Record).line := by
  induction e generalizing s t o with
  | number n =>
    obtain ⟨rfl, -⟩ := completes_conclude.1 done
    exact ⟨_, .number n, verdicts_conclude _ _ s⟩
  | dice d =>
    obtain ⟨r, u, rolled, ended⟩ := Rolling.completes_bind.1 done
    obtain ⟨rfl, -⟩ := completes_conclude.1 ended
    refine ⟨_, .dice (src.completes_roll_iff.1 rolled).1, ?_⟩
    rw [evaluate, Rolling.verdicts_bind rolled, verdicts_roll rolled, verdicts_conclude]
    rfl
  | join op left right ihl ihr =>
    obtain ⟨a, u, b, first, second, rfl⟩ := completes_evaluate_join.1 done
    obtain ⟨before, accountsLeft, linesLeft⟩ := ihl first
    obtain ⟨after, accountsRight, linesRight⟩ := ihr second
    refine ⟨_, .join accountsLeft accountsRight, ?_⟩
    rw [evaluate, Rolling.verdicts_bind first, Rolling.verdicts_bind second, verdicts_conclude,
      linesLeft, linesRight]
    simp

/-- The written record of an evaluation over a list of faces tells of the faces of the outcome, in
their order, or of all faces of the list where they were not enough for one. With an outcome, it
also gives the value of every part of the expression, the operands before the operation, each with
what the part is written as; the value of an operation is what it makes of the values of its
operands, and the last value is the result. -/
theorem evaluate_ofList_tells (e : Expr) (faces : List Number) :
    match (ofList.evaluate e faces).value? with
    | some o =>
      (ofList.evaluate e faces).toldFaces = o.dice.map Die.face ∧
        ∃ account, e.Accounts o account ∧ account.map Prod.fst = e.parts ∧
          account.getLast? = some (e, o.result) ∧
          (ofList.evaluate e faces).verdicts = account.map fun (part, value) =>
            ⟨.debug, "evaluated ".toList ++ part.text ++ " to ".toList ++ value.text⟩
    | none => (ofList.evaluate e faces).toldFaces = faces := by
  obtain ⟨dice, drawn, told⟩ := tells_evaluate ofList e faces
  have all := (draws_ofList _ _ _).1 drawn
  split
  case h_1 o value =>
    have done : (ofList.evaluate e).Completes faces o _ := ⟨value, rfl⟩
    have taken := (completes_evaluate_ofList_iff.1 done).2
    obtain ⟨account, accounts, lines⟩ := verdicts_evaluate done
    refine ⟨?_, account, accounts, accounts.map_fst, accounts.getLast?_eq, lines⟩
    rw [← told]
    exact List.append_cancel_right (all.symm.trans taken)
  case h_2 value =>
    have out : (ofList.evaluate e).RunsOut faces _ := ⟨value, rfl⟩
    rw [eq_nil_of_runsOut_ofList out, List.append_nil] at all
    rw [← told]
    exact all.symm

end Source

end TabletopDice
