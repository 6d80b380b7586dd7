import TabletopDice.Proofs.CommandLine.Typing
import TabletopDice.Proofs.Notation.Blanks
import TabletopDice.Proofs.Rolling.Chance

/-!
# The same expression, given and typed in

An expression may stand behind the program's name or be typed in, and the program treats it alike
(`CommandLine.run_given_typed`). Three things come together here. What can be lost on the way is a
carriage return at the end of a line, and that is a blank behind an expression. A run fails because
of the text or not at all, since dice that are not refused come to rest with every supply that
covers them. And what a run has shown of an expression reads back as that expression, so that a
further run of it does the same again, if nothing of it is left to chance.

How a run ends, and that it can be had again, are statements about every supply that covers the dice
(`Source.Covers`), and the generator is one of them. How many faces a run takes is only known when
it is over. The statements are therefore about every allowance from some number on.
-/

set_option autoImplicit false

namespace TabletopDice

namespace CommandLine

theorem ofText_dropReturn_eq_ok_iff {t : Text} {e : Expr} :
    Expr.ofText (dropReturn t) = .ok e ↔ Expr.ofText t = .ok e := by
  unfold dropReturn
  split
  · rename_i last
    obtain ⟨u, rfl⟩ := List.getLast?_eq_some_iff.1 last
    rw [List.dropLast_concat]
    exact (Notation.ofText_append_blank_eq_ok_iff (by decide)).symm
  · rfl

/-- What arrives of a text that is typed in is read as the text is. -/
theorem exists_typedIn {t : Text} {waiting : List UInt8} (single : '\n' ∉ t)
    (typed : Typed t waiting) :
    ∃ u, typedIn waiting = .ok u ∧ ∀ e, Expr.ofText u = .ok e ↔ Expr.ofText t = .ok e := by
  obtain whole | dropped := typedIn_of_typed single typed
  · exact ⟨t, whole, fun e => Iff.rfl⟩
  · exact ⟨dropReturn t, dropped, fun e => ofText_dropReturn_eq_ok_iff⟩

/-- The run has failed because the text is no expression. -/
def Report.Refused (r : Report) : Prop := ∃ refusal, r.failure? = some (.notAnExpression refusal)

/-- The expression as the run has shown it: what stands on the first line, behind the label. -/
def Report.shown (r : Report) : Text := (r.printed.drop "Parsed: ".length).takeWhile (· ≠ '\n')

section Answers

variable {σ : Type} {src : Source σ} {s : σ} {t u : Text} {e : Expr}

theorem answer_of_ok (read : Expr.ofText t = .ok e) : answer src s (.ok t) = rollAndShow src s e := by
  simp [answer, read]

theorem answer_of_error {r : Refusal} (read : Expr.ofText t = .error r) :
    answer src s (.ok t) = ⟨[], some (.notAnExpression r)⟩ := by
  simp [answer, read]

theorem not_refused_rollAndShow : ¬ (rollAndShow src s e).Refused := by
  rintro ⟨r, failed⟩
  unfold rollAndShow at failed
  split at failed
  · cases failed
  · split at failed <;> cases failed

theorem refused_answer_iff : (answer src s (.ok t)).Refused ↔ ∀ e, Expr.ofText t ≠ .ok e := by
  cases read : Expr.ofText t with
  | ok e => simp [answer_of_ok read, not_refused_rollAndShow]
  | error r => simp [answer_of_error read, Report.Refused]

theorem rollAndShow_of_completes {o : Outcome} {after : σ} (tame : e.mayNeverEnd = false)
    (done : (src.evaluate e).Completes s o after) :
    rollAndShow src s e = ⟨preview e ++ summary o, none⟩ := by
  simp [rollAndShow, tame, done.1]

/-- Texts that are read as the same expression, or both as none, are answered alike. -/
theorem answer_congr (same : ∀ e, Expr.ofText u = .ok e ↔ Expr.ofText t = .ok e) :
    (answer src s (.ok u)).exitCode = (answer src s (.ok t)).exitCode ∧
      (answer src s (.ok u)).printed = (answer src s (.ok t)).printed := by
  cases read : Expr.ofText t with
  | ok e =>
    rw [answer_of_ok read, answer_of_ok ((same e).2 read)]
    exact ⟨rfl, rfl⟩
  | error r =>
    cases other : Expr.ofText u with
    | ok e =>
      rw [(same e).1 other] at read
      cases read
    | error r' =>
      rw [answer_of_error read, answer_of_error other]
      exact ⟨rfl, rfl⟩

theorem exists_printed_rollAndShow :
    ∃ rest, (rollAndShow src s e).printed = line "Parsed" e.text ++ rest := by
  have front : preview e = line "Parsed" e.text ++
      line "Deterministic" (if e.isDeterministic then "true" else "false").toList := rfl
  unfold rollAndShow
  split
  · exact ⟨_, front⟩
  · split
    · exact ⟨_, front⟩
    · exact ⟨_, by rw [front, List.append_assoc]⟩

theorem shown_rollAndShow : (rollAndShow src s e).shown = e.text := by
  obtain ⟨rest, printed⟩ := @exists_printed_rollAndShow _ src s e
  have label : line "Parsed" e.text ++ rest = "Parsed: ".toList ++ (e.text ++ '\n' :: rest) := by
    simp [line, List.append_assoc]
  have within : ∀ c ∈ e.text, decide (c ≠ '\n') = true := fun c mem =>
    decide_eq_true fun same => Notation.newline_not_mem_text e (same ▸ mem)
  rw [Report.shown, printed, label, ← String.length_toList, List.drop_left,
    List.takeWhile_append_of_pos within]
  simp

end Answers

/-! ## The same expression, given and typed in -/

theorem run_given {σ : Type} {src : Source σ} {s : σ} {args : List String} {bytes : List UInt8}
    (nonempty : args ≠ []) : run src s args bytes = answer src s (.ok (joinArguments args)) := by
  simp [run, input, nonempty]

/-- What a run has shown of an expression is read as that expression by the next. -/
theorem run_text {σ : Type} {src : Source σ} {s : σ} {e : Expr} {bytes : List UInt8} :
    run src s [String.ofList e.text] bytes = rollAndShow src s e := by
  have joined : joinArguments [String.ofList e.text] = e.text := by
    simp [joinArguments]
  rw [run_given (List.cons_ne_nil _ _), joined, answer_of_ok (Notation.ofText_text_eq_ok e)]

theorem run_typed {σ : Type} {src : Source σ} {s : σ} {bytes : List UInt8} :
    run src s [] bytes =
      { answer src s (typedIn bytes) with
        printed := prompt ++ (answer src s (typedIn bytes)).printed } := rfl

section Covers

variable {σ : Type} {next : σ → (sides : Number) → Number × σ}

/-- With enough faces of a supply that covers the dice, a run fails for no other reason than the
text. -/
theorem exitCode_of_covers (covers : Source.Covers next) (t : Text) (s : σ) :
    ∃ enough, ∀ allowance, enough ≤ allowance →
      ((answer (Source.limited next) (allowance, s) (.ok t)).exitCode = 0 ↔
        ∃ e, Expr.ofText t = .ok e ∧ e.mayNeverEnd = false) := by
  cases read : Expr.ofText t with
  | error r => exact ⟨0, fun allowance _ => by simp [answer_of_error read, Report.exitCode]⟩
  | ok e =>
    simp only [answer_of_ok read]
    cases endless : e.mayNeverEnd with
    | true => exact ⟨0, fun allowance _ => by simp [rollAndShow, endless, Report.exitCode]⟩
    | false =>
      obtain ⟨o, after, done⟩ := Source.exists_completes_of_covers covers endless s
      refine ⟨o.dice.length, fun allowance enough => ?_⟩
      obtain ⟨more, rfl⟩ := Nat.exists_eq_add_of_le enough
      simp [rollAndShow_of_completes endless (done more), Report.exitCode, endless]

/-- Where nothing is left to chance, an outcome that there can be is the one that is shown. -/
theorem rollAndShow_of_allows {e : Expr} {o : Outcome} (fixed : e.isDeterministic = true)
    (tame : e.mayNeverEnd = false) (allowed : e.Allows o)
    (real : ∀ die ∈ o.dice, Die.WithinSides die.sides die.face) (covers : Source.Covers next)
    {allowance : Nat} (enough : o.dice.length ≤ allowance) (s : σ) :
    rollAndShow (Source.limited next) (allowance, s) e = ⟨preview e ++ summary o, none⟩ := by
  obtain ⟨p, after, done⟩ := Source.exists_completes_of_covers covers tame s
  obtain ⟨rolled, draws⟩ := (Source.completes_evaluate_iff _).1 (done 0)
  -- the supply has no say in the outcome, and so none in how many faces it takes
  obtain rfl : p = o :=
    rolled.unique_of_isDeterministic fixed allowed (covers.keepsToSides _ _ _ draws) real
  obtain ⟨more, rfl⟩ := Nat.exists_eq_add_of_le enough
  exact rollAndShow_of_completes tame (done more)

end Covers

/-- Where nothing is left to chance, all runs with enough faces show the same, whatever supplies the
faces come from. -/
theorem exists_rollAndShow_of_isDeterministic {e : Expr} (fixed : e.isDeterministic = true)
    (tame : e.mayNeverEnd = false) :
    ∃ report enough, ∀ (σ : Type) (next : σ → (sides : Number) → Number × σ), Source.Covers next →
      ∀ allowance s, enough ≤ allowance →
        rollAndShow (Source.limited next) (allowance, s) e = report := by
  -- the outcome is the one that the generator has, from any seed
  obtain ⟨o, after, done⟩ := Source.exists_completes_of_covers Generator.covers tame 0
  obtain ⟨allowed, draws⟩ := (Source.completes_evaluate_iff _).1 (done 0)
  have real := Generator.covers.keepsToSides _ _ _ draws
  exact ⟨_, o.dice.length, fun σ next covers allowance s enough =>
    rollAndShow_of_allows fixed tame allowed real covers enough s⟩

/-- **It does not matter how an expression arrives.** Given as arguments or typed in, with the same
source of faces, it ends with the same exit code, is refused or not, and prints the same but for the
question. With the generator, as with every other supply that covers the dice, it ends well just if
it is an expression whose dice come to rest; and if nothing of it is left to chance, the expression
as the run has shown it brings about the same run again. -/
theorem run_given_typed (t : Text) (args : List String) (waiting ignored : List UInt8)
    (nonempty : args ≠ []) (joined : joinArguments args = t) (single : '\n' ∉ t)
    (typed : Typed t waiting) :
    (∀ (σ : Type) (src : Source σ) (s : σ),
        let given := run src s args ignored
        let asked := run src s [] waiting
        given.exitCode = asked.exitCode ∧ asked.printed = prompt ++ given.printed ∧
          (given.Refused ↔ ∀ e, Expr.ofText t ≠ .ok e) ∧
            (asked.Refused ↔ ∀ e, Expr.ofText t ≠ .ok e)) ∧
      Source.Covers Generator.roll ∧
        (∀ (σ : Type) (next : σ → (sides : Number) → Number × σ), Source.Covers next →
          ∀ s, ∃ enough, ∀ allowance, enough ≤ allowance →
            ((run (Source.limited next) (allowance, s) args ignored).exitCode = 0 ↔
              ∃ e, Expr.ofText t = .ok e ∧ e.mayNeverEnd = false)) ∧
          ∀ e, Expr.ofText t = .ok e → e.isDeterministic = true → e.mayNeverEnd = false →
            ∃ enough, ∀ (σ : Type) (next : σ → (sides : Number) → Number × σ), Source.Covers next →
              ∀ allowance other s s', enough ≤ allowance → enough ≤ other →
                let first := run (Source.limited next) (allowance, s) args ignored
                run (Source.limited next) (other, s') [String.ofList first.shown] ignored =
                  first := by
  subst joined
  refine ⟨fun σ src s => ?_, Generator.covers, fun σ next covers s => ?_,
    fun e read fixed tame => ?_⟩
  · obtain ⟨u, arrived, same⟩ := exists_typedIn single typed
    obtain ⟨code, printed⟩ := @answer_congr _ src s _ _ same
    have refused := @refused_answer_iff _ src s u
    simp only [ne_eq, same] at refused
    rw [run_given nonempty, run_typed, arrived, printed]
    -- the question in front of what is printed has no part in how the run ends
    exact ⟨code.symm, rfl, refused_answer_iff, refused⟩
  · simpa only [run_given nonempty] using exitCode_of_covers covers (joinArguments args) s
  · -- both runs roll the same expression, the second one because it has read what the first one wrote
    obtain ⟨report, enough, all⟩ := exists_rollAndShow_of_isDeterministic fixed tame
    refine ⟨enough, fun σ next covers allowance other s s' first second => ?_⟩
    intro firstRun
    have rolled : firstRun = rollAndShow (Source.limited next) (allowance, s) e :=
      (run_given nonempty).trans (answer_of_ok read)
    rw [rolled, shown_rollAndShow, run_text, all σ next covers _ _ first,
      all σ next covers _ _ second]

/-- A die that has nothing but a 1, and one more. -/
def certain : Expr := .join .plus (.dice { count := 1, sides := 1 }) (.number 1)

/-- What is printed of it, whichever faces come from the generator. -/
def certainLines : Text :=
  "Parsed: 1d1 + 1\nDeterministic: true\nRolled: [1] = 2\nResult: 2\n".toList

theorem rollAndShow_highest_certain :
    rollAndShow Source.highest (1, ()) certain = ⟨certainLines, none⟩ := by decide

theorem rollAndShow_generator_certain {allowance : Nat} (enough : 1 ≤ allowance) (seed : UInt64) :
    rollAndShow Generator.source (allowance, seed) certain = ⟨certainLines, none⟩ := by
  have settled : ∀ faces ∈ [[(1 : Number)]], Dice.Settled { count := 1, sides := 1 } faces := by
    simp [Dice.Settled, Dice.Chain, Dice.rerolls, Dice.explodes]
  have allowed : certain.Allows ⟨[⟨1, 1, false⟩], Number.clamp 2⟩ :=
    .join (.dice ⟨_, rfl, settled, rfl⟩) (.number 1)
  have real : ∀ die ∈ [(⟨1, 1, false⟩ : Die)], Die.WithinSides die.sides die.face := by
    simp [Die.WithinSides]
  exact rollAndShow_of_allows rfl rfl allowed real Generator.covers enough seed

/-- The last argument ends with a carriage return, which is lost where the same is typed in. -/
theorem run_given_typed_certain :
    (let given := run Source.highest (1, ()) ["1d1", "+", "1\r"] []
     let asked := run Source.highest (1, ()) [] (Text.bytes "1d1 + 1\r".toList ++ 10 :: [88])
     given.exitCode = 0 ∧ asked.exitCode = 0 ∧ given.printed = certainLines ∧
       asked.printed = "Enter dice expression: ".toList ++ certainLines) ∧
      ∃ enough, ∀ seed seed',
        let first := run Generator.source (enough, seed) ["1d1", "+", "1\r"] []
        first.printed = certainLines ∧
          run Generator.source (enough, seed') [String.ofList first.shown] [] = first := by
  have text : "1d1 + 1\r".toList = certain.text ++ ['\r'] := by decide
  have read : Expr.ofText "1d1 + 1\r".toList = .ok certain := by
    rw [text, Notation.ofText_append_blank_eq_ok_iff (by decide), Notation.ofText_text_eq_ok]
  have rolled : ∀ {σ : Type} {src : Source σ} {s : σ},
      run src s ["1d1", "+", "1\r"] [] = rollAndShow src s certain :=
    (run_given (by simp)).trans (answer_of_ok read)
  obtain ⟨alike, covers, -, again⟩ := run_given_typed "1d1 + 1\r".toList ["1d1", "+", "1\r"]
    (Text.bytes "1d1 + 1\r".toList ++ 10 :: [88]) [] (by simp) (by simp [joinArguments])
    (by decide) (.line [88])
  obtain ⟨code, printed, -⟩ := alike _ Source.highest (1, ())
  obtain ⟨enough, same⟩ := again certain read rfl rfl
  rw [rolled, rollAndShow_highest_certain] at code printed
  refine ⟨⟨?_, code.symm, ?_, printed⟩, max enough 1, fun seed seed' => ⟨?_, ?_⟩⟩
  · rw [rolled, rollAndShow_highest_certain]
    rfl
  · rw [rolled, rollAndShow_highest_certain]
  · rw [rolled, rollAndShow_generator_certain (Nat.le_max_right _ _)]
  · exact same _ _ covers _ _ seed seed' (Nat.le_max_left _ _) (Nat.le_max_left _ _)

end CommandLine

end TabletopDice
