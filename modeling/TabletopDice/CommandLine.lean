import TabletopDice.Parser.Expr
import TabletopDice.Rolling.Evaluation

/-!
# The command line

One run of the program reads one expression, shows how it understood it, rolls it, and shows the
dice and the result. The expression is what stands behind the program's name, joined with single
blanks so that it need not be quoted; if nothing stands there, the program asks for it and takes the
first line that is typed in.

Everything but the reading and printing itself is a function here: from the arguments, the bytes
that are waiting to be read and the state of a source of faces, to what is printed and how the run
ends. A run that fails may have printed something before it did, so a `Report` has both.
-/

set_option autoImplicit false

namespace TabletopDice.CommandLine

/-- Why a run came to nothing. -/
inductive Failure where
  /-- The line that was typed in is not text. -/
  | notText
  /-- There was no line to read. -/
  | noInput
  /-- The text is no expression. -/
  | notAnExpression (refusal : Refusal)
  /-- The dice might never come to rest. -/
  | mayNeverEnd
  /-- The source had too few faces to give. -/
  | outOfFaces
deriving DecidableEq

/-- The wording of a failure. -/
def Failure.message : Failure → String
  | .notText => "Unable to read input: stream did not contain valid UTF-8"
  | .noInput => "No input given"
  | .notAnExpression r => "Unable to parse dice expression: " ++ r.message
  | .mayNeverEnd =>
    "Refusing to roll: an exploding modifier in the expression matches every possible roll"
  | .outOfFaces => "The dice ran out before the roll was over"

/-- What a run prints, and why it failed if it did. -/
structure Report where
  /-- What is printed, line ends included. -/
  printed : Text
  /-- Why the run failed, if it did. -/
  failure? : Option Failure
deriving DecidableEq

/-- The exit code of a run: 1 if it failed. -/
def Report.exitCode (r : Report) : UInt32 := if r.failure?.isSome then 1 else 0

/-! ## Finding the expression -/

/-- The question that is asked where no expression was given. -/
def prompt : Text := "Enter dice expression: ".toList

/-- The arguments, with single blanks between them. -/
def joinArguments (args : List String) : Text := [' '].intercalate (args.map String.toList)

/-- The first line of what is waiting, without the byte that ends it; none where nothing waits. -/
def firstLine (bytes : List UInt8) : Option (List UInt8) :=
  if bytes.isEmpty then none else some (bytes.takeWhile (· ≠ 10))

/-- Whether a line end follows the first line of what is waiting. -/
def lineEnds (bytes : List UInt8) : Bool := bytes.contains 10

/-- A text without the carriage return at its end, if it has one. -/
def dropReturn (t : Text) : Text := if t.getLast? = some '\r' then t.dropLast else t

/-- The expression that is waiting to be read. A carriage return goes with the line end that it
stands before; without a line end it is part of the line. -/
def typedIn (bytes : List UInt8) : Except Failure Text :=
  match firstLine bytes with
  | none => .error .noInput
  | some line =>
    match String.fromUTF8? line.toByteArray with
    | none => .error .notText
    | some t => .ok (if lineEnds bytes then dropReturn t.toList else t.toList)

/-- The expression as it was given, whichever way. -/
def input (args : List String) (bytes : List UInt8) : Except Failure Text :=
  if args.isEmpty then typedIn bytes else .ok (joinArguments args)

/-! ## Answering it -/

/-- The most dice that are listed one by one. -/
def listLimit : Nat := 100

/-- A line of output: a label and what it labels. -/
def line (label : String) (t : Text) : Text := label.toList ++ ": ".toList ++ t ++ ['\n']

/-- What is shown of an expression before it is rolled. -/
def preview (e : Expr) : Text :=
  line "Parsed" e.text ++
    line "Deterministic" (if e.isDeterministic then "true" else "false").toList

/-- What is shown of an outcome. -/
def summary (o : Outcome) : Text :=
  line "Rolled" (o.description (some listLimit)) ++ line "Result" o.result.text

variable {σ : Type}

/-- Shows and rolls an expression. -/
def rollAndShow (src : Source σ) (s : σ) (e : Expr) : Report :=
  if e.mayNeverEnd then ⟨preview e, some .mayNeverEnd⟩
  else
    match (src.evaluate e s).value? with
    | none => ⟨preview e, some .outOfFaces⟩
    | some o => ⟨preview e ++ summary o, none⟩

/-- Answers what was given as an expression. -/
def answer (src : Source σ) (s : σ) : Except Failure Text → Report
  | .error e => ⟨[], some e⟩
  | .ok t =>
    match Expr.ofText t with
    | .error r => ⟨[], some (.notAnExpression r)⟩
    | .ok e => rollAndShow src s e

/-- One run of the program. The question, where it is asked, comes before everything else. -/
def run (src : Source σ) (s : σ) (args : List String) (bytes : List UInt8) : Report :=
  let report := answer src s (input args bytes)
  { report with printed := (if args.isEmpty then prompt else []) ++ report.printed }

end TabletopDice.CommandLine
