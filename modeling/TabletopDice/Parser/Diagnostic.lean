import TabletopDice.Dice

/-!
# Diagnostics: what is said about a text that is refused

A reader that tries one thing after another fails many times on the way to an answer, and most of
those failures are nobody's business. The one worth reporting is the one that got farthest, and
if several stopped at the same place, what each of them had hoped to find there. So there is one
pending diagnostic at a time, and each new one is combined with it (`Diagnostic.combine`): the
farther of the two stays, and two at one place are united.

Two things make the pending diagnostic more than a maximum. It outlives the attempt that raised
it, whether or not another way was found afterwards; and reading the digits of a number other than 0
clears it. Both are visible in what is finally reported, so a reader hands over everything that
happened, in order, as a list of `Note`s, and `Note.pending` works out what is left standing at the
end. No reader can look at that list: what is read never depends on what is pending.

A place in the text is given by the number of characters from there to the end. A reader knows
that number without being told where it started.

## Whose rules these are

What is pending is the business of the library that the program parses with, `chumsky`, and the
rules for it are taken over from there: one diagnostic at a time, and the farther one stays
(`Diagnostic.combine`); at one place expectations add up, each of them once and in the order in
which they came, with what was found first, and any two other reasons become one without a wording
of their own (`Reason.unite`); going back to try something else undoes nothing, and reading digits
clears what is pending (`Note.after`). For some diagnostics the library puts the longer of two lists
of expectations first. The only ones of that sort that arise here want nothing in particular, so
that either order gives the same list.

The wording of expectations, of what was found and of several reasons at once is the library's as
well (`Reason.message`). Faults are what the program's own checks refuse (`Fault.message`).
-/

set_option autoImplicit false

namespace TabletopDice

/-- What a reader had hoped to find. -/
inductive Expectation where
  | character (c : Char)
  | endOfText
deriving DecidableEq

/-- What is wrong with something that was written correctly. -/
inductive Fault where
  | numberTooLarge
  | numberTooSmall
  | countTooLarge
  | duplicate (modifier : DuplicateModifier)
deriving DecidableEq

/-- Why a reader stopped. -/
inductive Reason where
  /-- One of several things should have followed, and something else did: a character, or the end
  of the text. -/
  | unexpected (wanted : List Expectation) (found : Option Char)
  /-- What followed was well formed but cannot be meant. -/
  | fault (f : Fault)
  /-- Reasons that have no common wording. -/
  | several
deriving DecidableEq

/-- Why and where a reader stopped. -/
structure Diagnostic where
  /-- How many characters lie between the place and the end of the text. -/
  left : Nat
  /-- Why it stopped there. -/
  reason : Reason
deriving DecidableEq

/-! ## Wording -/

namespace Expectation

/-- A character in quotes, or the end by name. -/
def message : Expectation → String
  | .character c => String.ofList ['\'', c, '\'']
  | .endOfText => "end of input"

/-- A choice between expectations, the last one set off by "or". -/
def listMessage : List Expectation → String
  | [] => "something else"
  | [e] => e.message
  | e :: es => String.join ((e :: es).dropLast.map fun x => x.message ++ ", ") ++ "or "
      ++ ((e :: es).getLast (by simp)).message

end Expectation

/-- The wording of a fault. -/
def Fault.message : Fault → String
  | .numberTooLarge => "Integer: number too large to fit in target type"
  | .numberTooSmall => "Integer: number too small to fit in target type"
  | .countTooLarge => "Dice count: number too large to fit in target type"
  | .duplicate d => "Dice: " ++ d.message

/-- The wording of a reason. -/
def Reason.message : Reason → String
  | .unexpected wanted none => "found end of input expected " ++ Expectation.listMessage wanted
  | .unexpected wanted (some c) =>
    "found " ++ String.ofList [c] ++ " expected " ++ Expectation.listMessage wanted
  | .fault f => f.message
  | .several => "multiple errors"

/-! ## The pending diagnostic -/

/-- Two reasons at one place: expectations add up, and nothing else can be put together. -/
def Reason.unite : Reason → Reason → Reason
  | .unexpected wanted found, .unexpected more _ =>
    .unexpected (wanted ++ more.filter fun e => !wanted.contains e) found
  | _, _ => .several

/-- Of an earlier and a later diagnostic, the one farther into the text, or both in one. -/
def Diagnostic.combine (earlier later : Diagnostic) : Diagnostic :=
  if later.left < earlier.left then later
  else if earlier.left < later.left then earlier
  else ⟨earlier.left, earlier.reason.unite later.reason⟩

/-- Something that happened to the pending diagnostic. -/
inductive Note where
  /-- A diagnostic was raised. -/
  | raised (d : Diagnostic)
  /-- Whatever was pending no longer matters. -/
  | cleared
deriving DecidableEq

/-- What is pending after a note. -/
def Note.after (pending : Option Diagnostic) : Note → Option Diagnostic
  | .raised d => some (pending.elim d (·.combine d))
  | .cleared => none

/-- What is pending after everything that was noted, oldest first. -/
def Note.pending (notes : List Note) : Option Diagnostic := notes.foldl Note.after none

/-- A text was refused. -/
structure Refusal where
  /-- What was pending when it was. -/
  diagnostic? : Option Diagnostic
deriving DecidableEq

/-- The wording of a refusal. -/
def Refusal.message (r : Refusal) : String := r.diagnostic?.elim "" (·.reason.message)

end TabletopDice
