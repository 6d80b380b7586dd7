import TabletopDice.Expr
import TabletopDice.Roll

/-!
# The record of a roll

While dice are rolled, what happens is recorded, one entry per event: each face drawn, with the
reason why it was drawn, then the selection, the finished roll, and the value of each part of an
expression. The entries are data; their wording is separate, so that what happened can be read off
them without taking text apart.
-/

set_option autoImplicit false

namespace TabletopDice

/-- Something that happened while dice were rolled. -/
inductive Record where
  /-- A die of the term was rolled. -/
  | rolled (face sides : Number)
  /-- A die was rolled once more, and its first face no longer counts. -/
  | rerolled (face again : Number)
  /-- A die brought another one with it. -/
  | exploded (face : Number)
  /-- A selection was applied to so many dice. -/
  | selected (selection : Selection) (dice : Nat)
  /-- All dice of a term have fallen. -/
  | finished (roll : Roll)
  /-- A part of an expression has its value. -/
  | evaluated (part : Expr) (value : Number)
deriving DecidableEq

/-- How closely one has to look to be told. -/
inductive Level where
  /-- Single events. -/
  | trace
  /-- Results. -/
  | debug
deriving DecidableEq

namespace Record

/-- The level of a record. -/
def level : Record → Level
  | .finished _ => .debug
  | .evaluated _ _ => .debug
  | _ => .trace

/-- The wording of a record. -/
def message : Record → Text
  | .rolled face sides => "rolled ".toList ++ face.text ++ " on a d".toList ++ sides.text
  | .rerolled face again => "rerolled ".toList ++ face.text ++ " into ".toList ++ again.text
  | .exploded face => "exploded into ".toList ++ face.text
  | .selected s n => "applied ".toList ++ s.text ++ " to ".toList ++ Text.digits n ++ " rolls".toList
  | .finished roll => "rolled ".toList ++ roll.description none
  | .evaluated part value => "evaluated ".toList ++ part.text ++ " to ".toList ++ value.text

/-- The face that was drawn, where one was. -/
def face? : Record → Option Number
  | .rolled face _ => some face
  | .rerolled _ again => some again
  | .exploded face => some face
  | _ => none

end Record

/-- The name of a level. -/
def Level.name : Level → String
  | .trace => "TRACE"
  | .debug => "DEBUG"

end TabletopDice
