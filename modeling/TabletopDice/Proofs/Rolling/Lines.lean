import TabletopDice.Proofs.Notation.Printing
import TabletopDice.Rolling.Evaluation

/-!
# The record as it is written down

Whoever follows a roll from its record has lines in front of them, a level and a text each, and not
the events behind these. A line of a single event names the face that was drawn: in front of the die
where one was rolled, behind the word `into` where one was rolled once more or came with an
exploding one. `Line.face?` takes it from there by reading the text, with the reader of numbers that
expressions are read with, and finds in the line of every record the face that the record has
(`Record.face?_line`).

The value of a part of an expression stands on a line of the other level, next to the lines about
finished rolls, and is told from them by its first word (`Record.isVerdict_line`).
-/

set_option autoImplicit false

namespace TabletopDice

/-- One line of a written record. -/
structure Line where
  level : Level
  text : Text
deriving DecidableEq

namespace Record

/-- The line that a record is written as. -/
def line (r : Record) : Line := ⟨r.level, r.message⟩

theorem line_rolled (face sides : Number) :
    (rolled face sides).line =
      ⟨.trace, "rolled ".toList ++ face.text ++ " on a d".toList ++ sides.text⟩ := rfl

theorem line_rerolled (face again : Number) :
    (rerolled face again).line =
      ⟨.trace, "rerolled ".toList ++ face.text ++ " into ".toList ++ again.text⟩ := rfl

theorem line_exploded (face : Number) :
    (exploded face).line = ⟨.trace, "exploded into ".toList ++ face.text⟩ := rfl

theorem line_selected (k : Selection) (n : Nat) :
    (selected k n).line =
      ⟨.trace, "applied ".toList ++ k.text ++ " to ".toList ++ Text.digits n ++ " rolls".toList⟩ :=
  rfl

theorem line_finished (roll : Roll) :
    (finished roll).line = ⟨.debug, "rolled ".toList ++ roll.description none⟩ := rfl

theorem line_evaluated (part : Expr) (value : Number) :
    (evaluated part value).line =
      ⟨.debug, "evaluated ".toList ++ part.text ++ " to ".toList ++ value.text⟩ := rfl

end Record

/-- The record of a run, written down. -/
def Run.lines {σ α : Type} (run : Run σ α) : List Line := run.log.map Record.line

namespace Parser

/-- Reads the wording of a single event, up to and with the face that was drawn. -/
def eventFace : Parser Number :=
  choice
    [do
      literal "rolled ".toList
      let face ← number
      literal " on a d".toList
      let _ ← number
      pure face,
    do
      literal "rerolled ".toList
      let _ ← number
      literal " into ".toList
      number,
    do
      literal "exploded into ".toList
      number]

end Parser

namespace Line

/-- The face that the line tells of, if it tells of one. -/
def face? (l : Line) : Option Number :=
  match l.level with
  | .trace => (Parser.whole Parser.eventFace l.text).toOption
  | .debug => none

theorem face?_trace (t : Text) :
    (⟨.trace, t⟩ : Line).face? = (Parser.whole Parser.eventFace t).toOption := rfl

theorem face?_debug (t : Text) : (⟨.debug, t⟩ : Line).face? = none := rfl

/-- Whether the line gives the value of an expression or of a part of one. -/
def isVerdict (l : Line) : Bool :=
  match l.level with
  | .trace => false
  | .debug => "evaluated ".toList.isPrefixOf l.text

end Line

namespace Parser

open Notation

theorem toOption_whole_eq_some_iff {α : Type} {p : Parser α} {s : Text} {a : α} :
    (whole p s).toOption = some a ↔ Yields p s a [] := by
  rw [← whole_eq_ok_iff]
  cases whole p s <;> simp [Except.toOption]

/-- A written number is read back from the front of a text where no digit follows it. -/
theorem yields_number_text (n : Number) {r : Text} (stop : Ahead notDigit r) :
    Yields number (n.text ++ r) n r :=
  reads_number (signed_text n) stop

theorem yields_eventFace_rolled (face sides : Number) :
    Yields eventFace ("rolled ".toList ++ face.text ++ " on a d".toList ++ sides.text) face [] := by
  have after : Ahead notDigit (" on a d".toList ++ sides.text) := ahead_cons.2 (by decide)
  have last := yields_number_text sides ahead_nil
  rw [List.append_nil] at last
  rw [List.append_assoc, List.append_assoc]
  refine yields_choice_cons.2 (.inl (yields_bind.2 ⟨(), _, yields_literal.2 rfl, ?_⟩))
  refine yields_bind.2 ⟨face, _, yields_number_text face after, ?_⟩
  exact yields_bind.2 ⟨(), _, yields_literal.2 rfl, yields_map.2 ⟨sides, last, rfl⟩⟩

theorem yields_eventFace_rerolled (face again : Number) :
    Yields eventFace ("rerolled ".toList ++ face.text ++ " into ".toList ++ again.text) again
      [] := by
  have after : Ahead notDigit (" into ".toList ++ again.text) := ahead_cons.2 (by decide)
  have last := yields_number_text again ahead_nil
  rw [List.append_nil] at last
  rw [List.append_assoc, List.append_assoc]
  refine yields_choice_cons.2 (.inr ⟨rejects_bind (rejects_literal.2 (by simp)), ?_⟩)
  refine yields_choice_cons.2 (.inl (yields_bind.2 ⟨(), _, yields_literal.2 rfl, ?_⟩))
  refine yields_bind.2 ⟨face, _, yields_number_text face after, ?_⟩
  exact yields_bind.2 ⟨(), _, yields_literal.2 rfl, last⟩

theorem yields_eventFace_exploded (face : Number) :
    Yields eventFace ("exploded into ".toList ++ face.text) face [] := by
  have last := yields_number_text face ahead_nil
  rw [List.append_nil] at last
  refine yields_choice_cons.2 (.inr ⟨rejects_bind (rejects_literal.2 (by simp)), ?_⟩)
  refine yields_choice_cons.2 (.inr ⟨rejects_bind (rejects_literal.2 (by simp)), ?_⟩)
  exact yields_choice_cons.2 (.inl (yields_bind.2 ⟨(), _, yields_literal.2 rfl, last⟩))

/-- What begins with none of the three words tells of no face. -/
theorem not_yields_eventFace_applied (t : Text) (face : Number) (r : Text) :
    ¬ Yields eventFace ("applied ".toList ++ t) face r := by
  intro read
  obtain first | ⟨-, read⟩ := yields_choice_cons.1 read
  · obtain ⟨_, _, word, -⟩ := yields_bind.1 first
    simp at word
  obtain second | ⟨-, read⟩ := yields_choice_cons.1 read
  · obtain ⟨_, _, word, -⟩ := yields_bind.1 second
    simp at word
  obtain third | ⟨-, read⟩ := yields_choice_cons.1 read
  · obtain ⟨_, _, word, -⟩ := yields_bind.1 third
    simp at word
  · exact not_yields_choice_nil read

end Parser

namespace Record

/-- A record and its line tell of the same face. -/
theorem face?_line (r : Record) : r.line.face? = r.face? := by
  cases r with
  | rolled face sides =>
    rw [line_rolled, Line.face?_trace]
    exact Parser.toOption_whole_eq_some_iff.2 (Parser.yields_eventFace_rolled face sides)
  | rerolled face again =>
    rw [line_rerolled, Line.face?_trace]
    exact Parser.toOption_whole_eq_some_iff.2 (Parser.yields_eventFace_rerolled face again)
  | exploded face =>
    rw [line_exploded, Line.face?_trace]
    exact Parser.toOption_whole_eq_some_iff.2 (Parser.yields_eventFace_exploded face)
  | selected k n =>
    rw [line_selected, Line.face?_trace, List.append_assoc, List.append_assoc, List.append_assoc]
    refine Option.eq_none_iff_forall_ne_some.2 ?_
    intro face told
    have read := Parser.toOption_whole_eq_some_iff.1 told
    exact Parser.not_yields_eventFace_applied _ face [] read
  | finished roll => rw [line_finished, Line.face?_debug]; rfl
  | evaluated part value => rw [line_evaluated, Line.face?_debug]; rfl

/-- Only the value of an expression or of a part of it is written as one. -/
theorem isVerdict_line (r : Record) :
    r.line.isVerdict = true ↔ ∃ part value, r = evaluated part value := by
  cases r with
  | finished roll =>
    rw [line_finished]
    simp [Line.isVerdict]
  | evaluated part value =>
    rw [line_evaluated]
    simp [Line.isVerdict]
  | rolled face sides => simp [line_rolled, Line.isVerdict]
  | rerolled face again => simp [line_rerolled, Line.isVerdict]
  | exploded face => simp [line_exploded, Line.isVerdict]
  | selected k n => simp [line_selected, Line.isVerdict]

end Record

end TabletopDice
