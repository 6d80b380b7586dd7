import TabletopDice.Parser.Number

/-!
# Reading dice terms

A dice term is written without blanks: how many dice, the letter `d`, how many sides, and then
modifiers in any order. The count may be left out, and is then one.

A modifier is recognised by the letters and signs it begins with, and once one of those beginnings
has been read, a number must follow; there is no going back to a shorter beginning. What can go
wrong after a term has been read, too many dice or two modifiers of one category, is checked at the
end of it, and then the whole term has not been read.
-/

set_option autoImplicit false

namespace TabletopDice.Parser

/-- Reads one of several beginnings, the first that matches, and answers with what it stands
for. -/
def oneOfTexts {α : Type} (beginnings : List (Text × α)) : Parser α :=
  choice (beginnings.map fun (t, a) => do literal t; pure a)

/-- Reads a selection: two letters and a number. -/
def selection : Parser Selection := do
  let (effect, fromEnd) ← oneOfTexts (Selection.kinds.map fun k => (Selection.symbol k.1 k.2, k))
  let count ← number
  pure { effect, fromEnd, count }

/-- How the comparisons are written behind the letters of a modifier: each with its sign, except
that equality has none where the letters already ask for it. -/
def comparisonsAfter (letters : Text) (equality : Text) : List (Text × Comparison) :=
  Comparison.longestFirst.map fun c =>
    (letters ++ (match c with | .equal => equality | _ => c.symbol), c)

/-- Reads a condition behind the letters of a modifier. -/
def conditionAfter (letters : Text) (equality : Text) : Parser Condition := do
  let comparison ← oneOfTexts (comparisonsAfter letters equality)
  let bound ← number
  pure { comparison, bound }

/-- Reads a modifier of any category. -/
def modifier : Parser Modifier :=
  choice
    [do let s ← selection; pure (.select s),
      do let c ← conditionAfter ['r'] []; pure (.reroll c),
      do let c ← conditionAfter ['x'] []; pure (.explode c),
      do let c ← conditionAfter ['c', 's'] ['=']; pure (.countSuccesses c)]

/-- The dice with a count, or one if it was left out, and modifiers in the order they were written.
A count out of range is found before a category taken twice. -/
def assemble (count : Option Nat) (sides : Number) (ms : List Modifier) : Except Fault Dice :=
  match Count.ofNat? (count.getD 1) with
  | none => .error .countTooLarge
  | some n => (Dice.ofModifiers n sides ms).mapError .duplicate

/-- Reads a dice term. -/
def dice : Parser Dice :=
  check
    (do
      let count ← optional natural
      literal ['d']
      let sides ← number
      let ms ← many modifier
      pure (count, sides, ms))
    fun (count, sides, ms) => assemble count sides ms

/-! ## What is left behind a dice term -/

theorem takesFront_oneOfTexts {α : Type} (beginnings : List (Text × α)) :
    TakesFront (oneOfTexts beginnings) := by
  apply TakesFront.choice
  intro p hp
  obtain ⟨⟨t, a⟩, -, rfl⟩ := List.mem_map.1 hp
  exact (TakesFront.literal t).bind fun _ => .pure a

theorem takesFront_selection : TakesFront selection :=
  (takesFront_oneOfTexts _).bind fun _ => takesFront_number.bind fun _ => .pure _

theorem takesFront_conditionAfter (letters equality : Text) :
    TakesFront (conditionAfter letters equality) :=
  (takesFront_oneOfTexts _).bind fun _ => takesFront_number.bind fun _ => .pure _

theorem takesFront_modifier : TakesFront modifier := by
  apply TakesFront.choice
  intro p hp
  simp only [List.mem_cons, List.not_mem_nil, or_false] at hp
  rcases hp with rfl | rfl | rfl | rfl
  · exact takesFront_selection.bind fun _ => .pure _
  · exact (takesFront_conditionAfter _ _).bind fun _ => .pure _
  · exact (takesFront_conditionAfter _ _).bind fun _ => .pure _
  · exact (takesFront_conditionAfter _ _).bind fun _ => .pure _

theorem takesFront_dice : TakesFront dice :=
  (takesFront_natural.optional.bind fun _ => (TakesFront.literal _).bind fun _ =>
    takesFront_number.bind fun _ => takesFront_modifier.many.bind fun _ => .pure _).check

end TabletopDice.Parser
