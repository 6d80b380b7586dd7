import TabletopDice.Number

/-!
# Conditions on a die

A condition compares the face that a die shows with a fixed bound. It decides which dice are rolled
again, which ones bring another die with them, and which ones count as successes.

The question that matters beyond a single face is `Condition.alwaysHolds`: does a die of so many
sides have any face at all that the condition lets pass? It is answered from the two ends of the
range alone, which is enough because each comparison holds of an interval of faces: if it holds of
the first and the last, it holds of every face between them (`holds_of_alwaysHolds`).
-/

set_option autoImplicit false

namespace TabletopDice

/-- The ways to compare a face with a bound. -/
inductive Comparison where
  | equal
  | less
  | atMost
  | greater
  | atLeast
deriving DecidableEq

namespace Comparison

/-- Whether a face stands to a bound as the comparison demands. -/
def holds : Comparison → (face bound : Number) → Bool
  | .equal, face, bound => face = bound
  | .less, face, bound => face < bound
  | .atMost, face, bound => face ≤ bound
  | .greater, face, bound => bound < face
  | .atLeast, face, bound => bound ≤ face

/-- The sign that stands for the comparison. -/
def symbol : Comparison → Text
  | .equal => ['=']
  | .less => ['<']
  | .atMost => ['<', '=']
  | .greater => ['>']
  | .atLeast => ['>', '=']

/-- Every comparison, those whose sign begins with another one's sign first. A reader that takes
the first sign it finds in this order never stops short of a longer one. -/
def longestFirst : List Comparison := [.atMost, .atLeast, .less, .greater, .equal]

theorem mem_longestFirst (c : Comparison) : c ∈ longestFirst := by cases c <;> decide

end Comparison

/-- A test that a face can be put to. -/
@[ext]
structure Condition where
  /-- How the face is compared. -/
  comparison : Comparison
  /-- What it is compared with. -/
  bound : Number
deriving DecidableEq

namespace Condition

/-- Whether a face meets the condition. -/
def holds (c : Condition) (face : Number) : Bool := c.comparison.holds face c.bound

/-- Whether every face of a die with so many sides meets the condition. A die without sides shows
nothing but 0. -/
def alwaysHolds (c : Condition) (sides : Number) : Bool :=
  if sides < 1 then c.holds 0 else c.holds 1 && c.holds sides

/-- The written form of a condition by itself. -/
def text (c : Condition) : Text := c.comparison.symbol ++ c.bound.text

/-- The written form of a condition behind a letter that already asks for equality: an equality
shows its bound alone. -/
def shortText (c : Condition) : Text :=
  match c.comparison with
  | .equal => c.bound.text
  | _ => c.text

instance : ToString Condition := ⟨fun c => String.ofList c.text⟩

/-! ## The two ends of the range decide -/

/-- A condition met by two faces is met by every face between them. -/
theorem holds_of_between {c : Condition} {low high face : Number} (first : c.holds low = true)
    (last : c.holds high = true) (above : low ≤ face) (below : face ≤ high) :
    c.holds face = true := by
  obtain ⟨comparison, bound⟩ := c
  simp only [Number.le_iff] at above below
  cases comparison <;>
    simp only [holds, Comparison.holds, decide_eq_true_eq, Number.le_iff, Number.lt_iff,
      Number.ext_iff] at first last ⊢ <;> omega

/-- A condition that always holds is met by every face that a die can show. -/
theorem holds_of_alwaysHolds {c : Condition} {sides face : Number}
    (always : c.alwaysHolds sides = true) (first : 1 ≤ face) (last : face ≤ sides) :
    c.holds face = true := by
  have real : ¬ sides < 1 := Number.not_lt.2 (Int.le_trans first last)
  simp only [alwaysHolds, if_neg real, Bool.and_eq_true] at always
  exact holds_of_between always.1 always.2 first last

end Condition

end TabletopDice
