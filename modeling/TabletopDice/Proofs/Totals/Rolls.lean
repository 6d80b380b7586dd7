import TabletopDice.Expr
import TabletopDice.Proofs.Totals.Sums

/-!
# What a roll comes to

The total of a roll, compared with what it would be among the integers (`Roll.exactTotal`). Successes
are counted exactly and then held to the largest number. A sum is cut off on the way, so in general
it says little about the exact one, and two dice that change places can change it. For faces of one
sign it is the exact sum, held inside the range once. Neither kind of total depends on the order of
the dice then (`Roll.total_of_one_sign_or_successes`), and dice in two parts come to the sum of what
the parts come to (`Roll.total_append`).
-/

set_option autoImplicit false

namespace TabletopDice

namespace Roll

/-- The faces of the dice that count, in the order in which they fell. -/
def countedFaces (r : Roll) : List Number := (Die.kept r.dice).map Die.face

/-- What the roll comes to among the integers: the exact sum of the faces that count, or the number
of those that are successes. -/
def exactTotal (r : Roll) : Int :=
  match r.term.successes with
  | some c => r.countedFaces.countP c.holds
  | none => exactSum r.countedFaces

theorem total_of_successes {r : Roll} {c : Condition} (counts : r.term.successes = some c) :
    r.total = Number.clamp (r.countedFaces.countP c.holds) := by
  simp [total, counts, countedFaces]

theorem total_of_sum {r : Roll} (adds : r.term.successes = none) : r.total = sum r.countedFaces := by
  simp [total, adds, countedFaces]

/-- The total is the exact one, held inside the range, unless faces of both signs are added. -/
theorem total_eq_clamp {r : Roll} (sign : r.term.successes = none → OneSign r.countedFaces) :
    r.total = Number.clamp r.exactTotal := by
  cases successes : r.term.successes with
  | some c => rw [total_of_successes successes, exactTotal, successes]
  | none => rw [total_of_sum successes, sum_eq_clamp (sign successes), exactTotal, successes]

/-! ## Dice in two parts -/

section Parts

variable {p q r : Roll}

theorem countedFaces_append (dice : r.dice = p.dice ++ q.dice) :
    r.countedFaces = p.countedFaces ++ q.countedFaces := by
  simp only [countedFaces, Die.kept, dice, List.filter_append, List.map_append]

theorem exactTotal_append (dice : r.dice = p.dice ++ q.dice)
    (first : p.term.successes = r.term.successes) (second : q.term.successes = r.term.successes) :
    r.exactTotal = p.exactTotal + q.exactTotal := by
  unfold exactTotal
  rw [countedFaces_append dice, first, second]
  cases r.term.successes with
  | some c => simp only [List.countP_append, Int.natCast_add]
  | none => exact exactSum_append _ _

/-- The total of all the dice is the sum of the totals of the parts, unless faces of both signs are
added. -/
theorem total_append (dice : r.dice = p.dice ++ q.dice)
    (first : p.term.successes = r.term.successes) (second : q.term.successes = r.term.successes)
    (sign : r.term.successes = none → OneSign r.countedFaces) :
    r.total = Operator.plus.apply p.total q.total := by
  have parts : r.term.successes = none → OneSign (p.countedFaces ++ q.countedFaces) :=
    fun adds => countedFaces_append dice ▸ sign adds
  have signs : (0 ≤ p.exactTotal ∧ 0 ≤ q.exactTotal) ∨ (p.exactTotal ≤ 0 ∧ q.exactTotal ≤ 0) := by
    unfold exactTotal
    rw [first, second]
    cases adds : r.term.successes with
    | some c => exact .inl ⟨Int.natCast_nonneg _, Int.natCast_nonneg _⟩
    | none => exact (parts adds).sums
  rw [total_eq_clamp sign, total_eq_clamp fun adds => (parts (first ▸ adds)).append.1,
    total_eq_clamp fun adds => (parts (second ▸ adds)).append.2,
    exactTotal_append dice first second, Number.ext_iff]
  simp only [Operator.apply, Operator.onInt, Number.toInt_clamp]
  omega

end Parts

/-! ## The order of the dice -/

theorem countedFaces_perm {r : Roll} {dice : List Die} (same : dice.Perm r.dice) :
    (Roll.countedFaces { r with dice }).Perm r.countedFaces :=
  (same.filter Die.isKept).map Die.face

/-- The exact total depends on nothing but the faces that count, in any order, and on what is asked of
them. -/
theorem exactTotal_congr {r q : Roll} (successes : q.term.successes = r.term.successes)
    (faces : q.countedFaces.Perm r.countedFaces) : q.exactTotal = r.exactTotal := by
  unfold exactTotal
  rw [successes]
  cases r.term.successes with
  | some c => exact congrArg Nat.cast (faces.countP_eq c.holds)
  | none => exact exactSum_perm faces

theorem exactTotal_perm {r : Roll} {dice : List Die} (same : dice.Perm r.dice) :
    Roll.exactTotal { r with dice } = r.exactTotal :=
  exactTotal_congr rfl (countedFaces_perm same)

/-- So does the total, unless faces of both signs are added. -/
theorem total_congr {r q : Roll} (successes : q.term.successes = r.term.successes)
    (faces : q.countedFaces.Perm r.countedFaces)
    (sign : r.term.successes = none → OneSign r.countedFaces) : q.total = r.total := by
  have signs : q.term.successes = none → OneSign q.countedFaces := by
    intro adds
    rw [successes] at adds
    exact (sign adds).perm faces
  rw [total_eq_clamp signs, total_eq_clamp sign, exactTotal_congr successes faces]

/-- **A sum of faces of one sign, and a number of successes, is the exact one held inside the range**,
and it is the same for the same dice in another order. -/
theorem total_of_one_sign_or_successes (r : Roll) :
    (r.term.successes = none → OneSign r.countedFaces →
        r.total.toInt = max (-2147483648) (min 2147483647 (exactSum r.countedFaces))) ∧
      (∀ c, r.term.successes = some c →
        r.total.toInt = min 2147483647 (r.countedFaces.countP c.holds : Int)) ∧
      ((r.term.successes = none → OneSign r.countedFaces) →
        ∀ dice : List Die, dice.Perm r.dice → Roll.total { r with dice } = r.total) := by
  refine ⟨fun adds sign => ?_, fun c counts => ?_, fun sign dice same => ?_⟩
  · rw [total_of_sum adds, sum_eq_clamp sign, Number.toInt_clamp]
  · rw [total_of_successes counts, Number.toInt_clamp]
    omega
  · have signs : r.term.successes = none → OneSign (Roll.countedFaces { r with dice }) :=
      fun adds => (sign adds).perm (countedFaces_perm same)
    rw [total_eq_clamp signs, total_eq_clamp sign, exactTotal_perm same]

/-- A large face that brings two more dice, the last of which is below zero and discarded. -/
def overfull : Roll :=
  { term := { count := 1, sides := Number.clamp 6, explode := some ⟨.atLeast, Number.clamp 5⟩,
              select := some ⟨.drop, .lowest, 1⟩ }
    dice := [⟨Number.clamp 2147483647, Number.clamp 6, false⟩,
      ⟨Number.clamp 5, Number.clamp 6, false⟩, ⟨Number.clamp (-7), Number.clamp 6, true⟩] }

/-- The same dice, of a term that counts the faces from 5 up. -/
def overfullTally : Roll :=
  { overfull with term.successes := some ⟨.atLeast, Number.clamp 5⟩ }

theorem total_of_one_sign_or_successes_overfull :
    OneSign overfull.countedFaces ∧ exactSum overfull.countedFaces = 2147483652 ∧
      overfull.total.toInt = 2147483647 ∧ overfullTally.total.toInt = 2 ∧
        Roll.total { overfull with dice := overfull.dice.reverse } = overfull.total := by
  have sign : OneSign overfull.countedFaces := .inl (by decide)
  obtain ⟨added, -, ordered⟩ := total_of_one_sign_or_successes overfull
  obtain ⟨-, counted, -⟩ := total_of_one_sign_or_successes overfullTally
  refine ⟨sign, by decide, added rfl sign, counted _ rfl, ?_⟩
  exact ordered (fun _ => sign) _ (List.reverse_perm _)

/-- With faces of both signs the order makes a difference. -/
example : sum [Number.clamp 2147483647, 1, Number.clamp (-1)] ≠
    sum [1, Number.clamp (-1), Number.clamp 2147483647] := by decide

end Roll

end TabletopDice
