import TabletopDice.Expr

/-!
# Intervals of numbers

An interval has an end on either side, and the one is not above the other. What an operator makes of
two numbers lies in the interval that it makes of the intervals they come from (`Interval.mem_join`):
sums run from end to end, a difference is least where less is taken from and more is taken away, and
a product lies among the products of the ends, four of them, because signs can turn the order round.

The ends are computed by the same operation as the numbers, so they are held inside the range as the
numbers are. That does no harm, since clamping keeps the order of integers.
-/

set_option autoImplicit false

namespace TabletopDice

namespace Number

instance : Min Number := ⟨fun a b => if a ≤ b then a else b⟩

instance : Max Number := ⟨fun a b => if a ≤ b then b else a⟩

@[simp] theorem toInt_min (a b : Number) : (min a b).toInt = min a.toInt b.toInt := by
  show (if a ≤ b then a else b).toInt = _
  split <;> simp only [le_iff] at * <;> omega

@[simp] theorem toInt_max (a b : Number) : (max a b).toInt = max a.toInt b.toInt := by
  show (if a ≤ b then b else a).toInt = _
  split <;> simp only [le_iff] at * <;> omega

theorem clamp_min (x y : Int) : clamp (min x y) = min (clamp x) (clamp y) := by
  simp only [Number.ext_iff, toInt_min, toInt_clamp]
  omega

theorem clamp_max (x y : Int) : clamp (max x y) = max (clamp x) (clamp y) := by
  simp only [Number.ext_iff, toInt_max, toInt_clamp]
  omega

end Number

/-- The numbers from one to another that is not below it. -/
structure Interval where
  /-- The least of them. -/
  low : Number
  /-- The greatest of them. -/
  high : Number
  /-- There is one. -/
  ordered : low ≤ high

namespace Interval

instance : Membership Number Interval := ⟨fun i n => i.low ≤ n ∧ n ≤ i.high⟩

/-- A single number. -/
def point (n : Number) : Interval := ⟨n, n, Int.le_refl n.toInt⟩

/-- The numbers between two integers, or nearest to them. -/
def between (x y : Int) (h : x ≤ y) : Interval :=
  ⟨Number.clamp x, Number.clamp y, Number.clamp_le_clamp h⟩

theorem clamp_mem_between {x y z : Int} (above : x ≤ z) (below : z ≤ y) :
    Number.clamp z ∈ between x y (Int.le_trans above below) :=
  ⟨Number.clamp_le_clamp above, Number.clamp_le_clamp below⟩

/-! ## Operators on the ends -/

theorem apply_plus_le {a b c d : Number} (h : a ≤ c) (k : b ≤ d) :
    Operator.plus.apply a b ≤ Operator.plus.apply c d :=
  Number.clamp_le_clamp (Int.add_le_add h k)

theorem apply_minus_le {a b c d : Number} (h : a ≤ c) (k : d ≤ b) :
    Operator.minus.apply a b ≤ Operator.minus.apply c d :=
  Number.clamp_le_clamp (Int.sub_le_sub h k)

/-- The products of the ends of two intervals. -/
def corners (a b : Interval) : Number × Number × Number × Number :=
  (Operator.times.apply a.low b.low, Operator.times.apply a.low b.high,
    Operator.times.apply a.high b.low, Operator.times.apply a.high b.high)

/-- The least of four numbers. -/
def least : Number × Number × Number × Number → Number
  | (a, b, c, d) => min (min a b) (min c d)

/-- The greatest of four numbers. -/
def greatest : Number × Number × Number × Number → Number
  | (a, b, c, d) => max (max a b) (max c d)

theorem least_le_greatest (corners : Number × Number × Number × Number) :
    least corners ≤ greatest corners := by
  simp only [least, greatest, Number.le_iff, Number.toInt_min, Number.toInt_max]
  omega

/-- The interval of what an operator makes of the numbers of two intervals. -/
def join : Operator → Interval → Interval → Interval
  | .plus, a, b =>
    ⟨Operator.plus.apply a.low b.low, Operator.plus.apply a.high b.high,
      apply_plus_le a.ordered b.ordered⟩
  | .minus, a, b =>
    ⟨Operator.minus.apply a.low b.high, Operator.minus.apply a.high b.low,
      apply_minus_le a.ordered b.ordered⟩
  | .times, a, b => ⟨least (corners a b), greatest (corners a b), least_le_greatest _⟩

/-- For a fixed factor, products are ordered one way or the other. -/
theorem mul_between {a b x : Int} (above : a ≤ x) (below : x ≤ b) (y : Int) :
    min (a * y) (b * y) ≤ x * y ∧ x * y ≤ max (a * y) (b * y) := by
  obtain sign | sign := Int.le_total 0 y
  · have low := Int.mul_le_mul_of_nonneg_right above sign
    have high := Int.mul_le_mul_of_nonneg_right below sign
    omega
  · have low := Int.mul_le_mul_of_nonpos_right above sign
    have high := Int.mul_le_mul_of_nonpos_right below sign
    omega

theorem mul_between_left {c d y : Int} (above : c ≤ y) (below : y ≤ d) (x : Int) :
    min (x * c) (x * d) ≤ x * y ∧ x * y ≤ max (x * c) (x * d) := by
  simpa only [Int.mul_comm x] using mul_between above below x

theorem apply_times_mem {a b : Interval} {x y : Number} (hx : x ∈ a) (hy : y ∈ b) :
    Operator.times.apply x y ∈ join .times a b := by
  -- one factor at a time goes to an end of its interval
  obtain ⟨above, below⟩ := mul_between hx.1 hx.2 y.toInt
  obtain ⟨leftAbove, leftBelow⟩ := mul_between_left hy.1 hy.2 a.low.toInt
  obtain ⟨rightAbove, rightBelow⟩ := mul_between_left hy.1 hy.2 a.high.toInt
  -- clamping keeps minima and maxima, so the corners can be compared as integers
  constructor
  · simp only [join, least, corners, Operator.apply, Operator.onInt, ← Number.clamp_min]
    refine Number.clamp_le_clamp ?_
    clear below leftBelow rightBelow
    omega
  · simp only [join, greatest, corners, Operator.apply, Operator.onInt, ← Number.clamp_max]
    refine Number.clamp_le_clamp ?_
    clear above leftAbove rightAbove
    omega

/-- What an operator makes of two numbers is in the interval that it makes of theirs. -/
theorem mem_join (o : Operator) {a b : Interval} {x y : Number} (hx : x ∈ a) (hy : y ∈ b) :
    o.apply x y ∈ join o a b := by
  cases o with
  | plus => exact ⟨apply_plus_le hx.1 hy.1, apply_plus_le hx.2 hy.2⟩
  | minus => exact ⟨apply_minus_le hx.1 hy.2, apply_minus_le hx.2 hy.1⟩
  | times => exact apply_times_mem hx hy

end Interval

end TabletopDice
