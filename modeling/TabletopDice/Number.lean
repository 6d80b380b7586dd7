import TabletopDice.Text

/-!
# The numbers of dice terms

Every number that can stand in a dice term or come out of one, a die's sides, a face, a bound, a
total, is an integer between −2147483648 and 2147483647. `Number` is that range as a type, so no
later definition has to say again that its result stays inside: arithmetic is done in `Int`, which
is exact, and comes back through `Number.clamp`, which is the only place where anything is ever
lost. What it loses is stated by the two lemmas on it: nothing inside the range
(`toInt_clamp_of_mem`), and everything but the side outside it.

How many dice are rolled is counted separately, by `Count`: such a count carries no sign, and may
be about twice as large.
-/

set_option autoImplicit false

namespace TabletopDice

/-- An integer that dice terms can hold. -/
@[ext]
structure Number where
  /-- The integer itself. -/
  toInt : Int
  /-- Nothing lies below −2³¹. -/
  lower : -2147483648 ≤ toInt
  /-- Nothing lies above 2³¹ − 1. -/
  upper : toInt ≤ 2147483647
deriving DecidableEq

namespace Number

instance : OfNat Number 0 := ⟨⟨0, by decide, by decide⟩⟩

instance : OfNat Number 1 := ⟨⟨1, by decide, by decide⟩⟩

instance : Inhabited Number := ⟨0⟩

instance : LE Number := ⟨fun a b => a.toInt ≤ b.toInt⟩

instance : LT Number := ⟨fun a b => a.toInt < b.toInt⟩

instance (a b : Number) : Decidable (a ≤ b) := inferInstanceAs (Decidable (a.toInt ≤ b.toInt))

instance (a b : Number) : Decidable (a < b) := inferInstanceAs (Decidable (a.toInt < b.toInt))

theorem le_iff {a b : Number} : a ≤ b ↔ a.toInt ≤ b.toInt := Iff.rfl

theorem lt_iff {a b : Number} : a < b ↔ a.toInt < b.toInt := Iff.rfl

theorem not_lt {a b : Number} : ¬ a < b ↔ b ≤ a := Int.not_lt

@[simp] theorem toInt_zero : (0 : Number).toInt = 0 := rfl

@[simp] theorem toInt_one : (1 : Number).toInt = 1 := rfl

/-- The number nearest to an integer: the integer itself if it is in range, else the end of the
range on its side. -/
def clamp (x : Int) : Number :=
  ⟨max (-2147483648) (min 2147483647 x), by omega, by omega⟩

/-- The integer as a number, if it is one. -/
def ofInt? (x : Int) : Option Number :=
  if h : -2147483648 ≤ x ∧ x ≤ 2147483647 then some ⟨x, h.1, h.2⟩ else none

/-- The written form of a number: decimal digits, with a `-` in front of a negative one. -/
def text (n : Number) : Text := Text.integer n.toInt

instance : ToString Number := ⟨fun n => String.ofList n.text⟩

/-! ## What clamping keeps -/

theorem toInt_clamp (x : Int) : (clamp x).toInt = max (-2147483648) (min 2147483647 x) := rfl

/-- Clamping loses nothing inside the range. -/
theorem toInt_clamp_of_mem {x : Int} (low : -2147483648 ≤ x) (high : x ≤ 2147483647) :
    (clamp x).toInt = x := by
  rw [toInt_clamp]; omega

@[simp] theorem clamp_toInt (n : Number) : clamp n.toInt = n :=
  Number.ext (toInt_clamp_of_mem n.lower n.upper)

/-- A larger integer never clamps to a smaller number. -/
theorem clamp_le_clamp {x y : Int} (h : x ≤ y) : clamp x ≤ clamp y := by
  rw [le_iff, toInt_clamp, toInt_clamp]; omega

theorem ofInt?_eq_some_iff {x : Int} {n : Number} : ofInt? x = some n ↔ x = n.toInt := by
  constructor
  · intro h
    unfold ofInt? at h
    split at h
    · cases h; rfl
    · cases h
  · rintro rfl
    simp [ofInt?, n.lower, n.upper]

end Number

/-- How many dice a term rolls. -/
@[ext]
structure Count where
  /-- The count itself. -/
  toNat : Nat
  /-- No term rolls 2³² dice or more. -/
  upper : toNat ≤ 4294967295
deriving DecidableEq

namespace Count

instance : OfNat Count 0 := ⟨⟨0, by decide⟩⟩

instance : OfNat Count 1 := ⟨⟨1, by decide⟩⟩

instance : Inhabited Count := ⟨1⟩

/-- The natural number as a count, if it is one. -/
def ofNat? (n : Nat) : Option Count :=
  if h : n ≤ 4294967295 then some ⟨n, h⟩ else none

/-- The written form of a count: decimal digits. -/
def text (n : Count) : Text := Text.digits n.toNat

instance : ToString Count := ⟨fun n => String.ofList n.text⟩

theorem ofNat?_eq_some_iff {n : Nat} {c : Count} : ofNat? n = some c ↔ n = c.toNat := by
  constructor
  · intro h
    unfold ofNat? at h
    split at h
    · cases h; rfl
    · cases h
  · rintro rfl
    simp [ofNat?, c.upper]

end Count

end TabletopDice
