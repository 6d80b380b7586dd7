import TabletopDice.Source

/-!
# Random faces from a seed

The generator's state is one 64-bit word, at first the seed. Each step adds an odd constant to it,
all additions and products wrapping at 64 bits, and scrambles the sum into a word of output: the sum
is multiplied with itself after some of its bits were flipped, and the upper and the lower half of
the 128-bit product are laid over each other.

A face between 1 and `n` is made from 32 bits of output as the integer part of `n · word / 2³²`. The
words whose fractional part, `n · word mod 2³²`, is smaller than `2³² mod n` are passed over
(`Generator.fair`): what remains of the range of fractional parts is a whole number of times `n`
long, and so each face is left with equally many words.

Since the constant is odd, the state comes back to where it was only after all 2⁶⁴ states. A wait
for a fair word that lasted that long would go on forever, so the search may as well stop there.

## Whose rules these are

The program does not make its random numbers itself: it calls the library `fastrand`, and this file
stands for what it calls there, a generator with a given seed and its choice of a number from 1 to
`n`. Five rules of that library are taken over: the step of the state with its constant
(`increment`), the scrambling with the bits that it flips (`flips`, `scramble`), the lower half of
the output as the word for a face (`next`), the product that turns a word into a face (`faceOf`),
and the words that are passed over (`fair`). The library works out `2³² mod n` only for a fractional
part below `n`; a larger one is never below that remainder, and so it passes over the same words.
That a die without sides shows 0 and leaves the generator alone is the program's own rule. How the
library seeds itself where it is not told to, and whatever else it can choose, is not here.

No statement about rolling rests on these rules unless it names the generator. What such statements
need of it is that its faces are on the dice and that it finds the lowest and the highest of them,
and every other supply that does so serves as well (`Source.Covers`).
-/

set_option autoImplicit false

namespace TabletopDice.Generator

/-- What is added to the state in each step. -/
def increment : UInt64 := 0x2d358dccaa6c78a5

/-- The bits that are flipped in one of the factors. -/
def flips : UInt64 := 0x8bb84b93962eacc9

/-- The word of output for a state. -/
def scramble (state : UInt64) : UInt64 :=
  let product := state.toNat * (state ^^^ flips).toNat
  UInt64.ofNat product ^^^ UInt64.ofNat (product >>> 64)

/-- The next 32 bits of output, and the state that produced them. -/
def next (state : UInt64) : UInt32 × UInt64 :=
  let state := state + increment
  ((scramble state).toUInt32, state)

/-- Whether a word is not one of those passed over for a die with `n` sides. -/
def fair (n : Nat) (word : UInt32) : Bool := UInt32.size % n ≤ word.toNat * n % UInt32.size

/-- The face that a word stands for on a die with `n` sides. -/
def faceOf (n : Nat) (word : UInt32) : Nat := 1 + word.toNat * n / UInt32.size

/-- The face made from the first fair word within so many words. -/
def search (n : Nat) : (words : Nat) → (state : UInt64) → Nat × UInt64
  | 0, state => (1, state)
  | words + 1, state =>
    let (word, state) := next state
    if fair n word then (faceOf n word, state) else search n words state

/-- The face of a die, and the state afterwards. A die without sides shows 0 and takes nothing from
the generator. -/
def roll (state : UInt64) (sides : Number) : Number × UInt64 :=
  if sides < 1 then (0, state)
  else
    let (face, state) := search sides.toInt.toNat UInt64.size state
    (Number.clamp face, state)

/-- Random faces, as many as an allowance permits. -/
def source : Source (Nat × UInt64) := Source.limited roll

/-! ## Every face is on the die -/

theorem one_le_faceOf (n : Nat) (word : UInt32) : 1 ≤ faceOf n word := Nat.le_add_right 1 _

theorem faceOf_le {n : Nat} (h : 0 < n) (word : UInt32) : faceOf n word ≤ n := by
  have small : word.toNat * n / UInt32.size < n := by
    rw [Nat.div_lt_iff_lt_mul (by decide), Nat.mul_comm]
    exact Nat.mul_lt_mul_of_pos_left word.toNat_lt h
  unfold faceOf
  omega

theorem search_mem {n : Nat} (h : 0 < n) (words : Nat) (state : UInt64) :
    1 ≤ (search n words state).1 ∧ (search n words state).1 ≤ n := by
  induction words generalizing state with
  | zero => exact ⟨Nat.le_refl 1, h⟩
  | succ words ih =>
    unfold search
    split
    split
    · exact ⟨one_le_faceOf n _, faceOf_le h _⟩
    · exact ih _

/-- A die with sides shows one of them. -/
theorem roll_mem (state : UInt64) {sides : Number} (real : 1 ≤ sides) :
    1 ≤ (roll state sides).1 ∧ (roll state sides).1 ≤ sides := by
  have notSideless := Number.not_lt.2 real
  simp only [Number.le_iff, Number.toInt_one] at real ⊢
  have inside := search_mem (n := sides.toInt.toNat) (by omega) UInt64.size state
  simp only [roll, if_neg notSideless, Number.toInt_clamp]
  have := sides.upper
  omega

/-- A die without sides shows 0. -/
theorem roll_of_lt_one (state : UInt64) {sides : Number} (sideless : sides < 1) :
    roll state sides = (0, state) := if_pos sideless

end TabletopDice.Generator
