import TabletopDice.Parser.Reach

/-!
# Reading numbers

A number is a run of digits without leading zeros: a single `0`, or a digit from 1 to 9 and all
the digits directly behind it. What stands for a signed number may have one `+` or `-` in front.
A run of any length is read to its end before anything is asked about its size, so a number that is
too large is refused as a whole and never cut short.

The size is looked at twice. The digits alone have to fit into 64 bits, and are too large if they
come to 2⁶³ or more, whatever the sign says (`wide?`). What fits is given its sign there
(`withSign`), and then the value is placed against the range of `Number`, where a negative one can be
too small (`narrow`).
-/

set_option autoImplicit false

namespace TabletopDice.Parser

/-- A digit that a number of several digits can begin with. -/
def isLeadingDigit (c : Char) : Bool := '1' ≤ c && c ≤ '9'

/-- Reads a run of digits that begins with one from 1 to 9. Reading it clears what was pending;
where there is none, nothing in particular is said to have been wanted. -/
def positiveDigits : Parser Text := fun s =>
  match s with
  | [] => ⟨none, [.raised ⟨0, .unexpected [] none⟩]⟩
  | c :: r =>
    if isLeadingDigit c then
      ⟨some (c :: r.takeWhile Char.isDigit, r.dropWhile Char.isDigit), [.cleared]⟩
    else ⟨none, [.raised ⟨s.length, .unexpected [] (some c)⟩]⟩

/-- Reads a natural number. -/
def natural : Parser Nat :=
  Parser.orElse (do let ds ← positiveDigits; pure (Nat.ofDigitChars 10 ds 0))
    (do literal ['0']; pure 0)

/-- A magnitude in 64 bits, if there is room for it. -/
def wide? (magnitude : Nat) : Option Int64 :=
  if magnitude ≤ 9223372036854775807 then some (Int64.ofNat magnitude) else none

/-- A magnitude behind a sign, `-` or another one or none. The sign is changed within the 64 bits. -/
def withSign (sign : Option Char) (magnitude : Int64) : Int64 :=
  if sign = some '-' then -magnitude else magnitude

/-- The number that 64 bits hold, if they hold one. -/
def narrow (value : Int64) : Except Fault Number :=
  if low : value.toInt < -2147483648 then .error .numberTooSmall
  else if high : 2147483647 < value.toInt then .error .numberTooLarge
  else .ok ⟨value.toInt, by omega, by omega⟩

/-- The number with a sign and a magnitude. -/
def signed (sign : Option Char) (magnitude : Nat) : Except Fault Number :=
  match wide? magnitude with
  | none => .error .numberTooLarge
  | some wide => narrow (withSign sign wide)

/-- Reads a number with or without a sign. -/
def number : Parser Number :=
  check
    (do
      let sign ← optional (oneOf ['+', '-'])
      let magnitude ← natural
      pure (sign, magnitude))
    fun (sign, magnitude) => signed sign magnitude

/-! ## What is left behind a number -/

theorem yields_positiveDigits {s r ds : Text} :
    Yields positiveDigits s ds r ↔
      ∃ c t, s = c :: t ∧ isLeadingDigit c = true ∧ ds = c :: t.takeWhile Char.isDigit ∧
        r = t.dropWhile Char.isDigit := by
  cases s with
  | nil => simp [positiveDigits, Yields]
  | cons c t =>
    by_cases leading : isLeadingDigit c = true
    · constructor
      · intro h
        obtain ⟨rfl, rfl⟩ : c :: t.takeWhile Char.isDigit = ds ∧ t.dropWhile Char.isDigit = r := by
          simpa [positiveDigits, Yields, leading] using h
        exact ⟨c, t, rfl, leading, rfl, rfl⟩
      · rintro ⟨_, _, same, -, rfl, rfl⟩
        obtain ⟨rfl, rfl⟩ := List.cons.inj same
        simp [positiveDigits, Yields, leading]
    · simp [positiveDigits, Yields, leading]

theorem takesFront_positiveDigits : TakesFront positiveDigits := by
  intro s ds r h
  obtain ⟨c, t, rfl, -, -, rfl⟩ := yields_positiveDigits.1 h
  exact (List.dropWhile_suffix _).trans (List.suffix_cons c t)

theorem takesFront_natural : TakesFront natural :=
  (takesFront_positiveDigits.bind fun _ => .pure _).orElse
    ((TakesFront.literal _).bind fun _ => .pure _)

theorem takesFront_number : TakesFront number :=
  ((TakesFront.oneOf _).optional.bind fun _ => takesFront_natural.bind fun _ => .pure _).check

end TabletopDice.Parser
