import TabletopDice.Proofs.Notation.Grammar
import TabletopDice.Proofs.Notation.Reading

/-!
# Numbers are read as they are written

What stands for a number in front of a text is a sign or none, and then a `0` by itself or another
digit and every digit directly behind it (`BeginsWith`). `Parser.number` takes that and nothing
else, wherever the value is in range (`yields_number_iff`).

So it takes exactly the signed runs of digits that stand for a `Number`: whatever it takes is one
(`sound_number`), and it takes every one that no further digit follows (`reads_number`).
-/

set_option autoImplicit false

namespace TabletopDice.Parser

open Notation

/-- The class of what may follow a number. -/
def notDigit (c : Char) : Bool := !c.isDigit

/-! ## What stands in front of a text -/

/-- A run of digits in front of a text: a `0` by itself, or another digit and every digit directly
behind it. -/
inductive Numeral : Text → Text → Prop
  | zero {rest : Text} : Numeral ['0'] rest
  | digits {c : Char} {t rest : Text} (leading : c.isDigit = true) (nonzero : c ≠ '0')
      (more : ∀ d ∈ t, d.isDigit = true) (all : Ahead notDigit rest) : Numeral (c :: t) rest

/-- A text begins with at most one sign and a run of digits, and a rest follows. -/
structure BeginsWith (s : Text) (sign : Option Char) (t rest : Text) : Prop where
  split : s = sign.toList ++ t ++ rest
  signs : ∀ c ∈ sign, c = '+' ∨ c = '-'
  numeral : Numeral t rest

/-- Such a run is a number without a leading zero. -/
theorem Numeral.unsigned {t rest : Text} (h : Numeral t rest) :
    Unsigned t (Nat.ofDigitChars 10 t 0) := by
  cases h with
  | zero => exact ⟨List.forall_mem_singleton.2 rfl, List.cons_ne_nil _ _, fun _ => rfl, rfl⟩
  | @digits c t rest leading nonzero more all =>
    refine ⟨List.forall_mem_cons.2 ⟨leading, more⟩, List.cons_ne_nil _ _, fun zero => ?_, rfl⟩
    exact absurd (Option.some.inj zero) nonzero

/-- A number without a leading zero is such a run, where no further digit follows. -/
theorem numeral_of_unsigned {t rest : Text} {n : Nat} (h : Unsigned t n)
    (stop : Ahead notDigit rest) : Numeral t rest := by
  obtain ⟨c, u, rfl, digit⟩ := h.exists_cons
  by_cases zero : c = '0'
  · subst zero
    obtain rfl : u = [] := by simpa using h.leading rfl
    exact .zero
  · exact .digits digit zero (fun d mem => h.digits d (List.mem_cons_of_mem c mem)) stop

/-! ## Natural numbers -/

theorem isLeadingDigit_iff {c : Char} : isLeadingDigit c = true ↔ c.isDigit = true ∧ c ≠ '0' := by
  have zero : c = '0' ↔ c.toNat = 48 := by
    constructor
    · rintro rfl
      rfl
    · intro h
      exact Char.toNat_inj.1 h
  simp only [isLeadingDigit, Char.isDigit, Bool.and_eq_true, decide_eq_true_eq, ne_eq, zero,
    Char.le_def, ge_iff_le, UInt32.le_iff_toNat_le, Char.toNat]
  simp only [show '0'.val.toNat = 48 from rfl, show '1'.val.toNat = 49 from rfl,
    show '9'.val.toNat = 57 from rfl]
  omega

/-- No character of a class is left in front once all of them have been taken. -/
theorem ahead_notDigit_dropWhile (s : Text) : Ahead notDigit (s.dropWhile Char.isDigit) := by
  intro c first
  have stopped := List.head?_dropWhile_not Char.isDigit s
  rw [Option.mem_def.1 first] at stopped
  simpa [notDigit] using stopped

/-- A natural number is read off the front exactly where a run of digits stands there. -/
theorem yields_natural_iff {s r : Text} {n : Nat} :
    Yields natural s n r ↔ ∃ t, s = t ++ r ∧ Numeral t r ∧ Nat.ofDigitChars 10 t 0 = n := by
  constructor
  · intro h
    rcases yields_orElse.1 h with h | ⟨-, h⟩
    · obtain ⟨ds, read, value⟩ := yields_map.1 h
      obtain ⟨c, t, rfl, leading, rfl, rfl⟩ := yields_positiveDigits.1 read
      obtain ⟨digit, nonzero⟩ := isLeadingDigit_iff.1 leading
      refine ⟨c :: t.takeWhile Char.isDigit, by simp, ?_, value⟩
      exact .digits digit nonzero (List.all_eq_true.1 List.all_takeWhile)
        (ahead_notDigit_dropWhile t)
    · obtain ⟨rfl, rfl⟩ := yields_literal_map.1 h
      exact ⟨['0'], rfl, .zero, rfl⟩
  · rintro ⟨t, rfl, numeral, rfl⟩
    cases numeral with
    | zero =>
      -- a leading zero stands alone, whatever follows it
      refine yields_orElse.2 (.inr ⟨rejects_bind (rejects_iff.2 ?_), ?_⟩)
      · intro ds v k
        obtain ⟨c, u, same, leading, -⟩ := yields_positiveDigits.1 k
        obtain ⟨rfl, -⟩ := List.cons.inj same
        exact absurd leading (by decide)
      · exact yields_literal_map.2 ⟨by decide, rfl⟩
    | @digits c t rest digit nonzero more all =>
      refine yields_orElse.2 (.inl (yields_map.2 ⟨c :: t, ?_, rfl⟩))
      refine yields_positiveDigits.2 ⟨c, t ++ r, rfl, isLeadingDigit_iff.2 ⟨digit, nonzero⟩, ?_, ?_⟩
      · rw [takeWhile_append_of_ahead more all]
      · rw [dropWhile_append_of_ahead more all]

theorem sound_natural : Sound natural Unsigned := by
  intro s n r h
  obtain ⟨t, rfl, numeral, rfl⟩ := yields_natural_iff.1 h
  exact ⟨t, rfl, numeral.unsigned⟩

theorem reads_natural : Reads natural Unsigned notDigit := by
  intro t n r h stop
  exact yields_natural_iff.2 ⟨t, rfl, numeral_of_unsigned h stop, h.value⟩

theorem begins_natural : Begins natural Char.isDigit := by
  intro s n r h
  obtain ⟨t, rfl, form⟩ := sound_natural h
  obtain ⟨c, u, rfl, digit⟩ := form.exists_cons
  exact ⟨c, u ++ r, rfl, digit⟩

/-! ## The size of a number -/

/-- What fits into 64 bits without a sign fits there with one. -/
theorem toInt_withSign {m : Nat} (fits : m ≤ 9223372036854775807) (sign : Option Char) :
    (withSign sign (Int64.ofNat m)).toInt = valueOf sign m := by
  have room : m < 2 ^ 63 := Nat.lt_succ_of_le fits
  unfold withSign valueOf
  split
  · exact Int64.toInt_neg_ofNat_of_le (Nat.le_of_lt room)
  · exact Int64.toInt_ofNat_of_lt room

theorem narrow_eq_ok_iff {w : Int64} {v : Number} : narrow w = .ok v ↔ v.toInt = w.toInt := by
  unfold narrow
  constructor
  · intro h
    split at h
    · cases h
    · split at h
      · cases h
      · cases h
        rfl
  · intro same
    have low := v.lower
    have high := v.upper
    rw [dif_neg (by omega), dif_neg (by omega)]
    exact congrArg Except.ok (Number.ext same.symm)

theorem signed_of_le {sign : Option Char} {m : Nat} (fits : m ≤ 9223372036854775807) :
    signed sign m = narrow (withSign sign (Int64.ofNat m)) := by
  rw [signed, wide?, if_pos fits]

theorem signed_of_gt {sign : Option Char} {m : Nat} (much : 9223372036854775807 < m) :
    signed sign m = .error .numberTooLarge := by
  rw [signed, wide?, if_neg (Nat.not_le_of_lt much)]

/-- The two looks at the size of a number come to one: the signed value is in range. -/
theorem signed_eq_ok_iff {sign : Option Char} {m : Nat} {v : Number} :
    signed sign m = .ok v ↔ v.toInt = valueOf sign m := by
  by_cases fits : m ≤ 9223372036854775807
  · rw [signed_of_le fits, narrow_eq_ok_iff, toInt_withSign fits]
  · rw [signed_of_gt (Nat.lt_of_not_le fits)]
    simp only [reduceCtorEq, false_iff]
    intro same
    have low := v.lower
    have high := v.upper
    have either := valueOf_eq_or sign m
    omega

/-! ## Signed numbers -/

/-- What is read of a number before its size is looked at. -/
def numberParts : Parser (Option Char × Nat) := do
  let sign ← optional (oneOf ['+', '-'])
  let magnitude ← natural
  pure (sign, magnitude)

theorem number_eq : number = check numberParts fun parts => signed parts.1 parts.2 := rfl

theorem yields_numberParts {s r : Text} {sign : Option Char} {m : Nat} :
    Yields numberParts s (sign, m) r ↔
      ∃ t, Yields (optional (oneOf ['+', '-'])) s sign t ∧ Yields natural t m r := by
  rw [numberParts, yields_bind]
  constructor
  · rintro ⟨o, t, first, read⟩
    obtain ⟨k, second, same⟩ := yields_map.1 read
    obtain ⟨rfl, rfl⟩ := Prod.mk.inj same
    exact ⟨t, first, second⟩
  · rintro ⟨t, first, second⟩
    exact ⟨sign, t, first, yields_map.2 ⟨m, second, rfl⟩⟩

/-- A sign is read where one stands, and where a digit stands none is missed. -/
theorem yields_sign {sign : Option Char} {t rest : Text} (signs : ∀ c ∈ sign, c = '+' ∨ c = '-')
    (numeral : Numeral t rest) :
    Yields (optional (oneOf ['+', '-'])) (sign.toList ++ t ++ rest) sign (t ++ rest) := by
  cases sign with
  | some c =>
    refine yields_optional.2 (.inl ⟨c, rfl, yields_oneOf.2 ⟨?_, rfl⟩⟩)
    simpa using signs c rfl
  | none =>
    refine yields_optional.2 (.inr ⟨rejects_iff.2 fun d u k => ?_, rfl, rfl⟩)
    -- the first digit is not taken for a sign
    obtain ⟨c, v, rfl, digit⟩ := numeral.unsigned.exists_cons
    obtain ⟨sort, same⟩ := yields_oneOf.1 k
    obtain ⟨rfl, -⟩ := List.cons.inj same
    simp only [List.mem_cons, List.not_mem_nil, or_false] at sort
    rcases sort with rfl | rfl <;> exact absurd digit (by decide)

theorem yields_numberParts_iff {s r : Text} {sign : Option Char} {m : Nat} :
    Yields numberParts s (sign, m) r ↔
      ∃ t, BeginsWith s sign t r ∧ Nat.ofDigitChars 10 t 0 = m := by
  rw [yields_numberParts]
  constructor
  · rintro ⟨u, first, second⟩
    obtain ⟨t, rfl, numeral, value⟩ := yields_natural_iff.1 second
    rcases yields_optional.1 first with ⟨c, rfl, read⟩ | ⟨-, rfl, rfl⟩
    · obtain ⟨sort, rfl⟩ := yields_oneOf.1 read
      exact ⟨t, ⟨rfl, by simpa using sort, numeral⟩, value⟩
    · exact ⟨t, ⟨rfl, by simp, numeral⟩, value⟩
  · rintro ⟨t, ⟨rfl, signs, numeral⟩, value⟩
    exact ⟨t ++ r, yields_sign signs numeral, yields_natural_iff.2 ⟨t, rfl, numeral, value⟩⟩

/-- A number is read off the front exactly where a sign or none and a run of digits stand there and
their value is in range. -/
theorem yields_number_iff {s r : Text} {v : Number} :
    Yields number s v r ↔
      ∃ sign t, BeginsWith s sign t r ∧ v.toInt = valueOf sign (Nat.ofDigitChars 10 t 0) := by
  rw [number_eq, yields_check]
  constructor
  · rintro ⟨⟨sign, m⟩, read, fits⟩
    obtain ⟨t, stands, rfl⟩ := yields_numberParts_iff.1 read
    exact ⟨sign, t, stands, signed_eq_ok_iff.1 fits⟩
  · rintro ⟨sign, t, stands, value⟩
    exact ⟨(sign, _), yields_numberParts_iff.2 ⟨t, stands, rfl⟩, signed_eq_ok_iff.2 value⟩

theorem sound_number : Sound number Signed := by
  intro s v r h
  obtain ⟨sign, t, ⟨rfl, signs, numeral⟩, value⟩ := yields_number_iff.1 h
  refine ⟨sign.toList ++ t, rfl, ?_⟩
  cases sign with
  | none => exact .plain numeral.unsigned value
  | some c =>
    rcases signs c rfl with rfl | rfl
    · exact .plus numeral.unsigned value
    · exact .minus numeral.unsigned value

theorem reads_number : Reads number Signed notDigit := by
  intro t v r h stop
  cases h with
  | plain digits value =>
    obtain rfl := digits.value
    exact yields_number_iff.2 ⟨none, _, ⟨rfl, by simp, numeral_of_unsigned digits stop⟩, value⟩
  | plus digits value =>
    obtain rfl := digits.value
    exact yields_number_iff.2 ⟨some '+', _, ⟨rfl, by simp, numeral_of_unsigned digits stop⟩, value⟩
  | minus digits value =>
    obtain rfl := digits.value
    exact yields_number_iff.2 ⟨some '-', _, ⟨rfl, by simp, numeral_of_unsigned digits stop⟩, value⟩

theorem begins_number : Begins number isSignOrDigit := by
  intro s v r h
  obtain ⟨t, rfl, form⟩ := sound_number h
  obtain ⟨c, u, rfl, sort⟩ := form.exists_cons
  exact ⟨c, u ++ r, rfl, sort⟩

end TabletopDice.Parser
