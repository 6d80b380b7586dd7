import TabletopDice.Proofs.Notation.Notes
import TabletopDice.Proofs.Notation.Printing

/-!
# Numbers in range and out of it

A run of digits may have any length, while a number has a first and a last value. Between the two
stand 64 bits: the digits are put there, the sign is changed there, and what comes of it is cut down
to a number. No number is lost on that way, and none is mistaken for another (`number_exact`): the
sign of a magnitude that fits can always be changed, because the bits reach as far down as they
reach up, and one farther.

What does not fit into the bits is refused before its sign is looked at, and always as too large. So
a negative number is said to be too small as long as its magnitude fits, and to be too large from
−2⁶³ downwards (`Number.ofText_outOfRange`).
-/

set_option autoImplicit false

namespace TabletopDice

/-- The side on which an integer lies that is out of range. -/
def Fault.ofSide (x : Int) : Fault := if x < 0 then .numberTooSmall else .numberTooLarge

namespace Parser

open Notation

/-! ## What is read -/

/-- A magnitude and its sign are put into 64 bits as they are, or not at all. -/
theorem map_toInt_withSign (sign : Option Char) (m : Nat) :
    (wide? m).map (fun wide => (withSign sign wide).toInt) =
      if m ≤ 9223372036854775807 then some (valueOf sign m) else none := by
  unfold wide?
  split
  · rename_i fits
    exact congrArg some (toInt_withSign fits sign)
  · rfl

/-- **Exactly the numbers in range are read, and each as what it is.** In front of a text a number is
read if and only if there are a sign or none and a `0`, or another digit and all digits directly
behind it, whose value is in range; the number is that value, and what is left is what follows. On
the way there, no value in 64 bits comes back around when its sign is changed. -/
theorem number_exact :
    (∀ s v rest, front number s = .ok (v, rest) ↔
      ∃ sign t, BeginsWith s sign t rest ∧ v.toInt = valueOf sign (Nat.ofDigitChars 10 t 0)) ∧
    (∀ s, (∃ v rest, front number s = .ok (v, rest)) ↔
      ∃ sign t rest, BeginsWith s sign t rest ∧
        -2147483648 ≤ valueOf sign (Nat.ofDigitChars 10 t 0) ∧
          valueOf sign (Nat.ofDigitChars 10 t 0) ≤ 2147483647) ∧
    ∀ sign m, (wide? m).map (fun wide => (withSign sign wide).toInt) =
      if m ≤ 9223372036854775807 then some (valueOf sign m) else none := by
  have exact : ∀ s v rest, front number s = .ok (v, rest) ↔
      ∃ sign t, BeginsWith s sign t rest ∧ v.toInt = valueOf sign (Nat.ofDigitChars 10 t 0) :=
    fun s v rest => front_eq_ok_iff.trans yields_number_iff
  refine ⟨exact, fun s => ⟨?_, ?_⟩, map_toInt_withSign⟩
  · rintro ⟨v, rest, read⟩
    obtain ⟨sign, t, stands, value⟩ := (exact s v rest).1 read
    exact ⟨sign, t, rest, stands, value ▸ v.lower, value ▸ v.upper⟩
  · rintro ⟨sign, t, rest, stands, low, high⟩
    exact ⟨⟨_, low, high⟩, rest, (exact s _ rest).2 ⟨sign, t, stands, rfl⟩⟩

/-! ## What is refused -/

/-- The fault that is found with a value out of range. -/
theorem signed_outOfRange {sign : Option Char} {m : Nat}
    (out : valueOf sign m < -2147483648 ∨ 2147483647 < valueOf sign m) :
    signed sign m = .error
      (if -9223372036854775808 < valueOf sign m ∧ valueOf sign m < 0 then .numberTooSmall
        else .numberTooLarge) := by
  have either := valueOf_eq_or sign m
  by_cases fits : m ≤ 9223372036854775807
  · have value := toInt_withSign fits sign
    rw [signed_of_le fits, narrow]
    obtain low | high := out
    · rw [dif_pos (by omega), if_pos (by omega)]
    · rw [dif_neg (by omega), dif_pos (by omega), if_neg (by omega)]
  · rw [signed_of_gt (Nat.lt_of_not_le fits), if_neg (by omega)]

/-- That fault names the right side unless the value lies below everything that 64 bits reach with a
magnitude and a sign. -/
theorem fault_eq_ofSide_iff (x : Int) :
    (if -9223372036854775808 < x ∧ x < 0 then Fault.numberTooSmall else .numberTooLarge) =
      Fault.ofSide x ↔ -9223372036854775808 < x := by
  unfold Fault.ofSide
  by_cases below : x < 0
  · by_cases inside : -9223372036854775808 < x <;> simp [below, inside]
  · have inside : -9223372036854775808 < x := by omega
    simp [below, inside]

/-- Digits of a number other than 0 take back what was noted in front of them. -/
theorem standing_numberParts {sign : Option Char} {t : Text} {m : Nat} {x : Option Diagnostic}
    (signs : ∀ c ∈ sign, c = '+' ∨ c = '-') (digits : Unsigned t m) (nonzero : m ≠ 0) :
    Note.standing x (numberParts (sign.toList ++ t)).notes = none := by
  have numeral : Numeral t [] := numeral_of_unsigned digits ahead_nil
  have first := yields_sign signs numeral
  have second : Yields natural (t ++ []) m [] := yields_natural_iff.2 ⟨t, rfl, numeral, digits.value⟩
  rw [List.append_nil] at second
  rw [List.append_nil, List.append_nil] at first
  rw [notes_numberParts first second, Note.standing_append]
  cases numeral with
  | zero => exact absurd digits.value.symm nonzero
  | digits digit leading more all =>
    rw [notes_natural_of_leading (isLeadingDigit_iff.2 ⟨digit, leading⟩)]
    rfl

/-- A fault that is found with a number is what is reported of it. -/
theorem whole_number_of_fault {sign : Option Char} {t : Text} {m : Nat} {f : Fault}
    (signs : ∀ c ∈ sign, c = '+' ∨ c = '-') (digits : Unsigned t m)
    (fault : signed sign m = .error f) :
    whole number (sign.toList ++ t) = .error ⟨some ⟨(sign.toList ++ t).length, .fault f⟩⟩ := by
  have nonzero : m ≠ 0 := by
    rintro rfl
    have fits : signed sign 0 = .ok 0 := signed_eq_ok_iff.2 (by simp [valueOf])
    cases fits.symm.trans fault
  have stands : BeginsWith (sign.toList ++ t) sign t [] :=
    ⟨(List.append_nil _).symm, signs, numeral_of_unsigned digits ahead_nil⟩
  have read : Yields numberParts (sign.toList ++ t) (sign, m) [] :=
    yields_numberParts_iff.2 ⟨t, stands, digits.value⟩
  rw [number_eq, whole_check_of_error read fault, standing_numberParts signs digits nonzero]
  rfl

end Parser

open TabletopDice.Parser TabletopDice.Notation

/-- **What is said of a number out of range.** A sign or none and a run of digits whose value is out
of range are refused with a fault found with the number. The fault names the side on which the value
lies if and only if the value is above −2⁶³; at −2⁶³ and below it, the number is said to be too
large. -/
theorem Number.ofText_outOfRange {sign : Option Char} {t : Text} {n : Nat}
    (signs : ∀ c ∈ sign, c = '+' ∨ c = '-') (digits : Unsigned t n)
    (out : valueOf sign n < -2147483648 ∨ 2147483647 < valueOf sign n) :
    ∃ f, Number.ofText (sign.toList ++ t) =
        .error ⟨some ⟨(sign.toList ++ t).length, .fault f⟩⟩ ∧
      f.message = (if -9223372036854775808 < valueOf sign n ∧ valueOf sign n < 0 then
        "Integer: number too small to fit in target type"
        else "Integer: number too large to fit in target type") ∧
      (f = Fault.ofSide (valueOf sign n) ↔ -9223372036854775808 < valueOf sign n) := by
  refine ⟨_, whole_number_of_fault signs digits (signed_outOfRange out), ?_,
    fault_eq_ofSide_iff (valueOf sign n)⟩
  split <;> rfl

/-- The nearest values out of range, and the last one that is said to be too small. -/
theorem Number.ofText_outOfRange_nearest :
    (∃ f, Number.ofText "2147483648".toList = .error ⟨some ⟨10, .fault f⟩⟩ ∧
      f.message = "Integer: number too large to fit in target type" ∧
      f = Fault.ofSide 2147483648) ∧
    (∃ f, Number.ofText "-2147483649".toList = .error ⟨some ⟨11, .fault f⟩⟩ ∧
      f.message = "Integer: number too small to fit in target type" ∧
      f = Fault.ofSide (-2147483649)) ∧
    ∃ f, Number.ofText "-9223372036854775807".toList = .error ⟨some ⟨20, .fault f⟩⟩ ∧
      f.message = "Integer: number too small to fit in target type" ∧
      f = Fault.ofSide (-9223372036854775807) := by
  have unsigned : ∀ c ∈ (none : Option Char), c = '+' ∨ c = '-' := by simp
  have negative : ∀ c ∈ some '-', c = '+' ∨ c = '-' := by simp
  refine ⟨?_, ?_, ?_⟩
  · obtain ⟨f, refused, message, side⟩ :=
      Number.ofText_outOfRange unsigned (unsigned_digits 2147483648) (by decide)
    exact ⟨f, refused, message, side.2 (by decide)⟩
  · obtain ⟨f, refused, message, side⟩ :=
      Number.ofText_outOfRange negative (unsigned_digits 2147483649) (by decide)
    exact ⟨f, refused, message, side.2 (by decide)⟩
  · obtain ⟨f, refused, message, side⟩ :=
      Number.ofText_outOfRange negative (unsigned_digits 9223372036854775807) (by decide)
    exact ⟨f, refused, message, side.2 (by decide)⟩

/-- A negative number whose magnitude does not fit into 64 bits any more: it lies below every number,
and is said to be too large. -/
theorem Number.ofText_leastWide :
    Unsigned "9223372036854775808".toList 9223372036854775808 ∧
      valueOf (some '-') 9223372036854775808 < -2147483648 ∧
      (Number.ofText "-9223372036854775808".toList).mapError Refusal.message =
        .error "Integer: number too large to fit in target type" ∧
      (Fault.ofSide (valueOf (some '-') 9223372036854775808)).message =
        "Integer: number too small to fit in target type" := by
  have digits : Unsigned "9223372036854775808".toList 9223372036854775808 :=
    unsigned_digits 9223372036854775808
  have much : signed (some '-') 9223372036854775808 = .error .numberTooLarge :=
    signed_of_gt (by decide)
  have refused : Number.ofText "-9223372036854775808".toList =
      .error ⟨some ⟨20, .fault .numberTooLarge⟩⟩ := whole_number_of_fault (by simp) digits much
  refine ⟨digits, by decide, ?_, rfl⟩
  rw [refused]
  rfl

end TabletopDice
