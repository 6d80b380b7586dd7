/-!
# Text, one character at a time

Everything this library reads or writes is a short line of text, and nearly every statement about
it cuts such a line somewhere: what was read, what is left, what stands between two commas. So the
core works on lists of characters, and `String` appears only where a line comes in from a caller or
goes back out to one.

Numbers are written in plain decimal digits. The digits themselves are core's
(`Nat.toDigits 10`, read back by `Nat.ofDigitChars 10`); what this file adds is the sign, and the
one fact about the leading digit that core does not state: no written number but `0` starts with
a `0` (`digits_eq_zero_of_head`), so a reader that refuses leading zeros refuses nothing a writer
produces.
-/

set_option autoImplicit false

namespace TabletopDice

/-- A line of text, in reading order. -/
abbrev Text := List Char

namespace Text

/-- The decimal digits of a natural number, without leading zeros. -/
def digits (n : Nat) : Text := Nat.toDigits 10 n

/-- An integer in decimal: a `-` in front of a negative one, and no sign otherwise. -/
def integer (x : Int) : Text :=
  if x < 0 then '-' :: digits x.natAbs else digits x.natAbs

/-- Entries with a comma and a blank between each two of them. -/
def listed (entries : List Text) : Text := [',', ' '].intercalate entries

/-! ## The digits of a written number -/

theorem ofDigitChars_digits (n : Nat) : Nat.ofDigitChars 10 (digits n) 0 = n :=
  Nat.ofDigitChars_ten_toDigits

theorem isDigit_of_mem_digits {n : Nat} {c : Char} (h : c ∈ digits n) : c.isDigit = true :=
  Nat.isDigit_of_mem_toDigits (by decide) (by decide) h

theorem digits_of_lt_ten {n : Nat} (h : n < 10) : digits n = [n.digitChar] :=
  Nat.toDigits_of_lt_base h

/-- Every digit but the last belongs to the number without its last digit. -/
theorem digits_eq_append {n : Nat} (h : 10 ≤ n) :
    digits n = digits (n / 10) ++ [(n % 10).digitChar] := by
  have last : n % 10 < 10 := Nat.mod_lt n (by decide)
  have joined := Nat.toDigits_append_toDigits (b := 10) (by decide) (by omega : 0 < n / 10) last
  rw [Nat.div_add_mod, Nat.toDigits_of_lt_base last] at joined
  exact joined.symm

theorem digits_ne_nil (n : Nat) : digits n ≠ [] := by
  by_cases h : n < 10
  · simp [digits_of_lt_ten h]
  · simp [digits_eq_append (by omega : 10 ≤ n)]

/-- Only the number zero is written with a leading `0`. -/
theorem digits_eq_zero_of_head {n : Nat} (h : (digits n).head? = some '0') : n = 0 := by
  induction n using Nat.strongRecOn with
  | ind n ih =>
    by_cases small : n < 10
    · simpa [digits_of_lt_ten small] using h
    · have front := digits_eq_append (by omega : 10 ≤ n)
      obtain ⟨c, rest, shape⟩ := List.exists_cons_of_ne_nil (digits_ne_nil (n / 10))
      have := ih (n / 10) (by omega) (by rw [front, shape] at h; rw [shape]; simpa using h)
      omega

end Text

end TabletopDice
