import TabletopDice.Proofs.Notation.Prefixes
import TabletopDice.Proofs.Notation.Printing

/-!
# Where blanks can stand

Numbers, modifiers and dice terms, wherever they come from, are made of digits and a few other
characters (`DiceForm.ofTerm`). No blank is among these, and so an atom does not end with one. This is
what it takes to show that blanks behind an expression do not only do no harm (`Derives.padded`) but
make no difference at all: they belong to the operand that the text ends in, and taken away from there
they leave the same expression (`Derives.dropBlank`).

The written form of an expression has a blank on either side of an operator and no other, and so it
fits on a line.
-/

set_option autoImplicit false

namespace TabletopDice

namespace Notation

/-! ## The characters of terms -/

/-- What there is in numbers and dice terms besides digits. -/
def termSigns : Text := ['+', '-', 'd', 'k', 'h', 'l', 'r', 'x', 'c', 's', '<', '>', '=']

/-- Whether a character can stand in a number or a dice term. -/
def isTermCharacter (c : Char) : Bool := c.isDigit || termSigns.contains c

/-- The text is made of such characters alone. -/
def OfTerm (t : Text) : Prop := ∀ c ∈ t, isTermCharacter c = true

theorem OfTerm.append {t u : Text} (h : OfTerm t) (k : OfTerm u) : OfTerm (t ++ u) :=
  List.forall_mem_append.2 ⟨h, k⟩

theorem OfTerm.cons {c : Char} {t : Text} (h : isTermCharacter c = true) (k : OfTerm t) :
    OfTerm (c :: t) :=
  List.forall_mem_cons.2 ⟨h, k⟩

theorem OfTerm.not_mem {c : Char} {t : Text} (h : OfTerm t) (other : isTermCharacter c = false) :
    c ∉ t :=
  fun mem => Bool.eq_false_iff.1 other (h c mem)

/-- No blank is among them. -/
theorem isBlank_of_isTermCharacter {c : Char} (h : isTermCharacter c = true) :
    Text.isBlank c = false := by
  obtain digit | sign := Bool.or_eq_true_iff.1 h
  · exact Parser.isBlank_of_isDigit digit
  · have solid : termSigns.all (fun d => !Text.isBlank d) = true := rfl
    simpa using List.all_eq_true.1 solid c (List.contains_iff_mem.1 sign)

theorem Unsigned.ofTerm {t : Text} {n : Nat} (h : Unsigned t n) : OfTerm t :=
  fun c mem => Bool.or_eq_true_iff.2 (.inl (h.digits c mem))

theorem Signed.ofTerm {t : Text} {n : Number} (h : Signed t n) : OfTerm t := by
  cases h with
  | plain digits => exact digits.ofTerm
  | plus digits => exact .cons (by decide) digits.ofTerm
  | minus digits => exact .cons (by decide) digits.ofTerm

theorem ModifierForm.ofTerm {t : Text} {m : Modifier} (h : ModifierForm t m) : OfTerm t := by
  obtain ⟨b, f, u, n, listed, number, rfl, -⟩ := h
  have letters : beginnings.all (fun p => p.1.all isTermCharacter) = true := rfl
  have beginning : OfTerm b := List.all_eq_true.1 (List.all_eq_true.1 letters _ listed)
  exact beginning.append number.ofTerm

theorem ModifiersForm.ofTerm {t : Text} {ms : List Modifier} (h : ModifiersForm t ms) :
    OfTerm t := by
  induction h with
  | none => exact List.forall_mem_nil _
  | next first more ih => exact first.ofTerm.append ih

theorem DiceForm.ofTerm {t : Text} {d : Dice} (h : DiceForm t d) : OfTerm t := by
  cases h with
  | term dice faces modifiers distinct =>
    have sides := OfTerm.cons (c := 'd') (by decide) (faces.ofTerm.append modifiers.ofTerm)
    cases dice with
    | omitted => exact sides
    | given digits => exact digits.ofTerm.append sides

/-! ## Blanks behind an expression -/

theorem Derives.last_of_atom {t : Text} {c : Char} {e : Expr} (h : Derives .atom (t ++ [c]) e) :
    Text.isBlank c = false := by
  generalize whole : t ++ [c] = s at h
  have within : c ∈ s := by simp [← whole]
  cases h with
  | number form => exact isBlank_of_isTermCharacter (form.ofTerm c within)
  | dice form => exact isBlank_of_isTermCharacter (form.ofTerm c within)
  | group form =>
    obtain ⟨-, last⟩ := List.append_inj' whole rfl
    rw [List.singleton_inj.1 last]
    decide

/-- A text that ends in an operand loses its last character where the operand does. -/
theorem exists_operand_end {t first last : Text} {c o : Char} (same : t ++ [c] = first ++ o :: last)
    (operand : last ≠ []) : ∃ u, last = u ++ [c] ∧ t = first ++ o :: u := by
  obtain ⟨u, d, rfl⟩ := (List.eq_nil_or_concat last).resolve_left operand
  rw [List.concat_eq_append] at same ⊢
  rw [← List.cons_append, ← List.append_assoc] at same
  obtain ⟨front, tail⟩ := List.append_inj' same rfl
  exact ⟨u, by rw [tail], front⟩

/-- A blank at the end of anything but an atom can be left out. -/
theorem Derives.dropBlank {l : Layer} {t : Text} {c : Char} {e : Expr} (h : Derives l (t ++ [c]) e)
    (loose : l ≠ .atom) (blank : Text.isBlank c = true) : Derives l t e := by
  generalize whole : t ++ [c] = s at h
  induction h generalizing t with
  | number form => exact absurd rfl loose
  | dice form => exact absurd rfl loose
  | group form => exact absurd rfl loose
  | @factor before a behind e left form right =>
    obtain rfl | ⟨b, d, rfl⟩ := List.eq_nil_or_concat behind
    · -- with nothing behind it, the atom would end with the blank
      obtain ⟨u, d, rfl⟩ := (List.eq_nil_or_concat a).resolve_left form.ne_nil
      rw [List.append_nil, List.concat_eq_append, ← List.append_assoc] at whole
      obtain ⟨-, same⟩ := List.append_inj' whole rfl
      have last := Derives.last_of_atom (List.concat_eq_append ▸ form)
      rw [← List.singleton_inj.1 same, blank] at last
      cases last
    · rw [List.concat_eq_append, ← List.append_assoc] at whole
      obtain ⟨rfl, -⟩ := List.append_inj' whole rfl
      exact .factor left form fun x mem => right x (by simp [mem])
  | product form ih => exact .product (ih (by decide) whole)
  | sum form ih => exact .sum (ih (by decide) whole)
  -- the blank behind two operands is the blank behind the second one
  | times first last ihl ihr =>
    obtain ⟨u, rfl, rfl⟩ := exists_operand_end whole last.ne_nil
    exact .times first (ihr (by decide) rfl)
  | plus first last ihl ihr =>
    obtain ⟨u, rfl, rfl⟩ := exists_operand_end whole last.ne_nil
    exact .plus first (ihr (by decide) rfl)
  | minus first last ihl ihr =>
    obtain ⟨u, rfl, rfl⟩ := exists_operand_end whole last.ne_nil
    exact .minus first (ihr (by decide) rfl)

theorem derives_append_blank_iff {t : Text} {c : Char} {e : Expr}
    (blank : Text.isBlank c = true) : Derives .sum (t ++ [c]) e ↔ Derives .sum t e := by
  constructor
  · exact fun h => h.dropBlank (by decide) blank
  · exact fun h => h.padded (b := []) (by decide) (by simp) (by simpa using blank)

/-- Blanks at the end of a text do not decide whether it is read, or as what. -/
theorem ofText_append_blank_eq_ok_iff {t : Text} {c : Char} {e : Expr}
    (blank : Text.isBlank c = true) : Expr.ofText (t ++ [c]) = .ok e ↔ Expr.ofText t = .ok e := by
  constructor
  · intro read
    exact ((derives_append_blank_iff blank).1 (derives_of_ofText_eq_ok read)).ofText_eq_ok
  · intro read
    exact ((derives_append_blank_iff blank).2 (derives_of_ofText_eq_ok read)).ofText_eq_ok

/-! ## The written form -/

theorem newline_not_mem_text (e : Expr) : '\n' ∉ e.text := by
  induction e with
  | number n => exact (signed_text n).ofTerm.not_mem (by decide)
  | dice d => exact (diceForm_text d).ofTerm.not_mem (by decide)
  | join o left right ihl ihr =>
    have grouped : ∀ needed {t : Text}, '\n' ∉ t → '\n' ∉ Expr.grouped needed t := by
      intro needed t single
      cases needed <;> simp [Expr.grouped, single]
    have symbol : '\n' ≠ o.symbol := by cases o <;> decide
    simp [Expr.text, grouped _ ihl, grouped _ ihr, symbol]

end Notation

end TabletopDice
