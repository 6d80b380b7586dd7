import TabletopDice.Proofs.Notation.Expressions

/-!
# What is read off the front stands by itself

A reader looks farther than it reads. It begins dice terms that it cannot finish, numbers that turn
out too large, operators with nothing behind them and groups that are never closed, and then it goes
back and does without. None of this shows in what it has read: the text that it took is not empty,
and given that text alone it reads the same value again, with nothing left over (`Parser.Local`).

No state of a reader has to be followed for this. What a reader takes has a form of the grammar, and
a text of that form is read wherever nothing behind it continues it, so above all at the end.
-/

set_option autoImplicit false

namespace TabletopDice

namespace Notation

/-- No text of any layer is empty: every one of them has an atom inside. -/
theorem Derives.ne_nil {l : Layer} {t : Text} {e : Expr} (h : Derives l t e) : t ≠ [] := by
  induction h with
  | number form =>
    obtain ⟨c, u, rfl, -⟩ := form.exists_cons
    simp
  | dice form => cases form; simp
  | group form ih => simp
  | factor left form right ih => simp [ih]
  | product form ih => exact ih
  | sum form ih => exact ih
  | times left right ihl ihr => simp
  | plus left right ihl ihr => simp
  | minus left right ihl ihr => simp

theorem DiceForm.ne_nil {t : Text} {d : Dice} (h : DiceForm t d) : t ≠ [] :=
  (Derives.dice h).ne_nil

theorem Signed.ne_nil {t : Text} {n : Number} (h : Signed t n) : t ≠ [] :=
  (Derives.number h).ne_nil

theorem ModifierForm.ne_nil {t : Text} {m : Modifier} (h : ModifierForm t m) : t ≠ [] := by
  obtain ⟨b, f, u, n, -, number, rfl, -⟩ := h
  simp [number.ne_nil]

end Notation

namespace Parser

open Notation

variable {α : Type}

/-- What the parser takes off the front of any text is not empty, and by itself it is read as the
same value. -/
def Local (p : Parser α) : Prop :=
  ∀ s a r, front p s = .ok (a, r) → ∃ t, t ≠ [] ∧ s = t ++ r ∧ whole p t = .ok a

theorem local_of_form {p : Parser α} {R : Text → α → Prop} {q : Char → Bool} (sound : Sound p R)
    (reads : Reads p R q) (written : ∀ {t a}, R t a → t ≠ []) : Local p := by
  intro s a r taken
  obtain ⟨t, shape, form⟩ := sound (front_eq_ok_iff.1 taken)
  exact ⟨t, written form, shape, (whole_eq_ok_iff_form sound reads).2 form⟩

/-- Expressions, dice terms, modifiers and numbers are read off the front of a text as if nothing
stood behind them. -/
theorem local_expr_dice_modifier_number :
    Local expr ∧ Local dice ∧ Local modifier ∧ Local number :=
  ⟨local_of_form sound_expr reads_expr Derives.ne_nil,
    local_of_form sound_dice reads_dice DiceForm.ne_nil,
    local_of_form sound_modifier reads_modifier ModifierForm.ne_nil,
    local_of_form sound_number reads_number Signed.ne_nil⟩

/-- A product whose second factor is never finished is given up, group and all. -/
theorem local_expr_dice_modifier_number_unfinished :
    front expr "2*(1+".toList = .ok (.number (Number.clamp 2), "*(1+".toList) ∧
      ∃ t, t ≠ [] ∧ "2*(1+".toList = t ++ "*(1+".toList ∧
        whole expr t = .ok (.number (Number.clamp 2)) := by
  have shown : (front expr "2*(1+".toList).toOption =
      some (.number (Number.clamp 2), "*(1+".toList) := by decide +kernel
  have taken : front expr "2*(1+".toList = .ok (.number (Number.clamp 2), "*(1+".toList) := by
    cases read : front expr "2*(1+".toList with
    | ok a => rw [read] at shown; rw [Option.some.inj shown]
    | error r => rw [read] at shown; cases shown
  exact ⟨taken, local_expr_dice_modifier_number.1 _ _ _ taken⟩

end Parser

end TabletopDice
