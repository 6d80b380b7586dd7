import Mathlib
import TabletopDice.Proofs.Notation.Blanks

/-!
# An expression that is a single dice term

A dice term can be asked for by itself or as an expression. The reader of expressions does not come
to it directly: it looks for a parenthesis first, takes blanks along, and behind the term it looks
for operators; and should the term be refused, it would take the number in front for the expression.

None of this makes a difference to the term. A text is read as the expression that is a dice term
exactly if it is a text of that term, with blanks and parentheses around it and nothing else
(`Expr.ofText_eq_ok_dice_iff`). Whoever writes neither blanks nor parentheses may ask for either.
-/

set_option autoImplicit false

namespace TabletopDice

namespace Notation

/-- A text with blanks and parentheses around it. -/
inductive Wrapped (t : Text) : Text → Prop
  | bare : Wrapped t t
  | blanks {before u behind : Text} (left : ∀ c ∈ before, Text.isBlank c = true)
      (h : Wrapped t u) (right : ∀ c ∈ behind, Text.isBlank c = true) :
      Wrapped t (before ++ u ++ behind)
  | parentheses {u : Text} (h : Wrapped t u) : Wrapped t ('(' :: u ++ [')'])

/-- What is put around a text does not change what it stands for. -/
theorem Wrapped.derives {t s : Text} {e : Expr} (h : Wrapped t s) (form : Derives .sum t e) :
    Derives .sum s e := by
  induction h with
  | bare => exact form
  | blanks left h right ih => exact ih.padded (by decide) left right
  | parentheses h ih => exact (Derives.group ih).loosen (by decide)

/-- With neither blanks nor parentheses in it, a text has nothing around it. -/
theorem Wrapped.eq_of_compact {t s : Text} (h : Wrapped t s)
    (compact : ∀ c ∈ s, Text.isBlank c = false ∧ c ≠ '(') : s = t := by
  induction h with
  | bare => rfl
  | @blanks before u behind left h right ih =>
    have solid : ∀ c ∈ before ++ u ++ behind, ¬ Text.isBlank c = true := fun c mem =>
      Bool.eq_false_iff.1 (compact c mem).1
    obtain rfl : before = [] := List.eq_nil_iff_forall_not_mem.2 fun c mem =>
      solid c (by simp [mem]) (left c mem)
    obtain rfl : behind = [] := List.eq_nil_iff_forall_not_mem.2 fun c mem =>
      solid c (by simp [mem]) (right c mem)
    rw [List.nil_append, List.append_nil]
    exact ih fun c mem => compact c (by simp [mem])
  | parentheses h ih => exact absurd rfl (compact '(' (by simp)).2

/-- What stands for a dice term, on whatever layer, is a text of that term and what is put around
it. -/
theorem Derives.exists_diceForm {l : Layer} {s : Text} {d : Dice} (h : Derives l s (.dice d)) :
    ∃ t, Wrapped t s ∧ DiceForm t d := by
  generalize same : Expr.dice d = e at h
  induction h with
  | number form => cases same
  | dice form =>
    cases same
    exact ⟨_, .bare, form⟩
  | group h ih =>
    obtain ⟨t, inside, form⟩ := ih same
    exact ⟨t, .parentheses inside, form⟩
  | factor left h right ih =>
    obtain ⟨t, inside, form⟩ := ih same
    exact ⟨t, .blanks left inside right, form⟩
  | product h ih => exact ih same
  | sum h ih => exact ih same
  -- two operands are no dice term
  | times h k => cases same
  | plus h k => cases same
  | minus h k => cases same

end Notation

open Notation

theorem Dice.ofText_eq_ok_iff_diceForm {t : Text} {d : Dice} :
    Dice.ofText t = .ok d ↔ DiceForm t d :=
  Parser.whole_eq_ok_iff_form Parser.sound_dice Parser.reads_dice

/-- A text is read as the expression that is a dice term exactly if it is read as that term once the
blanks and parentheses around it are taken away. -/
theorem Expr.ofText_eq_ok_dice_iff {s : Text} {d : Dice} :
    Expr.ofText s = .ok (.dice d) ↔ ∃ t, Wrapped t s ∧ Dice.ofText t = .ok d := by
  constructor
  · intro read
    obtain ⟨t, around, form⟩ := (derives_of_ofText_eq_ok read).exists_diceForm
    exact ⟨t, around, Dice.ofText_eq_ok_iff_diceForm.2 form⟩
  · rintro ⟨t, around, read⟩
    have form : Derives .sum t (.dice d) :=
      (Derives.dice (Dice.ofText_eq_ok_iff_diceForm.1 read)).loosen (by decide)
    exact (around.derives form).ofText_eq_ok

/-- **A dice term is read as itself in either way**: what is read as a dice term is read as the
expression that is this term, and what is read as such an expression, and has neither blanks nor
parentheses in it, is read as the dice term. -/
theorem Dice.ofText_iff_expr :
    (∀ s d, Dice.ofText s = .ok d → Expr.ofText s = .ok (.dice d)) ∧
      ∀ s d, (∀ c ∈ s, Text.isBlank c = false ∧ c ≠ '(') → Expr.ofText s = .ok (.dice d) →
        Dice.ofText s = .ok d := by
  constructor
  · intro s d read
    exact Expr.ofText_eq_ok_dice_iff.2 ⟨s, .bare, read⟩
  · intro s d compact read
    obtain ⟨t, around, inside⟩ := Expr.ofText_eq_ok_dice_iff.1 read
    obtain rfl := around.eq_of_compact compact
    exact inside

/-- A term whose number of dice, number of sides and modifiers could each be the beginning of
something else. -/
theorem Dice.ofText_iff_expr_crowded :
    ∃ d : Dice, Dice.ofText "10d-3dh1r<=2".toList = .ok d ∧
      Expr.ofText "10d-3dh1r<=2".toList = .ok (.dice d) ∧
        (∀ c ∈ "10d-3dh1r<=2".toList, Text.isBlank c = false ∧ c ≠ '(') := by
  have read : Dice.ofText "10d-3dh1r<=2".toList =
      .ok { count := ⟨10, by decide⟩, sides := .clamp (-3), reroll := some ⟨.atMost, .clamp 2⟩,
            select := some ⟨.drop, .highest, 1⟩ } := by cbv
  have compact : ∀ c ∈ "10d-3dh1r<=2".toList, Text.isBlank c = false ∧ c ≠ '(' :=
    List.forall_iff_forall_mem.1 (by decide)
  have shown := Dice.ofText_iff_expr.1 _ _ read
  exact ⟨_, Dice.ofText_iff_expr.2 _ _ compact shown, shown, compact⟩

end TabletopDice
