import TabletopDice.Proofs.Notation.Expressions

/-!
# What is written can be read back

The written form of every value is a text of the grammar, and one that stands for that value. With
the reader shown to read what the grammar says, nothing else is needed for the round trip.

Two facts carry it. Parentheses stand wherever a part binds less tightly than its place demands
(`derives_grouped`), and a blank on either side of an operator belongs to the factor next to it,
however deep that factor lies in the operand (`Derives.padded`).
-/

set_option autoImplicit false

namespace TabletopDice

namespace Notation

/-! ## Numbers and dice terms -/

theorem unsigned_digits (n : Nat) : Unsigned (Text.digits n) n where
  digits _ h := Text.isDigit_of_mem_digits h
  written := Text.digits_ne_nil n
  leading h := by
    rw [Text.digits_eq_zero_of_head h]
    decide
  value := Text.ofDigitChars_digits n

theorem signed_text (n : Number) : Signed n.text n := by
  unfold Number.text Text.integer
  split
  · exact .minus (unsigned_digits _) (by omega)
  · exact .plain (unsigned_digits _) (by omega)

theorem modifierForm_text (m : Modifier) : ModifierForm m.text m := by
  have shape : m.text = Parser.opening m ++ (Parser.amount m).text := by
    cases m with
    | select x => rfl
    | reroll c => obtain ⟨comparison, bound⟩ := c; cases comparison <;> rfl
    | explode c => obtain ⟨comparison, bound⟩ := c; cases comparison <;> rfl
    | countSuccesses c => obtain ⟨comparison, bound⟩ := c; cases comparison <;> rfl
  exact Parser.modifierForm_iff.2 ⟨_, shape, signed_text _⟩

theorem modifiersForm_text (ms : List Modifier) : ModifiersForm (ms.flatMap Modifier.text) ms := by
  induction ms with
  | nil => exact .none
  | cons m ms ih =>
    rw [List.flatMap_cons]
    exact .next (modifierForm_text m) ih

/-- The modifiers of a term stand in the order of the categories, with none from most of them. -/
theorem sublist_category_modifiers (d : Dice) :
    (d.modifiers.map Modifier.category).Sublist [.reroll, .explode, .select, .countSuccesses] := by
  obtain ⟨count, sides, reroll, explode, select, successes⟩ := d
  cases reroll <;> cases explode <;> cases select <;> cases successes <;>
    simp [Dice.modifiers, Modifier.category]

/-- No category occurs twice among the modifiers of a term. -/
theorem nodup_category_modifiers (d : Dice) : (d.modifiers.map Modifier.category).Nodup :=
  (sublist_category_modifiers d).nodup (by decide)

/-- A term is what its modifiers make of the plain dice. -/
theorem foldl_set_modifiers (d : Dice) :
    d.modifiers.foldl Dice.set { count := d.count, sides := d.sides } = d := by
  obtain ⟨count, sides, reroll, explode, select, successes⟩ := d
  cases reroll <;> cases explode <;> cases select <;> cases successes <;> rfl

theorem diceForm_text (d : Dice) : DiceForm d.text d := by
  have form := DiceForm.term (.given (unsigned_digits d.count.toNat)) (signed_text d.sides)
    (modifiersForm_text d.modifiers) (nodup_category_modifiers d)
  rw [foldl_set_modifiers] at form
  simpa [Dice.text, Count.text] using form

/-! ## Layers -/

/-- How tightly a text of a layer holds together. -/
def Layer.strength : Layer → Nat
  | .sum => 1
  | .product => 2
  | .factor => 3
  | .atom => 4

/-- A text of a layer is a text of every looser one. -/
theorem Derives.loosen {l m : Layer} {t : Text} {e : Expr} (h : Derives m t e)
    (weak : l.strength ≤ m.strength) : Derives l t e := by
  have factor : ∀ {t e}, Derives .atom t e → Derives .factor t e := fun {t e} k => by
    have unpadded : Derives .factor ([] ++ t ++ []) e := .factor (by simp) k (by simp)
    simpa using unpadded
  cases m with
  | atom =>
    cases l with
    | atom => exact h
    | factor => exact factor h
    | product => exact .product (factor h)
    | sum => exact .sum (.product (factor h))
  | factor =>
    cases l with
    | atom => exact absurd weak (by decide)
    | factor => exact h
    | product => exact .product h
    | sum => exact .sum (.product h)
  | product =>
    cases l with
    | product => exact h
    | sum => exact .sum h
    | _ => exact absurd weak (by decide)
  | sum =>
    cases l with
    | sum => exact h
    | _ => exact absurd weak (by decide)

/-- The layer of the expressions that an operator joins together, and of its left operand. -/
def Layer.ofOperator : Operator → Layer
  | .plus => .sum
  | .minus => .sum
  | .times => .product

/-- The layer of the right operand. -/
def Layer.behind : Operator → Layer
  | .plus => .product
  | .minus => .product
  | .times => .factor

theorem strength_ofOperator (o : Operator) : (Layer.ofOperator o).strength = o.strength := by
  cases o <;> rfl

theorem strength_behind (o : Operator) : (Layer.behind o).strength = o.strength + 1 := by
  cases o <;> rfl

theorem Derives.join {o : Operator} {t u : Text} {e f : Expr} (h : Derives (.ofOperator o) t e)
    (k : Derives (.behind o) u f) : Derives (.ofOperator o) (t ++ o.symbol :: u) (.join o e f) := by
  cases o with
  | plus => exact .plus h k
  | minus => exact .minus h k
  | times => exact .times h k

/-! ## Blanks around an operand -/

/-- Blanks on both sides of anything but a bare atom change nothing. -/
theorem Derives.padded {l : Layer} {t b c : Text} {e : Expr} (h : Derives l t e) (loose : l ≠ .atom)
    (left : ∀ x ∈ b, Text.isBlank x = true) (right : ∀ x ∈ c, Text.isBlank x = true) :
    Derives l (b ++ t ++ c) e := by
  induction h generalizing b c with
  | number h => exact absurd rfl loose
  | dice h => exact absurd rfl loose
  | group h => exact absurd rfl loose
  | @factor before t behind e first h last =>
    have form : Derives .factor (b ++ before ++ t ++ (behind ++ c)) e :=
      .factor (List.forall_mem_append.2 ⟨left, first⟩) h (List.forall_mem_append.2 ⟨last, right⟩)
    simpa using form
  | product h ih => exact .product (ih (by decide) left right)
  | sum h ih => exact .sum (ih (by decide) left right)
  -- of two operands, the left one takes the blanks in front and the right one those behind
  | times h k ihh ihk =>
    have form := Derives.times (ihh (c := []) (by decide) left (by simp))
      (ihk (b := []) (by decide) (by simp) right)
    simpa using form
  | plus h k ihh ihk =>
    have form := Derives.plus (ihh (c := []) (by decide) left (by simp))
      (ihk (b := []) (by decide) (by simp) right)
    simpa using form
  | minus h k ihh ihk =>
    have form := Derives.minus (ihh (c := []) (by decide) left (by simp))
      (ihk (b := []) (by decide) (by simp) right)
    simpa using form

/-! ## Expressions -/

theorem one_le_strength (e : Expr) : 1 ≤ e.strength := by
  cases e with
  | number n => simp [Expr.strength]
  | dice d => simp [Expr.strength]
  | join o left right => cases o <;> simp [Expr.strength, Operator.strength]

theorem derives_grouped {l : Layer} {needed : Bool} {t : Text} {e : Expr}
    (inside : Derives .sum t e) (bare : needed = false → Derives l t e) :
    Derives l (Expr.grouped needed t) e := by
  cases needed with
  | false => exact bare rfl
  | true => exact (Derives.group inside).loosen (by cases l <;> decide)

/-- The written form of an expression is a text of every layer that holds together no more tightly
than the expression does. -/
theorem derives_text (e : Expr) : ∀ l : Layer, l.strength ≤ e.strength → Derives l e.text e := by
  induction e with
  | number n =>
    intro l weak
    exact (Derives.number (signed_text n)).loosen (by cases l <;> decide)
  | dice d =>
    intro l weak
    exact (Derives.dice (diceForm_text d)).loosen (by cases l <;> decide)
  | join o left right ihl ihr =>
    intro l weak
    have blank : ∀ x ∈ [' '], Text.isBlank x = true := List.forall_mem_singleton.2 rfl
    have first : Derives (.ofOperator o)
        (Expr.grouped (left.strength < o.strength) left.text) left :=
      derives_grouped (ihl .sum (one_le_strength left)) fun bare => ihl _ (by
        rw [strength_ofOperator]
        simpa using bare)
    have second : Derives (.behind o)
        (Expr.grouped (right.strength ≤ o.strength) right.text) right :=
      derives_grouped (ihr .sum (one_le_strength right)) fun bare => ihr _ (by
        rw [strength_behind]
        exact Nat.succ_le_of_lt (by simpa using bare))
    have form := Derives.join (first.padded (b := []) (by cases o <;> decide) (by simp) blank)
      (second.padded (c := []) (by cases o <;> decide) blank (by simp))
    refine (show Derives (.ofOperator o) (Expr.join o left right).text _ from ?_).loosen ?_
    · simpa [Expr.text] using form
    · rw [strength_ofOperator]
      exact weak

theorem ofText_text_eq_ok (e : Expr) : Expr.ofText e.text = .ok e :=
  (derives_text e .sum (one_le_strength e)).ofText_eq_ok

end Notation

open Notation

/-- **What is written reads back as what it was**: every expression, every dice term and every
modifier. -/
theorem ofText_text :
    (∀ e : Expr, Expr.ofText e.text = .ok e) ∧ (∀ d : Dice, Dice.ofText d.text = .ok d) ∧
      ∀ m : Modifier, Modifier.ofText m.text = .ok m := by
  refine ⟨ofText_text_eq_ok, fun d => ?_, fun m => ?_⟩
  · exact (Parser.whole_eq_ok_iff_form Parser.sound_dice Parser.reads_dice).2 (diceForm_text d)
  · exact (Parser.whole_eq_ok_iff_form Parser.sound_modifier Parser.reads_modifier).2
      (modifierForm_text m)

end TabletopDice
