import Mathlib.Data.List.Nodup
import TabletopDice.Proofs.Notation.Printing

/-!
# Modifiers in any order

A dice term may list its modifiers in any order, and a list of them may hold the same kind twice.
What is written for such a list has nothing between two modifiers, and a modifier can begin with the
letter that a term is known by. It is read back as the same list all the same, so what becomes of the
text is what becomes of the list: the same dice, or no dice at all.

Where no kind occurs twice, the order does not matter either, since two modifiers of different kinds
are put on dice in either order with the same result (`Dice.set_comm`).
-/

set_option autoImplicit false

namespace TabletopDice

/-- Where two attempts come to the same values, they fail together. -/
theorem exists_error_iff_of_ok_iff {ε δ α : Type} {x : Except ε α} {y : Except δ α}
    (same : ∀ a, x = .ok a ↔ y = .ok a) : (∃ e, x = .error e) ↔ ∃ e, y = .error e := by
  cases x with
  | ok a =>
    have made := (same a).1 rfl
    simp [made]
  | error e =>
    cases y with
    | ok a => exact absurd ((same a).2 rfl) (by simp)
    | error e => simp

/-- Steps that can change places unless they have the same key come to the same in any order, if no
two of them have. -/
theorem foldl_perm_of_nodup {α β κ : Type} {f : β → α → β} {key : α → κ}
    (comm : ∀ {x y}, key x ≠ key y → ∀ z, f (f z x) y = f (f z y) x) {xs ys : List α}
    (same : xs.Perm ys) (distinct : (xs.map key).Nodup) (z : β) : xs.foldl f z = ys.foldl f z := by
  refine same.foldl_eq' (fun x hx y hy w => ?_) z
  -- two members of the list are one and the same, or their keys differ
  by_cases one : x = y
  · rw [one]
  · exact comm (fun keys => one (List.inj_on_of_nodup_map distinct hx hy keys)) w

namespace Dice

/-- So many dice and so many sides, with modifiers behind them in the order of a list. -/
def written (count : Count) (sides : Number) (ms : List Modifier) : Text :=
  count.text ++ 'd' :: sides.text ++ ms.flatMap Modifier.text

theorem set_comm {d : Dice} {m k : Modifier} (apart : m.category ≠ k.category) :
    (d.set m).set k = (d.set k).set m := by
  cases m <;> cases k <;> first | rfl | exact absurd rfl apart

theorem foldl_set_perm {d : Dice} {ms others : List Modifier} (same : ms.Perm others)
    (distinct : (ms.map Modifier.category).Nodup) :
    ms.foldl Dice.set d = others.foldl Dice.set d :=
  foldl_perm_of_nodup (fun apart _ => set_comm apart) same distinct d

theorem ofText_written_eq_ok_iff {count : Count} {sides : Number} {ms : List Modifier} {d : Dice} :
    Dice.ofText (written count sides ms) = .ok d ↔ ofModifiers count sides ms = .ok d := by
  have digits : Parser.CountDigits count.text (some count.toNat) :=
    Notation.unsigned_digits count.toNat
  have read := @Parser.yields_dice_term _ _ _ [] [] _ _ _ d digits (Notation.signed_text sides)
    (Notation.modifiersForm_text ms) Parser.ahead_nil
  -- the whole text is the term, so the check at the end of it has the last word
  rw [Dice.ofText, Parser.whole_eq_ok_iff, ofModifiers_eq_ok_iff]
  rw [List.append_nil, and_iff_left rfl, Parser.assemble_eq_ok_iff] at read
  simp only [written, List.append_assoc, List.cons_append] at read ⊢
  rw [read]
  constructor
  · rintro ⟨n, size, distinct, made⟩
    obtain rfl : n = count := Count.ext size
    exact ⟨distinct, made⟩
  · rintro ⟨distinct, made⟩
    exact ⟨count, rfl, distinct, made⟩

/-- A list of modifiers behind the dice, written one after the other, is read as what the list makes
of the dice, and is refused where the list is. Where no two of them share a category, every order of
them is read as the same dice. -/
theorem ofText_written (count : Count) (sides : Number) (ms : List Modifier) :
    (∀ d, Dice.ofText (written count sides ms) = .ok d ↔ ofModifiers count sides ms = .ok d) ∧
      ((∃ r, Dice.ofText (written count sides ms) = .error r) ↔
        ∃ e, ofModifiers count sides ms = .error e) ∧
      ∀ others, ms.Perm others → (ms.map Modifier.category).Nodup →
        ∃ d, Dice.ofText (written count sides ms) = .ok d ∧
          Dice.ofText (written count sides others) = .ok d := by
  refine ⟨fun d => ofText_written_eq_ok_iff,
    exists_error_iff_of_ok_iff fun d => ofText_written_eq_ok_iff, ?_⟩
  intro others same distinct
  have distinctOthers : (others.map Modifier.category).Nodup :=
    (same.map Modifier.category).nodup_iff.1 distinct
  refine ⟨ms.foldl Dice.set { count, sides }, ?_, ?_⟩
  · exact ofText_written_eq_ok_iff.2 (ofModifiers_eq_ok_iff.2 ⟨distinct, rfl⟩)
  · have made := foldl_set_perm (d := { count, sides }) same distinct
    exact ofText_written_eq_ok_iff.2 (ofModifiers_eq_ok_iff.2 ⟨distinctOthers, made⟩)

def rerollOnes : Modifier := .reroll ⟨.equal, 1⟩

def explodeSixes : Modifier := .explode ⟨.equal, Number.clamp 6⟩

/-- Six dice of which ones are rolled once more and sixes bring another die. -/
def restless : Dice :=
  { count := ⟨6, by decide⟩, sides := Number.clamp 6, reroll := some ⟨.equal, 1⟩,
    explode := some ⟨.equal, Number.clamp 6⟩ }

/-- Both orders are read as these dice, and with ones rerolled twice the text is refused. -/
theorem ofText_written_swapped :
    let text := written ⟨6, by decide⟩ (Number.clamp 6)
    (text [explodeSixes, rerollOnes] = "6d6x6r1".toList ∧
        Dice.ofText (text [explodeSixes, rerollOnes]) = .ok restless) ∧
      (text [rerollOnes, explodeSixes] = "6d6r1x6".toList ∧
          Dice.ofText (text [rerollOnes, explodeSixes]) = .ok restless) ∧
        text [rerollOnes, explodeSixes, rerollOnes] = "6d6r1x6r1".toList ∧
          ∃ r, Dice.ofText (text [rerollOnes, explodeSixes, rerollOnes]) = .error r := by
  intro text
  obtain ⟨read, -, orders⟩ := ofText_written ⟨6, by decide⟩ (Number.clamp 6)
    [explodeSixes, rerollOnes]
  obtain ⟨-, refused, -⟩ := ofText_written ⟨6, by decide⟩ (Number.clamp 6)
    [rerollOnes, explodeSixes, rerollOnes]
  obtain ⟨d, exploding, rerolling⟩ := orders _ (List.Perm.swap _ _ _) (by decide)
  have first : Dice.ofText (text [explodeSixes, rerollOnes]) = .ok restless :=
    (read restless).2 rfl
  obtain rfl : d = restless := Except.ok.inj (exploding.symm.trans first)
  exact ⟨⟨by decide, first⟩, ⟨by decide, rerolling⟩, by decide, refused.2 ⟨_, rfl⟩⟩

end Dice

end TabletopDice
