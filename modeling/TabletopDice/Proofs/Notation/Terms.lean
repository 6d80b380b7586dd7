import TabletopDice.Proofs.Notation.Modifiers

/-!
# Dice terms are read as they are written

What is checked once a term has been read is the same as what the grammar says about it: the count
fits, and no two modifiers share a category (`ofModifiers_eq_ok_iff`). With that, `Parser.dice`
takes exactly the dice terms that nothing behind them could make longer.
-/

set_option autoImplicit false

namespace TabletopDice

/-! ## Putting modifiers on -/

namespace Dice

theorem has_set (d : Dice) (m : Modifier) (c : Category) :
    (d.set m).has c = (decide (c = m.category) || d.has c) := by
  cases m <;> cases c <;> rfl

/-- Dice that are only a count and sides have no modifier yet. -/
theorem has_bare (count : Count) (sides : Number) (c : Category) :
    ({ count, sides } : Dice).has c = false := by
  cases c <;> rfl

/-- A modifier whose category is free goes on, and the others go on behind it. -/
theorem addAll_cons_of_free {d : Dice} {m : Modifier} (free : d.has m.category = false)
    (ms : List Modifier) : d.addAll (m :: ms) = (d.set m).addAll ms := by
  simp [addAll, add, free]

theorem addAll_eq_ok_iff {d e : Dice} {ms : List Modifier} :
    d.addAll ms = .ok e ↔
      (∀ m ∈ ms, d.has m.category = false) ∧ (ms.map Modifier.category).Nodup ∧
        e = ms.foldl Dice.set d := by
  induction ms generalizing d with
  | nil =>
    simp only [addAll, List.not_mem_nil, false_imp_iff, implies_true, List.map_nil,
      List.nodup_nil, List.foldl_nil, true_and, Except.ok.injEq]
    exact eq_comm
  | cons m ms ih =>
    by_cases taken : d.has m.category = true
    · simp [addAll, add, taken]
    · -- `m` goes on, and takes its category from all modifiers behind it
      have free : d.has m.category = false := by simpa using taken
      rw [addAll_cons_of_free free, ih]
      simp only [has_set, Bool.or_eq_false_iff, decide_eq_false_iff_not, List.mem_cons,
        forall_eq_or_imp, free, true_and, List.map_cons, List.nodup_cons, List.mem_map,
        not_exists, not_and, List.foldl_cons]
      constructor
      · rintro ⟨others, distinct, same⟩
        exact ⟨fun k hk => (others k hk).2, ⟨fun k hk => (others k hk).1, distinct⟩, same⟩
      · rintro ⟨others, ⟨apart, distinct⟩, same⟩
        exact ⟨fun k hk => ⟨apart k hk, others k hk⟩, distinct, same⟩

/-- Dice are made from a list of modifiers exactly where no two of them share a category. -/
theorem ofModifiers_eq_ok_iff {count : Count} {sides : Number} {ms : List Modifier} {d : Dice} :
    ofModifiers count sides ms = .ok d ↔
      (ms.map Modifier.category).Nodup ∧ d = ms.foldl Dice.set { count, sides } := by
  rw [ofModifiers, addAll_eq_ok_iff]
  exact and_iff_right fun m _ => has_bare count sides m.category

end Dice

namespace Parser

open Notation

theorem mapError_eq_ok_iff {ε δ α : Type} {f : ε → δ} {x : Except ε α} {a : α} :
    x.mapError f = .ok a ↔ x = .ok a := by
  cases x with
  | error e =>
    constructor <;> intro h <;> cases h
  | ok b =>
    constructor <;> intro h <;> cases h <;> rfl

theorem assemble_eq_ok_iff {count : Option Nat} {sides : Number} {ms : List Modifier} {d : Dice} :
    assemble count sides ms = .ok d ↔
      ∃ n : Count, n.toNat = count.getD 1 ∧ (ms.map Modifier.category).Nodup ∧
        d = ms.foldl Dice.set { count := n, sides } := by
  unfold assemble
  cases fits : Count.ofNat? (count.getD 1) with
  | none =>
    simp only [reduceCtorEq, false_iff, not_exists, not_and]
    intro n same
    rw [Count.ofNat?_eq_some_iff.2 same.symm] at fits
    cases fits
  | some n =>
    have same := Count.ofNat?_eq_some_iff.1 fits
    simp only [mapError_eq_ok_iff, Dice.ofModifiers_eq_ok_iff]
    constructor
    · intro form
      exact ⟨n, same.symm, form⟩
    · rintro ⟨k, other, form⟩
      obtain rfl : k = n := Count.ext (other.trans same)
      exact form

/-! ## The parts of a term, one behind the other -/

theorem yields_dice {s r : Text} {d : Dice} :
    Yields dice s d r ↔
      ∃ count t sides u ms, Yields (optional natural) s count ('d' :: t) ∧ Yields number t sides u ∧
        Yields (many modifier) u ms r ∧ assemble count sides ms = .ok d := by
  rw [dice, yields_check]
  constructor
  · rintro ⟨⟨count, sides, ms⟩, read, made⟩
    obtain ⟨o, v, first, read⟩ := yields_bind.1 read
    obtain ⟨w, t, letter, read⟩ := yields_bind.1 read
    obtain ⟨n, u, second, read⟩ := yields_bind.1 read
    obtain ⟨ks, third, same⟩ := yields_map.1 read
    obtain rfl := yields_literal.1 letter
    obtain ⟨rfl, rfl, rfl⟩ : o = count ∧ n = sides ∧ ks = ms := by simpa using same
    exact ⟨o, t, n, u, ks, first, second, third, made⟩
  · rintro ⟨count, t, sides, u, ms, first, second, third, made⟩
    refine ⟨(count, sides, ms), ?_, made⟩
    refine yields_bind.2 ⟨count, 'd' :: t, first, yields_bind.2 ⟨(), t, yields_literal.2 rfl, ?_⟩⟩
    exact yields_bind.2 ⟨sides, u, second, yields_map.2 ⟨ms, third, rfl⟩⟩

theorem sound_dice : Sound dice DiceForm := by
  intro s d r h
  obtain ⟨count, t, sides, u, ms, first, second, third, made⟩ := yields_dice.1 h
  obtain ⟨n, size, distinct, rfl⟩ := assemble_eq_ok_iff.1 made
  obtain ⟨v, rfl, number⟩ := sound_number second
  obtain ⟨w, rfl, modifiers⟩ := sound_modifiers third
  rcases yields_optional.1 first with ⟨k, rfl, read⟩ | ⟨-, rfl, rfl⟩
  · obtain ⟨x, rfl, digits⟩ := sound_natural read
    obtain rfl : n.toNat = k := size
    exact ⟨x ++ 'd' :: (v ++ w), by simp, .term (.given digits) number modifiers distinct⟩
  · obtain rfl : n = 1 := Count.ext size
    exact ⟨[] ++ 'd' :: (v ++ w), by simp, .term .omitted number modifiers distinct⟩

/-- What stands in front of the letter: nothing, or a run of digits of any size. -/
def CountDigits (t : Text) : Option Nat → Prop
  | none => t = []
  | some n => Unsigned t n

theorem yields_count {t r : Text} {count : Option Nat} (digits : CountDigits t count) :
    Yields (optional natural) (t ++ 'd' :: r) count ('d' :: r) := by
  have letter : Ahead notDigit ('d' :: r) := ahead_cons.2 (by decide)
  cases count with
  | none =>
    obtain rfl : t = [] := digits
    exact yields_optional.2 (.inr ⟨rejects_of_begins begins_natural letter, rfl, rfl⟩)
  | some n => exact yields_optional.2 (.inl ⟨n, rfl, reads_natural digits letter⟩)

/-- The parts of a term are read as they are written, each up to the next one. Only the check at its
end decides whether the term has been read. -/
theorem yields_dice_term {t u v r rest : Text} {count : Option Nat} {sides : Number}
    {ms : List Modifier} {d : Dice} (digits : CountDigits t count) (number : Signed u sides)
    (modifiers : ModifiersForm v ms) (stop : Ahead notModifier r) :
    Yields dice (t ++ 'd' :: (u ++ v) ++ r) d rest ↔
      assemble count sides ms = .ok d ∧ r = rest := by
  have calm : Ahead notDigit r := stop.mono fun c => notDigit_of_notModifier
  have letters : Ahead notDigit v := ahead_notDigit_of_modifiers modifiers
  -- no part of the term is continued by the one behind it
  have first := yields_count (r := u ++ (v ++ r)) digits
  have second := reads_number number (letters.append calm)
  have third := reads_modifiers modifiers stop
  simp only [List.append_assoc, List.cons_append]
  rw [yields_dice]
  constructor
  · rintro ⟨k, w, n, x, ks, counted, sized, modified, made⟩
    obtain ⟨rfl, same⟩ := first.unique counted
    obtain ⟨-, rfl⟩ := List.cons.inj same
    obtain ⟨rfl, rfl⟩ := second.unique sized
    obtain ⟨rfl, rfl⟩ := third.unique modified
    exact ⟨made, rfl⟩
  · rintro ⟨made, rfl⟩
    exact ⟨count, _, sides, _, ms, first, second, third, made⟩

theorem reads_dice : Reads dice DiceForm notModifier := by
  intro t d r form stop
  obtain @⟨t, u, v, count, sides, ms, dice, number, modifiers, distinct⟩ := form
  cases dice with
  | omitted =>
    have bare : CountDigits [] none := rfl
    refine (yields_dice_term bare number modifiers stop).2 ⟨?_, rfl⟩
    exact assemble_eq_ok_iff.2 ⟨1, rfl, distinct, rfl⟩
  | given digits =>
    have given : CountDigits t (some count.toNat) := digits
    refine (yields_dice_term given number modifiers stop).2 ⟨?_, rfl⟩
    exact assemble_eq_ok_iff.2 ⟨count, rfl, distinct, rfl⟩

/-- A character that a dice term can begin with. -/
def isTermStart (c : Char) : Bool := c = 'd' || c.isDigit

theorem begins_dice : Begins dice isTermStart := by
  intro s d r h
  obtain ⟨t, rfl, form⟩ := sound_dice h
  obtain @⟨t, u, v, count, sides, ms, dice, number, modifiers, distinct⟩ := form
  cases dice with
  | omitted => exact ⟨'d', _, rfl, by decide⟩
  | given digits =>
    obtain ⟨c, w, rfl, digit⟩ := digits.exists_cons
    exact ⟨c, _, rfl, by simp [isTermStart, digit]⟩

end Parser

end TabletopDice
