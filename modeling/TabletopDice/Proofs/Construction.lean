import TabletopDice.Proofs.Notation.Orders

/-!
# Three ways to come by a dice term

A dice term can be made from a list of modifiers, which are checked one after the other; it can be
put together from pieces, of which the later one silently replaces the earlier one; and the
modifiers of a term that is there can be read off it. The three do not look alike. The check stops
at the first modifier whose category is taken, and what was put on before is lost; pieces are put
into a term that is complete from the start; and what is read off a term comes in an order of its
own.

They agree all the same. What makes them do so is that a modifier finds its place in a term by its
category and by nothing else: where no category occurs twice, modifiers and pieces can be put in in
any order (`Dice.foldl_put_perm`), and what was put on is what can be read off
(`Dice.perm_modifiers`).
-/

set_option autoImplicit false

namespace TabletopDice

namespace Dice

open scoped List

/-! ## What is refused -/

/-- A modifier of the list has the category of an earlier one, and it is the first that has. -/
def FirstRepeated (ms : List Modifier) (m : Modifier) : Prop :=
  ∃ before behind, ms = before ++ m :: behind ∧ (before.map Modifier.category).Nodup ∧
    m.category ∈ before.map Modifier.category

theorem has_foldl_set {d : Dice} {ms : List Modifier} {c : Category} :
    (ms.foldl Dice.set d).has c = true ↔ d.has c = true ∨ c ∈ ms.map Modifier.category := by
  induction ms generalizing d with
  | nil => simp
  | cons m ms ih =>
    rw [List.foldl_cons, ih, has_set, List.map_cons, List.mem_cons, Bool.or_eq_true,
      decide_eq_true_eq]
    tauto

/-- Modifiers are refused at one whose category is taken once all before it have been put on. -/
theorem exists_taken_of_addAll_eq_error {d : Dice} {ms : List Modifier} {e : DuplicateModifier}
    (refused : d.addAll ms = .error e) :
    ∃ before m behind f, ms = before ++ m :: behind ∧ d.addAll before = .ok f ∧
      f.has m.category = true ∧ e = ⟨m.category⟩ := by
  induction ms generalizing d with
  | nil => cases refused
  | cons m ms ih =>
    by_cases taken : d.has m.category = true
    · have first : d.addAll (m :: ms) = .error ⟨m.category⟩ := by simp [addAll, add, taken]
      exact ⟨[], m, ms, d, rfl, rfl, taken, Except.error.inj (refused.symm.trans first)⟩
    · have free : d.has m.category = false := by simpa using taken
      rw [addAll_cons_of_free free] at refused
      obtain ⟨before, k, behind, f, rfl, made, later, rfl⟩ := ih refused
      have added : d.addAll (m :: before) = .ok f := (addAll_cons_of_free free before).trans made
      exact ⟨m :: before, k, behind, f, rfl, added, later, rfl⟩

theorem exists_firstRepeated {count : Count} {sides : Number} {ms : List Modifier}
    {e : DuplicateModifier} (refused : ofModifiers count sides ms = .error e) :
    ∃ m, FirstRepeated ms m ∧ e = ⟨m.category⟩ := by
  obtain ⟨before, m, behind, f, rfl, made, taken, rfl⟩ := exists_taken_of_addAll_eq_error refused
  obtain ⟨-, distinct, rfl⟩ := addAll_eq_ok_iff.1 made
  -- the plain dice do not have the category, so one of the modifiers in front of `m` has
  have bare : ¬ ({ count, sides } : Dice).has m.category = true := by simp [has_bare]
  exact ⟨m, ⟨before, behind, rfl, distinct, (has_foldl_set.1 taken).resolve_left bare⟩, rfl⟩

/-- Making dice from a list of modifiers fails exactly if two of them share a category. -/
theorem exists_ofModifiers_eq_error_iff {count : Count} {sides : Number} {ms : List Modifier} :
    (∃ e, ofModifiers count sides ms = .error e) ↔ ¬ (ms.map Modifier.category).Nodup := by
  cases outcome : ofModifiers count sides ms with
  | ok d => simp [(ofModifiers_eq_ok_iff.1 outcome).1]
  | error e =>
    have twice : ¬ (ms.map Modifier.category).Nodup := fun distinct => by
      rw [ofModifiers_eq_ok_iff.2 ⟨distinct, rfl⟩] at outcome
      cases outcome
    simp [twice]

/-! ## What can be read off -/

/-- A modifier that finds its place free is one more of the modifiers. -/
theorem perm_modifiers_set {d : Dice} {m : Modifier} (free : d.has m.category = false) :
    (d.set m).modifiers.Perm (m :: d.modifiers) := by
  obtain ⟨count, sides, reroll, explode, select, successes⟩ := d
  cases m with
  | reroll c =>
    obtain rfl : reroll = none := by simpa [has, Modifier.category] using free
    exact .refl _
  | explode c =>
    obtain rfl : explode = none := by simpa [has, Modifier.category] using free
    simp only [set, modifiers, Option.map_some, Option.toList_some, Option.map_none,
      Option.toList_none, List.append_nil, List.append_assoc]
    exact List.perm_middle
  | select s =>
    obtain rfl : select = none := by simpa [has, Modifier.category] using free
    simp only [set, modifiers, Option.map_some, Option.toList_some, Option.map_none,
      Option.toList_none, List.append_nil]
    rw [List.append_assoc]
    exact List.perm_middle
  | countSuccesses c =>
    obtain rfl : successes = none := by simpa [has, Modifier.category] using free
    simp only [set, modifiers, Option.map_some, Option.toList_some, Option.map_none,
      Option.toList_none]
    exact List.perm_middle

theorem perm_modifiers_foldl {d : Dice} {ms : List Modifier}
    (free : ∀ m ∈ ms, d.has m.category = false) (distinct : (ms.map Modifier.category).Nodup) :
    (ms.foldl Dice.set d).modifiers.Perm (ms ++ d.modifiers) := by
  induction ms generalizing d with
  | nil => exact .refl _
  | cons m ms ih =>
    obtain ⟨first, others⟩ := List.forall_mem_cons.1 free
    obtain ⟨apart, distinct⟩ := List.nodup_cons.1 distinct
    have stillFree : ∀ k ∈ ms, (d.set m).has k.category = false := fun k mem => by
      have other : k.category ≠ m.category := fun same =>
        apart (same ▸ List.mem_map_of_mem (f := Modifier.category) mem)
      simp [has_set, other, others k mem]
    calc (ms.foldl Dice.set (d.set m)).modifiers
      _ ~ ms ++ (d.set m).modifiers := ih stillFree distinct
      _ ~ ms ++ m :: d.modifiers := (perm_modifiers_set first).append_left ms
      _ ~ m :: ms ++ d.modifiers := List.perm_middle

theorem perm_modifiers {count : Count} {sides : Number} {ms : List Modifier} {d : Dice}
    (made : ofModifiers count sides ms = .ok d) : d.modifiers.Perm ms := by
  obtain ⟨distinct, rfl⟩ := ofModifiers_eq_ok_iff.1 made
  simpa [modifiers] using perm_modifiers_foldl (fun m _ => has_bare count sides m.category) distinct

@[simp] theorem count_set (d : Dice) (m : Modifier) : (d.set m).count = d.count := by
  cases m <;> rfl

@[simp] theorem sides_set (d : Dice) (m : Modifier) : (d.set m).sides = d.sides := by
  cases m <;> rfl

/-- Modifiers leave the numbers of a term alone. -/
theorem numbers_foldl_set (d : Dice) (ms : List Modifier) :
    (ms.foldl Dice.set d).count = d.count ∧ (ms.foldl Dice.set d).sides = d.sides := by
  induction ms generalizing d with
  | nil => exact ⟨rfl, rfl⟩
  | cons m ms ih => simpa using ih (d.set m)

/-! ## What pieces make -/

/-- Where a piece goes: to one of the two numbers, or to the modifier of a category. -/
inductive Place where
  | count
  | sides
  | modifier (category : Category)
deriving DecidableEq

/-- The place that the piece takes. -/
def Piece.place : Piece → Place
  | .count _ => .count
  | .sides _ => .sides
  | .modifier m => .modifier m.category

theorem put_comm {p q : Piece} (apart : p.place ≠ q.place) (d : Dice) :
    (d.put p).put q = (d.put q).put p := by
  cases p with
  | count n =>
    cases q with
    | count k => exact absurd rfl apart
    | sides k => rfl
    | modifier m => cases m <;> rfl
  | sides n =>
    cases q with
    | count k => rfl
    | sides k => exact absurd rfl apart
    | modifier m => cases m <;> rfl
  | modifier m =>
    cases q with
    | count k => cases m <;> rfl
    | sides k => cases m <;> rfl
    | modifier k => exact set_comm fun same => apart (congrArg Place.modifier same)

theorem foldl_put_perm {d : Dice} {ps qs : List Piece} (same : ps.Perm qs)
    (distinct : (ps.map Piece.place).Nodup) : ps.foldl put d = qs.foldl put d :=
  foldl_perm_of_nodup put_comm same distinct d

/-- The pieces of a term: its two numbers, and then modifiers. -/
def pieces (count : Count) (sides : Number) (ms : List Modifier) : List Piece :=
  .count count :: .sides sides :: ms.map .modifier

theorem build_pieces (count : Count) (sides : Number) (ms : List Modifier) :
    build (pieces count sides ms) = ms.foldl Dice.set { count, sides } := by
  simp only [build, pieces, List.foldl_cons, List.foldl_map]
  rfl

theorem nodup_place_pieces {count : Count} {sides : Number} {ms : List Modifier}
    (distinct : (ms.map Modifier.category).Nodup) :
    ((pieces count sides ms).map Piece.place).Nodup := by
  have places : (ms.map Piece.modifier).map Piece.place =
      (ms.map Modifier.category).map Place.modifier := by
    simp only [List.map_map]
    rfl
  have apart : ((ms.map Modifier.category).map Place.modifier).Nodup :=
    distinct.map fun _ _ => Place.modifier.inj
  simpa [pieces, places, Piece.place] using apart

/-- Where no category occurs twice, the pieces of a term make it in any order. -/
theorem build_perm {count : Count} {sides : Number} {ms : List Modifier} {ps : List Piece}
    (distinct : (ms.map Modifier.category).Nodup) (same : ps.Perm (pieces count sides ms)) :
    build ps = ms.foldl Dice.set { count, sides } :=
  calc build ps
      _ = build (pieces count sides ms) :=
        (foldl_put_perm same.symm (nodup_place_pieces distinct)).symm
      _ = ms.foldl Dice.set { count, sides } := build_pieces count sides ms

/-! ## The three together -/

/-- A list of modifiers is refused exactly if two of them share a category, and then for the
category of the first that repeats an earlier one's. Otherwise the dice it makes have just these
modifiers, which are read off in the order in which they take effect; another order of the list
makes the same dice, and so do the pieces in any order. Every term is made in this way from what is
read off it. -/
theorem ofModifiers_agrees (count : Count) (sides : Number) (ms : List Modifier) :
    ((∃ e, ofModifiers count sides ms = .error e) ↔ ¬ (ms.map Modifier.category).Nodup) ∧
      (∀ e, ofModifiers count sides ms = .error e → ∃ m, FirstRepeated ms m ∧ e = ⟨m.category⟩) ∧
      ((ms.map Modifier.category).Nodup →
        ∃ d, ofModifiers count sides ms = .ok d ∧ d.count = count ∧ d.sides = sides ∧
          d.modifiers.Perm ms ∧
          (d.modifiers.map Modifier.category).Sublist
            [.reroll, .explode, .select, .countSuccesses] ∧
          (∀ others, ms.Perm others → ofModifiers count sides others = .ok d) ∧
          ∀ ps, ps.Perm (pieces count sides ms) → build ps = d) ∧
      ∀ d : Dice, ofModifiers d.count d.sides d.modifiers = .ok d := by
  refine ⟨exists_ofModifiers_eq_error_iff, fun e => exists_firstRepeated, fun distinct => ?_,
    fun d => ?_⟩
  · have made : ofModifiers count sides ms = .ok (ms.foldl Dice.set { count, sides }) :=
      ofModifiers_eq_ok_iff.2 ⟨distinct, rfl⟩
    obtain ⟨counted, sized⟩ := numbers_foldl_set { count, sides } ms
    refine ⟨_, made, counted, sized, perm_modifiers made, Notation.sublist_category_modifiers _,
      fun others same => ?_, fun ps => build_perm distinct⟩
    have distinctOthers : (others.map Modifier.category).Nodup :=
      (same.map Modifier.category).nodup_iff.1 distinct
    exact ofModifiers_eq_ok_iff.2 ⟨distinctOthers, foldl_set_perm same distinct⟩
  · have again := (Notation.foldl_set_modifiers d).symm
    exact ofModifiers_eq_ok_iff.2 ⟨Notation.nodup_category_modifiers d, again⟩

/-- The term `1d0r0c>1` put together back to front, and `x1` refused behind `x0`. -/
theorem ofModifiers_agrees_shuffled :
    (∃ d, ofModifiers 1 0 [.countSuccesses ⟨.greater, 1⟩, .reroll ⟨.equal, 0⟩] = .ok d ∧
        build [.modifier (.reroll ⟨.equal, 0⟩), .sides 0,
          .modifier (.countSuccesses ⟨.greater, 1⟩), .count 1] = d) ∧
      ∃ e, ofModifiers 1 0 [.explode ⟨.equal, 0⟩, .explode ⟨.equal, 1⟩] = .error e := by
  constructor
  · obtain ⟨d, made, -, -, -, -, -, built⟩ :=
      (ofModifiers_agrees 1 0 [.countSuccesses ⟨.greater, 1⟩, .reroll ⟨.equal, 0⟩]).2.2.1
        (by decide)
    exact ⟨d, made, built _ (by decide)⟩
  · exact (ofModifiers_agrees 1 0 [.explode ⟨.equal, 0⟩, .explode ⟨.equal, 1⟩]).1.2 (by decide)

end Dice

end TabletopDice
