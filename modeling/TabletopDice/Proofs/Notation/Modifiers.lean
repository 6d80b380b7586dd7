import TabletopDice.Proofs.Notation.Numbers

/-!
# Modifiers are read as they are written

A reader of modifiers commits itself twice over: to the category whose letters it saw first, and to
the longest sign behind them. Neither choice is ever wrong. The categories begin with different
letters, and behind the sign that was meant there is a number, which begins with none of the
characters that could have made the sign longer. So the order of the alternatives drops out
(`yields_modifier`), and what is left is the list of nineteen beginnings.
-/

set_option autoImplicit false

namespace TabletopDice.Parser

open Notation

/-! ## The four categories -/

theorem yields_selection {s r : Text} {x : Selection} :
    Yields selection s x r ↔
      ∃ t, s = Selection.symbol x.effect x.fromEnd ++ t ∧ Yields number t x.count r := by
  have kinds : ∀ k t, Yields (oneOfTexts (Selection.kinds.map fun k =>
      (Selection.symbol k.1 k.2, k))) s k t ↔ s = Selection.symbol k.1 k.2 ++ t := by
    intro k t
    rw [yields_oneOfTexts (by simp [Selection.kinds, Selection.symbol, Effect.letter, End.letter])]
    exact and_iff_right (Selection.mem_kinds k.1 k.2)
  rw [selection, yields_bind]
  constructor
  · rintro ⟨k, t, first, read⟩
    obtain ⟨n, second, rfl⟩ := yields_map.1 read
    exact ⟨t, (kinds k t).1 first, second⟩
  · rintro ⟨t, shape, read⟩
    exact ⟨(x.effect, x.fromEnd), t, (kinds _ t).2 shape, yields_map.2 ⟨x.count, read, rfl⟩⟩

/-- The sign of a comparison, where equality is written in a way of its own. -/
def signAfter (equality : Text) : Comparison → Text
  | .equal => equality
  | c => c.symbol

theorem comparisonsAfter_eq (letters equality : Text) :
    comparisonsAfter letters equality =
      Comparison.longestFirst.map fun c => (letters ++ signAfter equality c, c) := rfl

/-- In front of a number no sign is taken for a longer one. -/
theorem yields_comparison {letters equality s r : Text} {c : Comparison}
    (plain : equality = [] ∨ equality = ['='])
    (number : ∃ d t, r = d :: t ∧ isSignOrDigit d = true) :
    Yields (oneOfTexts (comparisonsAfter letters equality)) s c r ↔
      s = letters ++ signAfter equality c ++ r := by
  obtain ⟨d, t, rfl, sort⟩ := number
  -- what could make a sign longer is not what the number begins with
  have less : '<' ≠ d := by rintro rfl; exact absurd sort (by decide)
  have greater : '>' ≠ d := by rintro rfl; exact absurd sort (by decide)
  have equal : '=' ≠ d := by rintro rfl; exact absurd sort (by decide)
  rw [comparisonsAfter_eq, yields_oneOfTexts]
  · exact and_iff_right (Comparison.mem_longestFirst c)
  · rcases plain with rfl | rfl <;>
      simp [Comparison.longestFirst, signAfter, Comparison.symbol, List.append_assoc,
        List.prefix_append_right_inj, less, greater, equal]

theorem yields_conditionAfter {letters equality s r : Text} {c : Condition}
    (plain : equality = [] ∨ equality = ['=']) :
    Yields (conditionAfter letters equality) s c r ↔
      ∃ t, s = letters ++ signAfter equality c.comparison ++ t ∧ Yields number t c.bound r := by
  rw [conditionAfter, yields_bind]
  constructor
  · rintro ⟨comparison, t, first, read⟩
    obtain ⟨bound, second, rfl⟩ := yields_map.1 read
    exact ⟨t, (yields_comparison plain (begins_number second)).1 first, second⟩
  · rintro ⟨t, shape, read⟩
    exact ⟨c.comparison, t, (yields_comparison plain (begins_number read)).2 shape,
      yields_map.2 ⟨c.bound, read, rfl⟩⟩

theorem begins_selection : Begins selection fun c => c = 'k' || c = 'd' := by
  intro s x r h
  obtain ⟨t, rfl, -⟩ := yields_selection.1 h
  exact ⟨x.effect.letter, _, rfl, by cases x.effect <;> decide⟩

theorem begins_conditionAfter {c : Char} {letters equality : Text}
    (plain : equality = [] ∨ equality = ['=']) :
    Begins (conditionAfter (c :: letters) equality) fun d => d = c := by
  intro s x r h
  obtain ⟨t, rfl, -⟩ := (yields_conditionAfter plain).1 h
  exact ⟨c, _, rfl, by simp⟩

/-! ## Any modifier -/

/-- What a modifier begins with. -/
def opening : Modifier → Text
  | .select x => Selection.symbol x.effect x.fromEnd
  | .reroll c => ['r'] ++ signAfter [] c.comparison
  | .explode c => ['x'] ++ signAfter [] c.comparison
  | .countSuccesses c => ['c', 's'] ++ signAfter ['='] c.comparison

/-- The number behind the beginning of a modifier. -/
def amount : Modifier → Number
  | .select x => x.count
  | .reroll c => c.bound
  | .explode c => c.bound
  | .countSuccesses c => c.bound

/-- The list of beginnings is a table of `opening`, one line for every kind of modifier. -/
theorem modifierForm_iff {t : Text} {m : Modifier} :
    ModifierForm t m ↔ ∃ u, t = opening m ++ u ∧ Signed u (amount m) := by
  have table : ∀ b ∈ beginnings, ∀ n, opening (b.2 n) = b.1 ∧ amount (b.2 n) = n := by
    simp [beginnings, opening, amount, signAfter, Comparison.symbol, Selection.symbol,
      Effect.letter, End.letter]
  constructor
  · rintro ⟨b, f, u, n, listed, number, rfl, rfl⟩
    obtain ⟨same, bound⟩ := table (b, f) listed n
    exact ⟨u, by rw [same], by rw [bound]; exact number⟩
  · rintro ⟨u, rfl, number⟩
    have listed : ∃ f, (opening m, f) ∈ beginnings ∧ m = f (amount m) := by
      cases m with
      | select x =>
        obtain ⟨effect, fromEnd, n⟩ := x
        refine ⟨fun n => .select ⟨effect, fromEnd, n⟩, ?_, rfl⟩
        cases effect <;> cases fromEnd <;>
          simp [beginnings, opening, Selection.symbol, Effect.letter, End.letter]
      | reroll c =>
        obtain ⟨comparison, n⟩ := c
        refine ⟨fun n => .reroll ⟨comparison, n⟩, ?_, rfl⟩
        cases comparison <;> simp [beginnings, opening, signAfter, Comparison.symbol]
      | explode c =>
        obtain ⟨comparison, n⟩ := c
        refine ⟨fun n => .explode ⟨comparison, n⟩, ?_, rfl⟩
        cases comparison <;> simp [beginnings, opening, signAfter, Comparison.symbol]
      | countSuccesses c =>
        obtain ⟨comparison, n⟩ := c
        refine ⟨fun n => .countSuccesses ⟨comparison, n⟩, ?_, rfl⟩
        cases comparison <;> simp [beginnings, opening, signAfter, Comparison.symbol]
    obtain ⟨f, listed, same⟩ := listed
    exact ⟨opening m, f, u, amount m, listed, number, rfl, same⟩

/-- Each category has letters of its own, so no category is refused for the sake of another. -/
theorem yields_modifier {s r : Text} {m : Modifier} :
    Yields modifier s m r ↔ ∃ t, s = opening m ++ t ∧ Yields number t (amount m) r := by
  have select := begins_selection
  have reroll : Begins (conditionAfter ['r'] []) _ := begins_conditionAfter (.inl rfl)
  have explode : Begins (conditionAfter ['x'] []) _ := begins_conditionAfter (.inl rfl)
  have successes : Begins (conditionAfter ['c', 's'] ['=']) _ := begins_conditionAfter (.inr rfl)
  rw [modifier, yields_choice]
  · simp only [List.mem_cons, List.not_mem_nil, or_false, exists_eq_or_imp, exists_eq_left,
      yields_map, yields_selection, yields_conditionAfter (.inl rfl),
      yields_conditionAfter (.inr rfl)]
    cases m <;> simp [opening, amount]
  · simp only [List.pairwise_cons, List.mem_cons, List.not_mem_nil, or_false, forall_eq_or_imp,
      forall_eq, List.Pairwise.nil, and_true, false_imp_iff, implies_true]
    -- two categories at a time: what the later one begins with, the earlier one refuses
    refine ⟨⟨fun _ => ?_, fun _ => ?_, fun _ => ?_⟩, ⟨fun _ => ?_, fun _ => ?_⟩, fun _ => ?_⟩
    · exact reroll.bind.rejects select.bind (by simp +contextual)
    · exact explode.bind.rejects select.bind (by simp +contextual)
    · exact successes.bind.rejects select.bind (by simp +contextual)
    · exact explode.bind.rejects reroll.bind (by simp +contextual)
    · exact successes.bind.rejects reroll.bind (by simp +contextual)
    · exact successes.bind.rejects explode.bind (by simp +contextual)

theorem sound_modifier : Sound modifier ModifierForm := by
  intro s m r h
  obtain ⟨t, rfl, read⟩ := yields_modifier.1 h
  obtain ⟨u, rfl, number⟩ := sound_number read
  exact ⟨opening m ++ u, (List.append_assoc _ _ _).symm, modifierForm_iff.2 ⟨u, rfl, number⟩⟩

theorem reads_modifier : Reads modifier ModifierForm notDigit := by
  intro t m r form stop
  obtain ⟨u, rfl, number⟩ := modifierForm_iff.1 form
  exact yields_modifier.2 ⟨u ++ r, List.append_assoc _ _ _, reads_number number stop⟩

/-- A letter that a modifier can begin with. -/
def isModifierLetter (c : Char) : Bool := c = 'k' || c = 'd' || c = 'r' || c = 'x' || c = 'c'

theorem begins_modifier : Begins modifier isModifierLetter := by
  intro s m r h
  obtain ⟨t, rfl, -⟩ := yields_modifier.1 h
  cases m with
  | select x => exact ⟨x.effect.letter, _, rfl, by cases x.effect <;> decide⟩
  | reroll c => exact ⟨'r', _, rfl, by decide⟩
  | explode c => exact ⟨'x', _, rfl, by decide⟩
  | countSuccesses c => exact ⟨'c', _, rfl, by decide⟩

/-! ## All modifiers of a term -/

theorem progresses_modifier : Progresses modifier := by
  intro s m t h
  obtain ⟨u, rfl, form⟩ := sound_modifier h
  obtain ⟨v, rfl, number⟩ := modifierForm_iff.1 form
  obtain ⟨c, w, rfl, -⟩ := number.exists_cons
  simp only [List.length_append, List.length_cons]
  omega

theorem sound_modifiers : Sound (many modifier) ModifiersForm := by
  intro s ms r h
  induction ms generalizing s with
  | nil =>
    obtain ⟨rfl, -⟩ := (yields_many_iff progresses_modifier).1 h
    exact ⟨[], rfl, .none⟩
  | cons m ms ih =>
    obtain ⟨t, first, later⟩ := (yields_many_iff progresses_modifier).1 h
    obtain ⟨u, rfl, form⟩ := sound_modifier first
    obtain ⟨v, rfl, forms⟩ := ih later
    exact ⟨u ++ v, (List.append_assoc u v r).symm, .next form forms⟩

/-- The class of what may follow a modifier: what neither makes its number longer nor begins
another one. -/
def notModifier (c : Char) : Bool := !c.isDigit && !isModifierLetter c

theorem notDigit_of_notModifier {c : Char} (h : notModifier c = true) : notDigit c = true := by
  simp only [notModifier, Bool.and_eq_true] at h
  exact h.1

/-- The number in front of modifiers goes no farther than to them. -/
theorem ahead_notDigit_of_modifiers {t : Text} {ms : List Modifier} (h : ModifiersForm t ms) :
    Ahead notDigit t :=
  fun c first => by simp [notDigit, h.head c first]

theorem reads_modifiers : Reads (many modifier) ModifiersForm notModifier := by
  intro t ms r forms stop
  have calm : Ahead notDigit r := stop.mono fun c => notDigit_of_notModifier
  have last : Ahead (fun c => !isModifierLetter c) r :=
    stop.mono (by simp +contextual [notModifier])
  induction forms with
  | none => exact yields_many_nil (rejects_of_begins begins_modifier last)
  | @next t u m ms form forms ih =>
    have letters : Ahead notDigit u := ahead_notDigit_of_modifiers forms
    have read := reads_modifier form (letters.append calm)
    rw [List.append_assoc]
    exact yields_many_cons read (progresses_modifier read) ih

end TabletopDice.Parser
