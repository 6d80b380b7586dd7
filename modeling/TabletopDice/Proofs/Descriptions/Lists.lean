import TabletopDice.Die
import TabletopDice.Proofs.Notation.Blanks
import TabletopDice.Proofs.Notation.Printing

/-!
# Lists of dice as they are written

A list of dice shows as many of them as a limit allows and then, if there are more, says how many.
Written down it should be a list like any other: entries with a comma and a blank between each two
of them, in brackets. `Die.entries` are the entries that it should have.

The comma in front of the last entry does not come from the same hand as the others. It is written
whenever dice are left out, also if none is shown that it could set the entry apart from. So the
list has the form it should have unless the limit is zero and there are dice to leave out
(`Die.listText_eq_enclosed_iff`). Then the comma stands behind nothing, and what is in brackets
reads as a list that begins with an empty entry.
-/

set_option autoImplicit false

namespace TabletopDice

namespace Text

/-! ## Entries one after the other -/

@[simp] theorem listed_nil : listed [] = [] := rfl

@[simp] theorem listed_singleton (e : Text) : listed [e] = e := List.intercalate_singleton

theorem listed_cons_cons (e f : Text) (es : List Text) :
    listed (e :: f :: es) = e ++ [',', ' '] ++ listed (f :: es) := List.intercalate_cons_cons

/-- A last entry is set apart from those in front of it, if there are any. -/
theorem listed_append_singleton {es : List Text} (filled : es ≠ []) (last : Text) :
    listed (es ++ [last]) = listed es ++ [',', ' '] ++ last := by
  induction es with
  | nil => exact absurd rfl filled
  | cons e es ih =>
    cases es with
    | nil => simp [listed_cons_cons]
    | cons f es =>
      have more := ih (List.cons_ne_nil f es)
      simp only [List.cons_append, listed_cons_cons, List.append_assoc] at more ⊢
      rw [more]

/-- What lists in brackets are held together by. -/
def marks : Text := [',', '[', ']']

/-- A text that can be an entry of such a list: it is not empty, and it cannot be taken apart. -/
structure IsEntry (e : Text) : Prop where
  written : e ≠ []
  unmarked : ∀ c ∈ marks, c ∉ e

/-- Neither numbers nor the words beside them are made of such characters. -/
theorem strange_of_mem_marks {c : Char} (mark : c ∈ marks) :
    Notation.isTermCharacter c = false ∧ c ∉ " (d) more...".toList := by
  have strange : marks.all (fun m => !Notation.isTermCharacter m) = true := rfl
  have unsaid : marks.all (fun m => !" (d) more...".toList.contains m) = true := rfl
  constructor
  · simpa using List.all_eq_true.1 strange c mark
  · intro said
    have other := List.all_eq_true.1 unsaid c mark
    rw [List.contains_iff_mem.2 said] at other
    cases other

end Text

namespace Die

/-! ## The entries of a list of dice -/

/-- How many dice a limit lets a list show. -/
def shownCount (limit : Option Nat) (dice : List Die) : Nat := limit.getD dice.length

/-- The entry that stands for dice left out. -/
def remainder (n : Nat) : Text := Text.digits n ++ " more...".toList

/-- The entries of a list of dice: the dice shown, and one more for those left out, if there are
any. -/
def entries (limit : Option Nat) (dice : List Die) : List Text :=
  (dice.take (shownCount limit dice)).map text ++
    if shownCount limit dice < dice.length then [remainder (dice.length - shownCount limit dice)]
    else []

/-- Entries in brackets. -/
def enclosed (es : List Text) : Text := '[' :: Text.listed es ++ [']']

theorem omitted_zero : omitted 0 = [] := rfl

theorem omitted_of_pos {n : Nat} (h : 0 < n) : omitted n = [',', ' '] ++ remainder n := by
  rw [omitted, if_neg (Nat.ne_of_gt h), remainder, List.append_assoc]

theorem listText_eq (limit : Option Nat) (dice : List Die) :
    listText limit dice =
      '[' :: (Text.listed ((dice.take (shownCount limit dice)).map text) ++
        omitted (dice.length - shownCount limit dice)) ++ [']'] := by
  simp [listText, shownCount]

theorem isEntry_text (d : Die) : Text.IsEntry d.text where
  written := by
    have face : d.face.text ≠ [] := (Notation.signed_text d.face).ne_nil
    by_cases out : d.discarded <;> simp [text, out, face]
  unmarked := by
    intro c mark inside
    obtain ⟨strange, unsaid⟩ := Text.strange_of_mem_marks mark
    have absent : c ∉ d.face.text := (Notation.signed_text d.face).ofTerm.not_mem strange
    by_cases out : d.discarded
    · have within : c ∈ [' ', '(', 'd', ')'] := by simpa [text, out, absent] using inside
      exact unsaid (List.mem_append_left " more...".toList within)
    · exact absent (by simpa [text, out] using inside)

theorem isEntry_remainder (n : Nat) : Text.IsEntry (remainder n) where
  written := List.append_ne_nil_of_left_ne_nil (Text.digits_ne_nil n) _
  unmarked := by
    intro c mark inside
    obtain ⟨strange, unsaid⟩ := Text.strange_of_mem_marks mark
    have absent : c ∉ Text.digits n := (Notation.unsigned_digits n).ofTerm.not_mem strange
    have within : c ∈ " more...".toList := (List.mem_append.1 inside).resolve_left absent
    exact unsaid (List.mem_append_right " (d)".toList within)

theorem isEntry_of_mem_entries {limit : Option Nat} {dice : List Die} {e : Text}
    (mem : e ∈ entries limit dice) : Text.IsEntry e := by
  obtain shown | last := List.mem_append.1 mem
  · obtain ⟨d, -, rfl⟩ := List.mem_map.1 shown
    exact isEntry_text d
  · by_cases more : shownCount limit dice < dice.length
    · rw [if_pos more] at last
      exact List.mem_singleton.1 last ▸ isEntry_remainder _
    · rw [if_neg more] at last
      cases last

/-! ## The comma in front of the last entry -/

/-- Dice are left out with none shown only under the limit zero. -/
theorem take_shownCount_eq_nil_iff {limit : Option Nat} {dice : List Die}
    (more : shownCount limit dice < dice.length) :
    (dice.take (shownCount limit dice)).map text = [] ↔ limit = some 0 := by
  have filled : dice ≠ [] := List.ne_nil_of_length_pos (Nat.zero_lt_of_lt more)
  simp only [List.map_eq_nil_iff, List.take_eq_nil_iff, filled, or_false]
  cases limit with
  | none => exact absurd more (Nat.lt_irrefl _)
  | some n => simp [shownCount]

/-- With a die shown, or none left out, the list is one like any other. -/
theorem listText_eq_enclosed {limit : Option Nat} {dice : List Die}
    (apart : limit = some 0 → dice = []) : listText limit dice = enclosed (entries limit dice) := by
  by_cases more : shownCount limit dice < dice.length
  · have shown : (dice.take (shownCount limit dice)).map text ≠ [] := by
      intro nothing
      rw [apart ((take_shownCount_eq_nil_iff more).1 nothing)] at more
      exact Nat.not_lt_zero _ more
    rw [listText_eq, omitted_of_pos (Nat.sub_pos_of_lt more), enclosed, entries, if_pos more,
      Text.listed_append_singleton shown, List.append_assoc]
  · rw [listText_eq, Nat.sub_eq_zero_of_le (Nat.le_of_not_lt more), omitted_zero, enclosed, entries,
      if_neg more, List.append_nil, List.append_nil]

/-- With no die shown, the comma stands behind an empty entry. -/
theorem listText_zero {dice : List Die} (filled : dice ≠ []) :
    listText (some 0) dice = enclosed ([] :: entries (some 0) dice) := by
  have more : 0 < dice.length := List.length_pos_iff.2 filled
  simp [listText_eq, entries, enclosed, shownCount, more, omitted_of_pos more,
    Text.listed_cons_cons]

/-- **A list of dice is written as a list of its entries unless it is cut before its first die**:
with the limit zero and a die to leave out there is an empty entry in front of the others. -/
theorem listText_eq_enclosed_iff (limit : Option Nat) (dice : List Die) :
    (listText limit dice = enclosed (entries limit dice) ↔ (limit = some 0 → dice = [])) ∧
      (∀ e ∈ entries limit dice, Text.IsEntry e) ∧
      (dice ≠ [] → listText (some 0) dice = enclosed ([] :: entries (some 0) dice)) := by
  refine ⟨⟨?_, listText_eq_enclosed⟩, fun e mem => isEntry_of_mem_entries mem, listText_zero⟩
  intro proper zero
  subst zero
  refine Decidable.byContradiction fun filled => ?_
  rw [listText_zero filled] at proper
  have more : 0 < dice.length := List.length_pos_iff.2 filled
  have longer := congrArg List.length proper
  simp only [entries, enclosed, shownCount, Option.getD_some, more, if_true, List.take_zero,
    List.map_nil, List.nil_append, Text.listed_cons_cons, Text.listed_singleton, List.length_cons,
    List.length_append, List.length_nil] at longer
  omega

/-- Three dice under the limit zero: the list should say that there are three more, and has a comma
in front of that. -/
theorem listText_zero_three :
    let dice : List Die :=
      [⟨.clamp 6, .clamp 8, false⟩, ⟨.clamp 2, .clamp 8, true⟩, ⟨.clamp 7, .clamp 8, false⟩]
    listText (some 0) dice = "[, 3 more...]".toList ∧
      enclosed (entries (some 0) dice) = "[3 more...]".toList ∧
      listText (some 0) dice ≠ enclosed (entries (some 0) dice) := by
  decide

end Die
end TabletopDice
