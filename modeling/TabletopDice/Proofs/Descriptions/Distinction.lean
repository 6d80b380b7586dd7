import Mathlib.Data.List.Basic
import TabletopDice.Proofs.Descriptions.Lists
import TabletopDice.Roll
import TabletopDice.Rolling.Evaluation

/-!
# What a description tells apart

A description shows some of the dice, says how many it leaves out, and names the result or the dice
term. It is plain text, and nothing but the wording keeps its parts from running into each other: a
sign from being taken for a separator, the mark of a discarded die for the end of the list, the
count of what is left out for one more face. `description_eq_iff` says that they never do. Two
descriptions under one limit are the same text only if everything they set out to show is the same.

Read backwards, the text comes apart where it was put together. The brackets stand nowhere else, the
commas stand only between two slots of the list (`Text.listed_inj`), the empty slot that an early
cut leaves is the only empty one, and of the other entries the last one alone has an `m` in it.
-/

set_option autoImplicit false

namespace TabletopDice

/-! ## Numbers, terms and dice -/

theorem Text.digits_injective : Function.Injective Text.digits :=
  Function.LeftInverse.injective Text.ofDigitChars_digits

/-- Where every value is written in a form that is read back, no two values are written alike. -/
theorem Parser.injective_of_form {α : Type} {p : Parser α} {R : Text → α → Prop} {q : Char → Bool}
    {write : α → Text} (sound : Parser.Sound p R) (reads : Parser.Reads p R q)
    (form : ∀ a, R (write a) a) : Function.Injective write := by
  intro a b same
  have first : Parser.whole p (write a) = .ok a := (whole_eq_ok_iff_form sound reads).2 (form a)
  have second : Parser.whole p (write b) = .ok b := (whole_eq_ok_iff_form sound reads).2 (form b)
  rw [same] at first
  exact Except.ok.inj (first.symm.trans second)

theorem Number.text_injective : Function.Injective Number.text :=
  Parser.injective_of_form Parser.sound_number Parser.reads_number Notation.signed_text

theorem Dice.text_injective : Function.Injective Dice.text :=
  Parser.injective_of_form Parser.sound_dice Parser.reads_dice Notation.diceForm_text

namespace Die

/-- What a list shows of a die: its face, and whether it has been discarded. -/
def seen (d : Die) : Number × Bool := (d.face, d.discarded)

/-- What a list of dice shows under a limit. -/
def seenUpTo (limit : Option Nat) (dice : List Die) : List (Number × Bool) :=
  (dice.take (shownCount limit dice)).map seen

/-- The mark behind a face is not part of the face. -/
theorem text_ne_of_discarded {d e : Die} (out : d.discarded = true) (kept : e.discarded = false) :
    d.text ≠ e.text := by
  intro same
  have solid : ' ' ∉ e.face.text := (Notation.signed_text e.face).ofTerm.not_mem (by decide)
  have blank : ' ' ∈ d.text := by simp [text, out]
  rw [same] at blank
  exact solid (by simpa [text, kept] using blank)

theorem text_eq_iff {d e : Die} : d.text = e.text ↔ d.seen = e.seen := by
  rw [seen, seen, Prod.mk.injEq]
  by_cases out : d.discarded
  · by_cases gone : e.discarded
    · simp [text, out, gone, Number.text_injective.eq_iff]
    · rw [Bool.not_eq_true] at gone
      simp [text_ne_of_discarded out gone, out, gone]
  · rw [Bool.not_eq_true] at out
    by_cases gone : e.discarded
    · simp [(text_ne_of_discarded gone out).symm, out, gone]
    · simp [text, out, gone, Number.text_injective.eq_iff]

theorem map_text_eq_iff {dice others : List Die} :
    dice.map text = others.map text ↔ dice.map seen = others.map seen := by
  induction dice generalizing others with
  | nil => cases others <;> simp
  | cons d dice ih =>
    cases others with
    | nil => simp
    | cons e others => simp [text_eq_iff, ih]

end Die

/-! ## The slots of a list -/

namespace Text

/-- Behind the first entry, every entry has its comma and its blank in front of it. -/
theorem listed_cons_eq_intercalate (e : Text) (es : List Text) :
    listed (e :: es) = [','].intercalate (e :: es.map (' ' :: ·)) := by
  induction es generalizing e with
  | nil => simp
  | cons f es ih =>
    rw [listed_cons_cons, ih f, List.map_cons, List.intercalate_cons_cons]
    cases es <;> simp [List.intercalate_cons_cons]

/-- Entries without a comma can be told from the list of them, as long as there are any. -/
theorem listed_cons_inj {e f : Text} {es fs : List Text} (left : ∀ x ∈ e :: es, ',' ∉ x)
    (right : ∀ x ∈ f :: fs, ',' ∉ x) (same : listed (e :: es) = listed (f :: fs)) :
    e :: es = f :: fs := by
  have whole : ∀ {x : Text} {xs : List Text}, (∀ y ∈ x :: xs, ',' ∉ y) →
      (listed (x :: xs)).splitOn ',' = x :: xs.map (' ' :: ·) := by
    intro x xs plain
    rw [listed_cons_eq_intercalate]
    exact List.splitOn_intercalate ',' (by simpa using plain) (List.cons_ne_nil _ _)
  have cut := whole left
  rw [same, whole right, List.cons.injEq] at cut
  have spaced : Function.Injective (' ' :: · : Text → Text) := List.cons_injective
  rw [cut.1, List.map_injective_iff.2 spaced cut.2]

/-- A character of a list belongs to an entry or stands between two. -/
theorem mem_listed {c : Char} {es : List Text} (mem : c ∈ listed es) :
    c ∈ [',', ' '] ∨ ∃ e ∈ es, c ∈ e := by
  induction es with
  | nil => cases mem
  | cons e es ih =>
    cases es with
    | nil => exact .inr ⟨e, by simp, by simpa using mem⟩
    | cons f es =>
      rw [listed_cons_cons, List.append_assoc, List.mem_append, List.mem_append] at mem
      obtain here | between | later := mem
      · exact .inr ⟨e, by simp, here⟩
      · exact .inl between
      · obtain between | ⟨g, among, inside⟩ := ih later
        · exact .inl between
        · exact .inr ⟨g, List.mem_cons_of_mem e among, inside⟩

/-- A list with a single empty entry would look like one without entries. No other list does. -/
theorem listed_inj {es fs : List Text} (left : ∀ x ∈ es, ',' ∉ x) (right : ∀ x ∈ fs, ',' ∉ x)
    (filled : es ≠ [[]]) (other : fs ≠ [[]]) (same : listed es = listed fs) : es = fs := by
  have shape : ∀ {xs : List Text}, listed xs = [] → xs ≠ [[]] → xs = [] := by
    intro xs nothing proper
    match xs with
    | [] => rfl
    | [x] => exact absurd (by simpa using nothing) proper
    | x :: y :: xs => simp [listed_cons_cons] at nothing
  cases es with
  | nil => exact (shape same.symm other).symm
  | cons e es =>
    cases fs with
    | nil => exact shape same filled
    | cons f fs => exact listed_cons_inj left right same

end Text

namespace Die

/-- What stands between the commas of a list of dice: its entries, with nothing in front of them if
the list is cut before its first die. -/
def slots (limit : Option Nat) (dice : List Die) : List Text :=
  if limit = some 0 ∧ dice ≠ [] then [] :: entries limit dice else entries limit dice

theorem listText_eq_slots (limit : Option Nat) (dice : List Die) :
    listText limit dice = enclosed (slots limit dice) := by
  by_cases early : limit = some 0 ∧ dice ≠ []
  · rw [slots, if_pos early, early.1, listText_zero early.2]
  · rw [slots, if_neg early]
    exact listText_eq_enclosed fun zero => Decidable.byContradiction fun filled =>
      early ⟨zero, filled⟩

theorem mem_slots {limit : Option Nat} {dice : List Die} {e : Text} (mem : e ∈ slots limit dice) :
    e = [] ∨ Text.IsEntry e := by
  by_cases early : limit = some 0 ∧ dice ≠ []
  · rw [slots, if_pos early] at mem
    exact (List.mem_cons.1 mem).imp_right isEntry_of_mem_entries
  · rw [slots, if_neg early] at mem
    exact .inr (isEntry_of_mem_entries mem)

theorem not_mem_slot {limit : Option Nat} {dice : List Die} {c : Char} (mark : c ∈ Text.marks) :
    ∀ e ∈ slots limit dice, c ∉ e := by
  intro e mem
  obtain rfl | entry := mem_slots mem
  · exact List.not_mem_nil
  · exact entry.unmarked c mark

/-- The entries are the slots with something in them. -/
theorem filter_slots (limit : Option Nat) (dice : List Die) :
    (slots limit dice).filter (· ≠ []) = entries limit dice := by
  have all : (entries limit dice).filter (· ≠ []) = entries limit dice :=
    List.filter_eq_self.2 fun e mem => decide_eq_true (isEntry_of_mem_entries mem).written
  by_cases early : limit = some 0 ∧ dice ≠ []
  · rw [slots, if_pos early, List.filter_cons_of_neg (by simp), all]
  · rw [slots, if_neg early, all]

theorem slots_ne_singleton_nil (limit : Option Nat) (dice : List Die) :
    slots limit dice ≠ [[]] := by
  intro single
  have nothing : entries limit dice = [] := by rw [← filter_slots, single]; rfl
  by_cases early : limit = some 0 ∧ dice ≠ []
  · -- whatever is left out has an entry that says so
    have more : 0 < dice.length := List.length_pos_iff.2 early.2
    simp [entries, early.1, shownCount, more] at nothing
  · rw [slots, if_neg early, nothing] at single
    cases single

/-! ## The entries of a list, and what they show -/

theorem remainder_injective : Function.Injective remainder := by
  intro m n same
  exact Text.digits_injective (List.append_cancel_right same)

theorem m_not_mem_text (d : Die) : 'm' ∉ d.text := by
  have face : 'm' ∉ d.face.text := (Notation.signed_text d.face).ofTerm.not_mem (by decide)
  by_cases out : d.discarded <;> simp [text, out, face]

theorem m_mem_remainder (n : Nat) : 'm' ∈ remainder n := by simp [remainder]

/-- The dice among the entries. -/
theorem filter_m_not_mem_entries (limit : Option Nat) (dice : List Die) :
    (entries limit dice).filter ('m' ∉ ·) = (dice.take (shownCount limit dice)).map text := by
  have shown : ∀ e ∈ (dice.take (shownCount limit dice)).map text, decide ('m' ∉ e) = true := by
    intro e mem
    obtain ⟨d, -, rfl⟩ := List.mem_map.1 mem
    exact decide_eq_true (m_not_mem_text d)
  rw [entries, List.filter_append, List.filter_eq_self.2 shown]
  split <;> simp [m_mem_remainder]

/-- The entry for what is left out. -/
theorem filter_m_mem_entries (limit : Option Nat) (dice : List Die) :
    (entries limit dice).filter ('m' ∈ ·) =
      if shownCount limit dice < dice.length then [remainder (dice.length - shownCount limit dice)]
      else [] := by
  have shown : ((dice.take (shownCount limit dice)).map text).filter ('m' ∈ ·) = [] := by
    refine List.filter_eq_nil_iff.2 fun e mem => ?_
    obtain ⟨d, -, rfl⟩ := List.mem_map.1 mem
    simpa using m_not_mem_text d
  rw [entries, List.filter_append, shown, List.nil_append]
  split <;> simp [m_mem_remainder]

/-- How many dice are left out is said, or it is none. -/
theorem leftOut_eq_of_entries_eq {limit : Option Nat} {dice others : List Die}
    (same : entries limit dice = entries limit others) :
    dice.length - shownCount limit dice = others.length - shownCount limit others := by
  have last := filter_m_mem_entries limit dice
  rw [same, filter_m_mem_entries] at last
  by_cases more : shownCount limit dice < dice.length
  · by_cases moreOthers : shownCount limit others < others.length
    · rw [if_pos more, if_pos moreOthers] at last
      exact (remainder_injective (List.singleton_inj.1 last)).symm
    · rw [if_pos more, if_neg moreOthers] at last
      cases last
  · by_cases moreOthers : shownCount limit others < others.length
    · rw [if_neg more, if_pos moreOthers] at last
      cases last
    · rw [Nat.sub_eq_zero_of_le (Nat.le_of_not_lt more),
        Nat.sub_eq_zero_of_le (Nat.le_of_not_lt moreOthers)]

/-- The entries are the same exactly if they show the same dice, of equally many. -/
theorem entries_eq_iff {limit : Option Nat} {dice others : List Die} :
    entries limit dice = entries limit others ↔
      dice.length = others.length ∧ seenUpTo limit dice = seenUpTo limit others := by
  constructor
  · intro same
    have shown := filter_m_not_mem_entries limit dice
    rw [same, filter_m_not_mem_entries] at shown
    have counted := congrArg List.length shown
    have leftOut := leftOut_eq_of_entries_eq same
    simp only [List.length_map, List.length_take] at counted
    exact ⟨by omega, map_text_eq_iff.1 shown.symm⟩
  · intro ⟨long, shown⟩
    have count : shownCount limit dice = shownCount limit others := by
      rw [shownCount, shownCount, long]
    rw [entries, entries, map_text_eq_iff.2 shown, count, long]

/-! ## Descriptions -/

theorem listText_eq_iff {limit : Option Nat} {dice others : List Die} :
    listText limit dice = listText limit others ↔
      dice.length = others.length ∧ seenUpTo limit dice = seenUpTo limit others := by
  rw [← entries_eq_iff]
  constructor
  · intro same
    rw [listText_eq_slots, listText_eq_slots, enclosed, enclosed] at same
    have inside := List.append_cancel_right same
    rw [List.cons.injEq] at inside
    have comma : ',' ∈ Text.marks := by decide
    have slotted := Text.listed_inj (not_mem_slot comma) (not_mem_slot comma)
      (slots_ne_singleton_nil limit dice) (slots_ne_singleton_nil limit others) inside.2
    rw [← filter_slots, slotted, filter_slots]
  · intro same
    have long : dice.length = others.length := (entries_eq_iff.1 same).1
    have filled : dice ≠ [] ↔ others ≠ [] := by
      rw [← List.length_pos_iff, ← List.length_pos_iff, long]
    rw [listText_eq_slots, listText_eq_slots, slots, slots, same]
    simp only [filled]

/-- Between its brackets a list has none. -/
theorem bracket_not_mem_listed {limit : Option Nat} {dice : List Die} {c : Char}
    (mark : c ∈ Text.marks) (apart : c ∉ [',', ' ']) : c ∉ Text.listed (slots limit dice) := by
  intro mem
  obtain between | ⟨e, slot, inside⟩ := Text.mem_listed mem
  · exact apart between
  · exact not_mem_slot mark e slot inside

/-- A list can be told from what follows it. -/
theorem listText_append_eq_iff {limit : Option Nat} {dice others : List Die} {t u : Text}
    (clear : ']' ∉ t) :
    listText limit dice ++ t = listText limit others ++ u ↔
      listText limit dice = listText limit others ∧ t = u := by
  have inside : ']' ∉ '[' :: Text.listed (slots limit dice) :=
    List.not_mem_cons_of_ne_of_not_mem (by decide) (bracket_not_mem_listed (by decide) (by decide))
  rw [listText_eq_slots, listText_eq_slots, enclosed, enclosed, List.append_assoc,
    List.append_assoc, List.singleton_append, List.singleton_append,
    List.append_cons_inj_of_notMem inside clear, List.append_cancel_right_eq]
  simp

/-- A list can be told from what it follows. -/
theorem append_listText_eq_iff {limit : Option Nat} {dice others : List Die} {t u : Text}
    (clear : '[' ∉ t) :
    t ++ listText limit dice = u ++ listText limit others ↔
      t = u ∧ listText limit dice = listText limit others := by
  have inside : '[' ∉ Text.listed (slots limit dice) ++ [']'] :=
    List.not_mem_append (bracket_not_mem_listed (by decide) (by decide)) (by decide)
  rw [listText_eq_slots, listText_eq_slots, enclosed, enclosed, List.cons_append, List.cons_append,
    List.append_cons_inj_of_notMem clear inside]
  simp

end Die

/-- **A description says what it shows and nothing else**: under one limit, two outcomes have the
same description exactly if they have the same result, equally many dice and, as far as the limit
goes, the same faces in the same order, the same of them discarded; and so do two rolls of the same
term. -/
theorem description_eq_iff (limit : Option Nat) :
    (∀ o p : Outcome, o.description limit = p.description limit ↔
      o.result = p.result ∧ o.dice.length = p.dice.length ∧
        Die.seenUpTo limit o.dice = Die.seenUpTo limit p.dice) ∧
    ∀ q r : Roll, q.description limit = r.description limit ↔
      q.term = r.term ∧ q.dice.length = r.dice.length ∧
        Die.seenUpTo limit q.dice = Die.seenUpTo limit r.dice := by
  constructor
  · intro o p
    have solid : ']' ∉ o.result.text := (Notation.signed_text o.result).ofTerm.not_mem (by decide)
    have tail : ']' ∉ " = ".toList ++ o.result.text := List.not_mem_append (by decide) solid
    rw [Outcome.description, Outcome.description, List.append_assoc, List.append_assoc,
      Die.listText_append_eq_iff tail, List.append_cancel_left_eq, Number.text_injective.eq_iff,
      Die.listText_eq_iff, and_comm]
  · intro q r
    have solid : '[' ∉ q.term.text := (Notation.diceForm_text q.term).ofTerm.not_mem (by decide)
    rw [Roll.description, Roll.description, Die.append_listText_eq_iff solid,
      Dice.text_injective.eq_iff, Die.listText_eq_iff]

end TabletopDice
