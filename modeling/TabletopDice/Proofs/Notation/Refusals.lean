import Mathlib
import TabletopDice.Parser.Expr
import TabletopDice.Proofs.Notation.Notes
import TabletopDice.Proofs.Notation.Printing

/-!
# What is said about a dice term that is refused for what it means

A dice term can be written as the grammar wants it and still be refused: there are more dice than
can be counted, or two of its modifiers share a category. Both are found out once the term has been
read, and noted where it began.

Nobody is told. At the end of the term the reader has looked in vain for one more modifier, and that
is farther into the text than the beginning of the term. So what is pending when the term is refused
is that another modifier was wanted (`Dice.ofText_of_fault`), in the words of a text that breaks off
too early, and the fault that led to the refusal is not mentioned.
-/

set_option autoImplicit false

namespace TabletopDice

namespace Parser

open Notation Diagnostic

/-! ## The end of a term -/

/-- What is said where another modifier could have followed. -/
def wantedModifier : Diagnostic :=
  ⟨0, .unexpected (['k', 'd', 'r', 'x', 'c'].map .character) none⟩

/-- What is said there behind a bare zero, which could also have had a sign. -/
def wantedModifierOrSign : Diagnostic :=
  ⟨0, .unexpected (['+', '-', 'k', 'd', 'r', 'x', 'c'].map .character) (some '0')⟩

theorem standing_modifier_nil {x : Option Diagnostic} (h : AtNumberEnd 0 x) :
    Note.standing x (modifier []).notes = some wantedModifier ∨
      Note.standing x (modifier []).notes = some wantedModifierOrSign := by
  obtain before | rfl := h
  · -- the first of the letters takes the place of whatever is pending, and the others join it
    obtain ⟨k, more, notes, last⟩ : ∃ k more, (modifier []).notes = .raised ⟨0, k⟩ :: more ∧
        Note.standing (some ⟨0, k⟩) more = some wantedModifier := ⟨_, _, rfl, rfl⟩
    have first : Note.after x (.raised ⟨0, k⟩) = some ⟨0, k⟩ := after_raised_of_before before
    rw [notes, Note.standing_cons, first]
    exact .inl last
  · exact .inr rfl

/-- Whatever was pending in front of the modifiers of a term, in the end it is that one more was
wanted. -/
theorem standing_modifiers {v : Text} {ms : List Modifier} {x : Option Diagnostic}
    (forms : ModifiersForm v ms) (h : AtNumberEnd v.length x) :
    Note.standing x (many modifier v).notes = some wantedModifier ∨
      Note.standing x (many modifier v).notes = some wantedModifierOrSign := by
  induction forms generalizing x with
  | none =>
    rw [notes_many_of_rejects (rejects_of_begins begins_modifier ahead_nil)]
    exact standing_modifier_nil h
  | @next t u m ms form forms ih =>
    have stop : Ahead notDigit u := ahead_notDigit_of_modifiers forms
    have read : Yields modifier (t ++ u) m u := reads_modifier form stop
    have shorter : u.length < (t ++ u).length := progresses_modifier read
    rw [notes_many_of_yields read shorter, Note.standing_append]
    exact ih (atNumberEnd_standing_modifier form stop (h.before shorter))

/-! ## The whole term -/

/-- What is read of a dice term before it is checked. -/
def diceParts : Parser (Option Nat × Number × List Modifier) := do
  let count ← Parser.optional natural
  literal ['d']
  let sides ← number
  let ms ← many modifier
  pure (count, sides, ms)

theorem yields_diceParts {t u v : Text} {count : Option Nat} {sides : Number} {ms : List Modifier}
    (digits : CountDigits t count) (number : Signed u sides) (modifiers : ModifiersForm v ms) :
    Yields diceParts (t ++ 'd' :: (u ++ v)) (count, sides, ms) [] ∧
      (diceParts (t ++ 'd' :: (u ++ v))).notes =
        (Parser.optional natural (t ++ 'd' :: (u ++ v))).notes ++
          ((Parser.number (u ++ v)).notes ++ (many modifier v).notes) := by
  have calm : Ahead notDigit v := ahead_notDigit_of_modifiers modifiers
  have first := yields_count (r := u ++ v) digits
  have letter : Yields (literal ['d']) ('d' :: (u ++ v)) () (u ++ v) := yields_literal.2 rfl
  have second := reads_number number calm
  have third : Yields (many modifier) v ms [] := by
    have read := reads_modifiers modifiers (ahead_nil (q := notModifier))
    rwa [List.append_nil] at read
  constructor
  · exact yields_bind.2 ⟨_, _, first, yields_bind.2 ⟨_, _, letter,
      yields_bind.2 ⟨_, _, second, yields_map.2 ⟨_, third, rfl⟩⟩⟩⟩
  · rw [diceParts, notes_bind_of_yields first, notes_bind_of_yields letter,
      notes_bind_of_yields second, notes_bind_of_yields third, notes_pure, List.append_nil,
      literal_cons_same, literal, notes_pure, List.nil_append]

/-- What is pending once the parts of a term have been read up to the end of the text. -/
theorem standing_diceParts {t u v : Text} {count : Option Nat} {sides : Number}
    {ms : List Modifier} (digits : CountDigits t count) (number : Signed u sides)
    (modifiers : ModifiersForm v ms) :
    Note.standing none (diceParts (t ++ 'd' :: (u ++ v))).notes = some wantedModifier ∨
      Note.standing none (diceParts (t ++ 'd' :: (u ++ v))).notes = some wantedModifierOrSign := by
  have calm : Ahead notDigit v := ahead_notDigit_of_modifiers modifiers
  have ahead : v.length < (t ++ 'd' :: (u ++ v)).length := by
    simp only [List.length_append, List.length_cons]
    omega
  have counted : NotesBefore v.length (Parser.optional natural) (t ++ 'd' :: (u ++ v)) :=
    (notesBefore_natural ahead).optional
  rw [(yields_diceParts digits number modifiers).2, Note.standing_append, Note.standing_append]
  refine standing_modifiers modifiers ?_
  have sided : EndsAt v.length Parser.number ([] ++ (u ++ v)) :=
    endsAt_number (fun _ mem => absurd mem List.not_mem_nil) number calm
  rw [List.nil_append] at sided
  exact sided.reading (reads_number number calm) (before_none.standing counted)

/-- A fault is noted last, but where the term began, and what is pending farther on stays. -/
theorem whole_dice_of_fault {s : Text} {count : Option Nat} {sides : Number} {ms : List Modifier}
    {f : Fault} {d : Diagnostic} (read : Yields diceParts s (count, sides, ms) [])
    (fault : assemble count sides ms = .error f)
    (standing : Note.standing none (diceParts s).notes = some d) (farther : d.left < s.length) :
    whole dice s = .error ⟨some d⟩ := by
  have reported : whole dice s = .error ⟨Note.after (Note.standing none (diceParts s).notes)
      (.raised ⟨s.length, .fault f⟩)⟩ := whole_check_of_error read fault
  rw [reported, standing, after_raised_of_lt farther]

/-! ## What is found fault with -/

/-- The check finds fault with a term exactly where it has too many dice or a category twice. -/
theorem exists_fault_iff (count : Option Nat) (sides : Number) (ms : List Modifier) :
    (∃ f, assemble count sides ms = .error f) ↔
      4294967295 < count.getD 1 ∨ ¬ (ms.map Modifier.category).Nodup := by
  constructor
  · intro ⟨f, refused⟩
    by_cases fits : count.getD 1 ≤ 4294967295
    · right
      intro distinct
      have made : assemble count sides ms =
          .ok (ms.foldl Dice.set { count := ⟨count.getD 1, fits⟩, sides }) :=
        assemble_eq_ok_iff.2 ⟨⟨count.getD 1, fits⟩, rfl, distinct, rfl⟩
      cases refused.symm.trans made
    · exact .inl (Nat.lt_of_not_le fits)
  · intro refused
    cases outcome : assemble count sides ms with
    | error f => exact ⟨f, rfl⟩
    | ok d =>
      obtain ⟨n, same, distinct, -⟩ := assemble_eq_ok_iff.1 outcome
      obtain many | twice := refused
      · exact absurd n.upper (by omega)
      · exact absurd distinct twice

/-- The fault is found with the dice, and says so. -/
theorem message_of_fault {count : Option Nat} {sides : Number} {ms : List Modifier} {f : Fault}
    (refused : assemble count sides ms = .error f) : 'D' ∈ f.message.toList := by
  have either : f = .countTooLarge ∨ ∃ d, f = .duplicate d := by
    unfold assemble at refused
    split at refused
    · cases refused
      exact .inl rfl
    · rename_i n _
      cases made : Dice.ofModifiers n sides ms with
      | ok d => rw [made] at refused; cases refused
      | error d => rw [made] at refused; cases refused; exact .inr ⟨d, rfl⟩
  obtain rfl | ⟨d, rfl⟩ := either
  · decide
  · have message : (Fault.duplicate d).message = "Dice: " ++ d.message := rfl
    rw [message, String.toList_append]
    exact List.mem_append_left d.message.toList (by decide)

theorem message_wantedModifier :
    Refusal.message ⟨some wantedModifier⟩ =
      "found end of input expected 'k', 'd', 'r', 'x', or 'c'" := rfl

theorem message_wantedModifierOrSign :
    Refusal.message ⟨some wantedModifierOrSign⟩ =
      "found 0 expected '+', '-', 'k', 'd', 'r', 'x', or 'c'" := rfl

end Parser

open TabletopDice.Parser TabletopDice.Notation

/-- **What is wrong with a complete dice term is not said.** A term with too many dice, or with two
modifiers of one category, is found fault with and refused; what is reported is that one more
modifier was wanted behind it, and the wording of the fault is no part of the report. -/
theorem Dice.ofText_of_fault {t u v : Text} {count : Option Nat} {sides : Number}
    {ms : List Modifier} (digits : CountDigits t count) (number : Signed u sides)
    (modifiers : ModifiersForm v ms)
    (refused : 4294967295 < count.getD 1 ∨ ¬ (ms.map Modifier.category).Nodup) :
    ∃ f d, assemble count sides ms = .error f ∧
      Dice.ofText (t ++ 'd' :: (u ++ v)) = .error ⟨some d⟩ ∧
      d ∈ [wantedModifier, wantedModifierOrSign] ∧
      ¬ f.message.toList <:+: (Refusal.message ⟨some d⟩).toList := by
  obtain ⟨f, fault⟩ := (exists_fault_iff count sides ms).2 refused
  have named : 'D' ∈ f.message.toList := message_of_fault fault
  have read := (yields_diceParts digits number modifiers).1
  have start : 0 < (t ++ 'd' :: (u ++ v)).length := by
    rw [List.length_append]
    exact Nat.lt_of_lt_of_le (Nat.zero_lt_succ _) (Nat.le_add_left _ _)
  obtain standing | standing := standing_diceParts digits number modifiers
  · have reported := whole_dice_of_fault read fault standing start
    refine ⟨f, wantedModifier, fault, reported, by decide, fun within => ?_⟩
    rw [message_wantedModifier] at within
    exact absurd (within.subset named) (by decide)
  · have reported := whole_dice_of_fault read fault standing start
    refine ⟨f, wantedModifierOrSign, fault, reported, by decide, fun within => ?_⟩
    rw [message_wantedModifierOrSign] at within
    exact absurd (within.subset named) (by decide)

/-- More dice than can be counted, and a bare zero at the end. -/
theorem Dice.ofText_tooMany :
    ∃ f d, assemble (some 4294967296) 0 [] = .error f ∧
      Dice.ofText "4294967296d0".toList = .error ⟨some d⟩ ∧
      d ∈ [wantedModifier, wantedModifierOrSign] ∧
      ¬ f.message.toList <:+: (Refusal.message ⟨some d⟩).toList := by
  have digits : CountDigits "4294967296".toList (some 4294967296) := unsigned_digits 4294967296
  have parts : "4294967296d0".toList = "4294967296".toList ++ 'd' :: (['0'] ++ []) := rfl
  rw [parts]
  exact Dice.ofText_of_fault digits (signed_text 0) .none (.inl (by decide))

/-- A term that keeps dice twice. What is wrong with it is known and is not what is reported. -/
theorem Dice.ofText_keptTwice :
    let once : Modifier := .select ⟨.keep, .highest, 1⟩
    let twice : Modifier := .select ⟨.keep, .highest, .clamp 2⟩
    (assemble (some 4) (.clamp 6) [once, twice]).mapError Fault.message =
        .error "Dice: more than one keep/drop modifier" ∧
      (Dice.ofText "4d6kh1kh2".toList).mapError Refusal.message =
        .error "found end of input expected 'k', 'd', 'r', 'x', or 'c'" ∧
      ¬ "Dice: more than one keep/drop modifier".toList <:+:
        "found end of input expected 'k', 'd', 'r', 'x', or 'c'".toList := by
  have reported : Dice.ofText "4d6kh1kh2".toList = .error ⟨some wantedModifier⟩ := by cbv
  have named : 'D' ∈ "Dice: more than one keep/drop modifier".toList := by decide
  refine ⟨rfl, ?_, fun within => absurd (within.subset named) (by decide)⟩
  rw [reported]
  exact congrArg Except.error message_wantedModifier

end TabletopDice
