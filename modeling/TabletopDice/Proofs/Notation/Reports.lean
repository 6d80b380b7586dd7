import Mathlib
import TabletopDice.Proofs.Notation.Chains
import TabletopDice.Proofs.Notation.Notes

/-!
# A refusal says where and why

Reading the digits of a number clears what is pending, and nothing brings it back. So it is not a
matter of course that there is anything left to report when a text is refused. There is, because a
reader that gives up has just looked for something in vain: the last thing it noted is what it
missed, or what it found fault with, and nothing has been cleared since.

A place is counted from the end of the text. Whatever a reader says about the end of a text that it
was given concerns a place within that end, and hence within the text; and since it is given nothing
but ends of the text (`TakesFront`), no place lies in front of it.

`Reports` is both of these, for one text. An expression in parentheses is read by the reader of
expressions itself, and so that reader needs an induction: on the length of the text, which the
parenthesis makes shorter (`reports_expr`).
-/

set_option autoImplicit false

namespace TabletopDice

namespace Parser

open Notation Diagnostic

variable {α β : Type}

/-- The parser speaks of places of the text that it is given, and where it reads nothing, the last
thing it says is why. -/
structure Reports (p : Parser α) (s : Text) : Prop where
  within : NotesAt (· ≤ s.length) p s
  last : Rejects p s → ∃ before d, (p s).notes = before ++ [.raised d]

/-! ## Combinators -/

section Combinators

variable {p q : Parser α} {s : Text}

theorem Reports.pure (a : α) : Reports (Pure.pure a : Parser α) s where
  within _ mem := absurd mem List.not_mem_nil
  last rejected := absurd rejected (not_rejects (yields_pure.2 ⟨rfl, rfl⟩))

theorem Reports.bind {f : α → Parser β} (first : Reports p s) (front : TakesFront p)
    (second : ∀ a r, Yields p s a r → Reports (f a) r) : Reports (p >>= f) s where
  within := first.within.bind fun a r read d mem =>
    Nat.le_trans ((second a r read).within d mem) (front read).length_le
  last refused := by
    obtain rejected | ⟨a, r, read⟩ := rejects_or_yields p s
    · rw [notes_bind_of_rejects rejected]
      exact first.last rejected
    · obtain ⟨before, d, trail⟩ := (second a r read).last (rejects_of_rejects_bind read refused)
      exact ⟨(p s).notes ++ before, d, by rw [notes_bind_of_yields read, trail, List.append_assoc]⟩

theorem Reports.orElse (h : Reports p s) (k : Reports q s) : Reports (p.orElse q) s where
  within := h.within.orElse k.within
  last refused := by
    obtain ⟨first, second⟩ := rejects_orElse.1 refused
    obtain ⟨before, d, trail⟩ := k.last second
    refine ⟨(p s).notes ++ before, d, ?_⟩
    rw [notes_orElse_of_rejects first, trail, List.append_assoc]

/-- Where there is something to choose from, the last that is tried has the last word. -/
theorem Reports.choice {ps : List (Parser α)} (nonempty : ps ≠ []) (h : ∀ p ∈ ps, Reports p s) :
    Reports (choice ps) s := by
  induction ps with
  | nil => exact absurd rfl nonempty
  | cons p ps ih =>
    have first : Reports p s := h p List.mem_cons_self
    cases ps with
    | nil =>
      -- behind the only one there is a parser that fails and has nothing to say
      refine ⟨first.within.orElse fun _ mem => absurd mem List.not_mem_nil, fun refused => ?_⟩
      obtain ⟨rejected, -⟩ := rejects_orElse.1 refused
      obtain ⟨before, d, trail⟩ := first.last rejected
      refine ⟨before, d, (notes_orElse_of_rejects rejected).trans ?_⟩
      exact (List.append_nil _).trans trail
    | cons q ps =>
      exact first.orElse (ih (List.cons_ne_nil q ps) fun q mem => h q (List.mem_cons_of_mem p mem))

theorem Reports.map {f : α → β} (h : Reports p s) (front : TakesFront p) :
    Reports (do let a ← p; Pure.pure (f a)) s :=
  h.bind front fun a _ _ => .pure (f a)

theorem Reports.optional (h : Reports p s) (front : TakesFront p) : Reports (optional p) s :=
  (h.map front).orElse (.pure none)

/-- A repetition never fails, so there is nothing to say about why it did. -/
theorem Reports.many (h : ∀ t : Text, t.length ≤ s.length → Reports p t) :
    Reports (many p) s where
  within := by
    suffices ∀ d, .raised d ∈ (Parser.many p s).notes → d.left ≤ s.length from this
    fun_induction Parser.many p s with
    | case1 s notes rejected =>
      intro d mem
      exact (h s (Nat.le_refl _)).within d (by rwa [rejected])
    | case2 s a r notes read shorter next ih =>
      intro d mem
      obtain first | later := List.mem_append.1 mem
      · exact (h s (Nat.le_refl _)).within d (by rwa [read])
      · have inside := ih (fun t small => h t (by omega)) d later
        omega
    | case3 s a r notes read longer =>
      intro d mem
      exact (h s (Nat.le_refl _)).within d (by rwa [read])
  last refused := absurd refused (many_ne_none p s)

theorem Reports.check {g : α → Except Fault β} (h : Reports p s) : Reports (check p g) s where
  within := h.within.check (Nat.le_refl _)
  last refused := by
    obtain rejected | ⟨a, r, read⟩ := rejects_or_yields p s
    · rw [notes_check_of_rejects rejected]
      exact h.last rejected
    · cases outcome : g a with
      | ok b => exact absurd refused (not_rejects (yields_check.2 ⟨a, read, outcome⟩))
      | error e => exact ⟨_, _, by rw [check_of_error read outcome]⟩

end Combinators

/-! ## Single characters -/

/-- A parser that reads nothing off a text, and says nothing but why. -/
theorem Reports.of_raised {p : Parser α} {s : Text} {d : Diagnostic}
    (attempt : p s = ⟨none, [.raised d]⟩) (inside : d.left ≤ s.length) : Reports p s where
  within e mem := by
    rw [attempt, List.mem_singleton] at mem
    cases mem
    exact inside
  last _ := ⟨[], d, by rw [attempt, List.nil_append]⟩

/-- A parser that reads something off a text, and has nothing to say about it. -/
theorem Reports.of_silent {p : Parser α} {s r : Text} {a : α} {notes : List Note}
    (attempt : p s = ⟨some (a, r), notes⟩) (silent : ∀ d, .raised d ∉ notes) : Reports p s where
  within d mem := by
    rw [attempt] at mem
    exact absurd mem (silent d)
  last rejected := by
    rw [Rejects, attempt] at rejected
    cases rejected

theorem reports_literal (x s : Text) : Reports (literal x) s := by
  induction x generalizing s with
  | nil => exact .pure ()
  | cons c x ih =>
    cases s with
    | nil => exact .of_raised rfl (Nat.le_refl 0)
    | cons d s =>
      by_cases same : d = c
      · subst same
        have rest := ih s
        constructor
        · intro e mem
          rw [literal_cons_same] at mem
          exact Nat.le_succ_of_le (rest.within e mem)
        · intro refused
          rw [Rejects, literal_cons_same] at refused
          rw [literal_cons_same]
          exact rest.last refused
      · exact .of_raised (literal_cons_other same x s) (Nat.le_refl _)

theorem reports_oneOf (cs : List Char) (s : Text) : Reports (oneOf cs) s := by
  cases s with
  | nil => exact .of_raised rfl (Nat.le_refl 0)
  | cons c s =>
    by_cases mem : c ∈ cs
    · exact .of_silent (show oneOf cs (c :: s) = _ from if_pos mem) fun _ => List.not_mem_nil
    · exact .of_raised (oneOf_of_not_mem mem s) (Nat.le_succ _)

theorem reports_blank (s : Text) : Reports blank s := .of_silent rfl fun _ => List.not_mem_nil

theorem reports_endOfText (s : Text) : Reports endOfText s := by
  cases s with
  | nil => exact .of_silent rfl fun _ => List.not_mem_nil
  | cons c s => exact .of_raised rfl (Nat.le_refl _)

/-! ## Numbers and dice terms -/

theorem reports_positiveDigits (s : Text) : Reports positiveDigits s := by
  cases s with
  | nil => exact .of_raised rfl (Nat.le_refl 0)
  | cons c s =>
    by_cases leading : isLeadingDigit c = true
    · exact .of_silent (show positiveDigits (c :: s) = _ from if_pos leading) (by simp)
    · exact .of_raised (show positiveDigits (c :: s) = _ from if_neg leading) (Nat.le_refl _)

theorem reports_natural (s : Text) : Reports natural s :=
  ((reports_positiveDigits s).map takesFront_positiveDigits).orElse
    ((reports_literal _ s).map (TakesFront.literal _))

theorem reports_number (s : Text) : Reports number s :=
  .check (((reports_oneOf _ s).optional (TakesFront.oneOf _)).bind (TakesFront.oneOf _).optional
    fun _ r _ => (reports_natural r).map takesFront_natural)

theorem reports_oneOfTexts {beginnings : List (Text × α)} (nonempty : beginnings ≠ []) (s : Text) :
    Reports (oneOfTexts beginnings) s := by
  refine .choice (by simpa using nonempty) fun p mem => ?_
  obtain ⟨b, -, rfl⟩ := List.mem_map.1 mem
  exact (reports_literal b.1 s).map (TakesFront.literal _)

/-- What a modifier is made of: a beginning, and a number behind it. -/
theorem reports_beginning {beginnings : List (Text × α)} {f : α → Number → β}
    (nonempty : beginnings ≠ []) (s : Text) :
    Reports (do let a ← oneOfTexts beginnings; let n ← number; pure (f a n)) s :=
  (reports_oneOfTexts nonempty s).bind (takesFront_oneOfTexts _) fun _ r _ =>
    (reports_number r).map takesFront_number

theorem reports_modifier (s : Text) : Reports modifier s := by
  refine .choice (List.cons_ne_nil _ _) fun p mem => ?_
  simp only [List.mem_cons, List.not_mem_nil, or_false] at mem
  obtain rfl | rfl | rfl | rfl := mem
  · exact (reports_beginning (by decide) s).map takesFront_selection
  · exact (reports_beginning (by decide) s).map (takesFront_conditionAfter _ _)
  · exact (reports_beginning (by decide) s).map (takesFront_conditionAfter _ _)
  · exact (reports_beginning (by decide) s).map (takesFront_conditionAfter _ _)

theorem reports_dice (s : Text) : Reports dice s :=
  .check (((reports_natural s).optional takesFront_natural).bind takesFront_natural.optional
    fun _ t _ => (reports_literal _ t).bind (TakesFront.literal _) fun _ u _ =>
      (reports_number u).bind takesFront_number fun _ _ _ =>
        (Reports.many fun v _ => reports_modifier v).map takesFront_modifier.many)

/-! ## Expressions -/

theorem reports_operator {os : List Operator} (nonempty : os ≠ []) (s : Text) :
    Reports (operator os) s := by
  refine .choice (by simpa using nonempty) fun p mem => ?_
  obtain ⟨o, -, rfl⟩ := List.mem_map.1 mem
  exact (reports_literal _ s).map (TakesFront.literal _)

/-- Between parentheses, the text is a shorter one. -/
theorem Reports.group {inner : Parser Expr} {s : Text} (front : TakesFront inner)
    (h : ∀ t : Text, t.length < s.length → Reports inner t) : Reports (group inner) s :=
  (reports_literal _ s).bind (TakesFront.literal _) fun _ t opening => by
    obtain rfl := yields_literal.1 opening
    exact (h t (Nat.lt_succ_self _)).bind front fun _ u _ =>
      (reports_literal _ u).map (TakesFront.literal _)

theorem Reports.atom {inner : Parser Expr} {s : Text} (front : TakesFront inner)
    (h : ∀ t : Text, t.length < s.length → Reports inner t) : Reports (atom inner) s := by
  refine (reports_blank s).bind .blank fun _ t start => ?_
  obtain rfl := yields_blank.1 start
  have shorter : (Text.skipBlank s).length ≤ s.length := Text.length_skipBlank_le s
  refine Reports.bind (.choice (List.cons_ne_nil _ _) fun p mem => ?_) (.choice fun p mem => ?_)
    fun _ u _ => (reports_blank u).map .blank
  · simp only [List.mem_cons, List.not_mem_nil, or_false] at mem
    obtain rfl | rfl | rfl := mem
    · exact .group front fun t less => h t (Nat.lt_of_lt_of_le less shorter)
    · exact (reports_dice _).map takesFront_dice
    · exact (reports_number _).map takesFront_number
  · simp only [List.mem_cons, List.not_mem_nil, or_false] at mem
    obtain rfl | rfl | rfl := mem
    · exact front.group
    · exact takesFront_dice.bind fun _ => .pure _
    · exact takesFront_number.bind fun _ => .pure _

theorem Reports.joinedBy {os : List Operator} {part : Parser Expr} {s : Text}
    (nonempty : os ≠ []) (front : TakesFront part)
    (h : ∀ t : Text, t.length ≤ s.length → Reports part t) : Reports (joinedBy os part) s := by
  have step : TakesFront (operand os part) :=
    (takesFront_operator os).bind fun _ => front.bind fun _ => .pure _
  rw [joinedBy_eq]
  refine (h s (Nat.le_refl _)).bind front fun _ t first => ?_
  refine (Reports.many fun u small => ?_).map step.many
  refine (reports_operator nonempty u).bind (takesFront_operator os) fun _ v sign => ?_
  have inside := (front first).length_le
  have further := (takesFront_operator os sign).length_le
  exact (h v (by omega)).map front

theorem reports_expr (s : Text) : Reports expr s := by
  induction length : s.length using Nat.strongRecOn generalizing s with
  | ind n ih =>
    have front : TakesFront (Parser.atom expr) := takesFront_expr.atom
    have atoms : ∀ t : Text, t.length ≤ s.length → Reports (Parser.atom expr) t := fun t small =>
      .atom takesFront_expr fun u less => ih u.length (by omega) u rfl
    have products : ∀ t : Text, t.length ≤ s.length → Reports (product expr) t := fun t small =>
      .joinedBy (by decide) front fun u smaller => atoms u (by omega)
    rw [expr_eq]
    exact .joinedBy (by decide) front.joinedBy products

/-! ## Whole texts -/

theorem Reports.ended {p : Parser α} {s : Text} (h : Reports p s) (front : TakesFront p) :
    Reports (ended p) s :=
  h.bind front fun a r _ => (reports_endOfText r).bind TakesFront.endOfText fun _ _ _ => .pure a

end Parser

/-- No reason goes without words. -/
theorem Reason.message_ne_empty (k : Reason) : k.message ≠ "" := by
  have worded : ∀ {t : String} (u : String), t ≠ "" → t ++ u ≠ "" := fun u begun whole =>
    begun (String.append_eq_empty_iff.1 whole).1
  cases k with
  | unexpected wanted found =>
    cases found with
    | none => exact worded (t := "found end of input expected ") _ (by decide)
    | some c => exact worded _ (worded _ (worded (t := "found ") _ (by decide)))
  | fault f =>
    cases f with
    | duplicate d => exact worded (t := "Dice: ") _ (by decide)
    | numberTooLarge => decide
    | numberTooSmall => decide
    | countTooLarge => decide
  | several => decide

/-- How many characters of a text stand in front of the place of a diagnostic. -/
def Diagnostic.place (d : Diagnostic) (s : Text) : Int := s.length - d.left

/-- The refusal of a text comes with a diagnostic, the diagnostic has a place in the text, and the
refusal has words for it. -/
def Refusal.Informs (r : Refusal) (s : Text) : Prop :=
  ∃ d, r.diagnostic? = some d ∧ 0 ≤ d.place s ∧ d.place s ≤ s.length ∧ r.message ≠ ""

theorem Parser.informs_of_whole {α : Type} {p : Parser α} {s : Text} {r : Refusal}
    (reports : Reports p s) (front : TakesFront p) (refused : whole p s = .error r) :
    r.Informs s := by
  obtain ⟨rejected, rfl⟩ := whole_eq_error_iff.1 refused
  have all : Reports (ended p) s := reports.ended front
  obtain ⟨before, d, trail⟩ := all.last rejected
  -- whatever was pending before the last note, there is something pending after it
  obtain ⟨e, pending⟩ : ∃ e, Note.pending (ended p s).notes = some e := by
    rw [Note.pending_eq_standing, trail, Note.standing_append]
    exact ⟨_, rfl⟩
  have inside : e.left ≤ s.length :=
    Note.forall_mem_standing (P := (· ≤ s.length)) (by simp) all.within e pending
  refine ⟨e, pending, ?_, ?_, ?_⟩
  · unfold Diagnostic.place
    omega
  · unfold Diagnostic.place
    omega
  · simp only [Refusal.message, pending]
    exact e.reason.message_ne_empty

open TabletopDice.Parser

/-- **Every refusal informs**: a text that is no expression, no dice term, no modifier or no number
is refused with a diagnostic, at a place in the text, and in words. -/
theorem Refusal.informs (s : Text) (r : Refusal) :
    (Expr.ofText s = .error r → r.Informs s) ∧ (Dice.ofText s = .error r → r.Informs s) ∧
      (Modifier.ofText s = .error r → r.Informs s) ∧ (Number.ofText s = .error r → r.Informs s) :=
  ⟨informs_of_whole (reports_expr s) takesFront_expr,
    informs_of_whole (reports_dice s) takesFront_dice,
    informs_of_whole (reports_modifier s) takesFront_modifier,
    informs_of_whole (reports_number s) takesFront_number⟩

/-- A parenthesis is missing behind a number, which has cleared what was pending; a modifier breaks
off in front of a letter, and another one within its letters; a number is too small. -/
theorem Refusal.informs_each :
    (∃ r, Expr.ofText "(1+20".toList = .error r ∧ r.Informs "(1+20".toList) ∧
      (∃ r, Dice.ofText "3d10khx".toList = .error r ∧ r.Informs "3d10khx".toList) ∧
      (∃ r, Modifier.ofText "cs10".toList = .error r ∧ r.Informs "cs10".toList) ∧
      ∃ r, Number.ofText "-2147483649".toList = .error r ∧ r.Informs "-2147483649".toList := by
  have unclosed : Expr.ofText "(1+20".toList =
      .error ⟨some ⟨0, .unexpected (['*', '+', '-', ')'].map .character) none⟩⟩ := by cbv
  have cut : Dice.ofText "3d10khx".toList =
      .error ⟨some ⟨0, .unexpected (['+', '-'].map .character) (some 'x')⟩⟩ := by cbv
  have signless : Modifier.ofText "cs10".toList =
      .error ⟨some ⟨2, .unexpected (['<', '>', '='].map .character) (some '1')⟩⟩ := by cbv
  have small : Number.ofText "-2147483649".toList =
      .error ⟨some ⟨11, .fault .numberTooSmall⟩⟩ := by cbv
  exact ⟨⟨_, unclosed, (Refusal.informs _ _).1 unclosed⟩, ⟨_, cut, (Refusal.informs _ _).2.1 cut⟩,
    ⟨_, signless, (Refusal.informs _ _).2.2.1 signless⟩,
    ⟨_, small, (Refusal.informs _ _).2.2.2 small⟩⟩

end TabletopDice
