import TabletopDice.Proofs.Notation.Terms

/-!
# What stays pending while a term is read

Reading a text leaves a trail of notes, and of the diagnostics among them one is pending in the end.
To know it one need not know them all: a diagnostic replaces whatever is pending in front of it, so
it is enough to know that nothing pending stands at the end of what has been read, or behind it.

`Diagnostic.Before` is that, for a place in the text. Letters that are looked for and not found are
missed where they should stand, and so in front of the number that a modifier goes on with
(`notesBefore_oneOfTexts`). A number, once it has been read, has taken back what was pending, with
one exception: a bare `0` takes back nothing, and the sign that it could have had was missed behind
it (`Diagnostic.missedSign`). So this is all that can be pending at the end of a modifier
(`leaves_modifier`), whatever was tried before it was read.
-/

set_option autoImplicit false

namespace TabletopDice

/-! ## What is pending after several notes -/

/-- What is pending after notes, oldest first, where something may have been pending before. -/
def Note.standing (pending : Option Diagnostic) (notes : List Note) : Option Diagnostic :=
  notes.foldl Note.after pending

namespace Note

variable {x : Option Diagnostic} {n : Nat}

theorem pending_eq_standing (notes : List Note) : pending notes = standing none notes := rfl

@[simp] theorem standing_nil : standing x [] = x := rfl

@[simp] theorem standing_cons (k : Note) (notes : List Note) :
    standing x (k :: notes) = standing (after x k) notes := rfl

@[simp] theorem standing_append (notes more : List Note) :
    standing x (notes ++ more) = standing (standing x notes) more := List.foldl_append

/-- Whatever is pending stands where something pending or raised before it stood. -/
theorem forall_mem_standing {P : Nat → Prop} {notes : List Note} (h : ∀ d ∈ x, P d.left)
    (raised : ∀ d, .raised d ∈ notes → P d.left) : ∀ d ∈ standing x notes, P d.left := by
  induction notes generalizing x with
  | nil => exact h
  | cons k notes ih =>
    refine ih ?_ fun d mem => raised d (List.mem_cons_of_mem k mem)
    cases k with
    | cleared => exact fun d mem => absurd mem (Option.not_mem_none d)
    | raised d =>
      have new : P d.left := raised d List.mem_cons_self
      cases x with
      | none => exact fun e mem => Option.some.inj mem ▸ new
      | some e =>
        have old : P e.left := h e rfl
        intro c mem
        obtain rfl : e.combine d = c := Option.some.inj mem
        unfold Diagnostic.combine
        split
        · exact new
        · split <;> exact old

end Note

namespace Diagnostic

variable {x : Option Diagnostic} {n : Nat}

/-- Whatever is pending stands in front of a place. -/
def Before (n : Nat) (x : Option Diagnostic) : Prop := ∀ d ∈ x, n < d.left

theorem before_none : Before n none := fun _ mem => absurd mem (Option.not_mem_none _)

theorem Before.mono {m : Nat} (h : Before n x) (less : m ≤ n) : Before m x :=
  fun d mem => Nat.lt_of_le_of_lt less (h d mem)

theorem Before.standing {notes : List Note} (h : Before n x)
    (ahead : ∀ d, .raised d ∈ notes → n < d.left) : Before n (Note.standing x notes) :=
  Note.forall_mem_standing h ahead

/-- A diagnostic takes the place of what stands in front of it. -/
theorem after_raised_of_before {d : Diagnostic} (h : Before d.left x) :
    Note.after x (.raised d) = some d := by
  cases x with
  | none => rfl
  | some e => exact congrArg some (if_pos (h e rfl))

/-- What stands farther on stays. -/
theorem after_raised_of_lt {d e : Diagnostic} (h : d.left < e.left) :
    Note.after (some d) (.raised e) = some d := by
  have later : ¬ e.left < d.left := Nat.lt_asymm h
  show some (d.combine e) = some d
  rw [combine, if_neg later, if_pos h]

/-- The sign that a `0` could have had. It is missed behind the `0`. -/
def missedSign (n : Nat) : Diagnostic :=
  ⟨n, .unexpected (['+', '-'].map .character) (some '0')⟩

/-- What can be pending where a number ends. -/
def AtNumberEnd (n : Nat) (x : Option Diagnostic) : Prop := Before n x ∨ x = some (missedSign n)

theorem AtNumberEnd.before {m : Nat} (h : AtNumberEnd n x) (less : m < n) : Before m x := by
  obtain before | missed := h
  · exact before.mono (Nat.le_of_lt less)
  · intro d mem
    obtain rfl : missedSign n = d := Option.some.inj (missed.symm.trans mem)
    exact less

end Diagnostic

namespace Parser

open Notation Diagnostic

variable {α β : Type}

/-! ## What the combinators note -/

section Combinators

variable {p q : Parser α} {f : α → Parser β} {s r : Text} {a : α}

theorem notes_pure (a : α) (s : Text) : ((pure a : Parser α) s).notes = [] := rfl

theorem Yields.exists_notes (read : Yields p s a r) : ∃ notes, p s = ⟨some (a, r), notes⟩ :=
  ⟨(p s).notes, by rw [← read]⟩

theorem Rejects.exists_notes (rejected : Rejects p s) : ∃ notes, p s = ⟨none, notes⟩ :=
  ⟨(p s).notes, by rw [← rejected]⟩

theorem notes_bind_of_yields (read : Yields p s a r) :
    ((p >>= f) s).notes = (p s).notes ++ (f a r).notes := by
  obtain ⟨notes, attempt⟩ := read.exists_notes
  show (Parser.bind p f s).notes = _
  simp [Parser.bind, attempt]

theorem notes_bind_of_rejects (rejected : Rejects p s) : ((p >>= f) s).notes = (p s).notes := by
  obtain ⟨notes, attempt⟩ := rejected.exists_notes
  show (Parser.bind p f s).notes = _
  simp [Parser.bind, attempt]

theorem notes_orElse_of_yields (read : Yields p s a r) : (p.orElse q s).notes = (p s).notes := by
  obtain ⟨notes, attempt⟩ := read.exists_notes
  simp [Parser.orElse, attempt]

theorem notes_orElse_of_rejects (rejected : Rejects p s) :
    (p.orElse q s).notes = (p s).notes ++ (q s).notes := by
  obtain ⟨notes, attempt⟩ := rejected.exists_notes
  simp [Parser.orElse, attempt]

theorem notes_many_of_yields (read : Yields p s a r) (shorter : r.length < s.length) :
    (many p s).notes = (p s).notes ++ (many p r).notes := by
  obtain ⟨notes, attempt⟩ := read.exists_notes
  rw [many, attempt]
  simp [shorter]

theorem notes_many_of_rejects (rejected : Rejects p s) : (many p s).notes = (p s).notes := by
  obtain ⟨notes, attempt⟩ := rejected.exists_notes
  rw [many, attempt]

theorem notes_check_of_rejects {g : α → Except Fault β} (rejected : Rejects p s) :
    (check p g s).notes = (p s).notes := by
  obtain ⟨notes, attempt⟩ := rejected.exists_notes
  simp [check, attempt]

theorem notes_check_of_ok {g : α → Except Fault β} {b : β} (read : Yields p s a r)
    (fits : g a = .ok b) : (check p g s).notes = (p s).notes := by
  obtain ⟨notes, attempt⟩ := read.exists_notes
  simp [check, attempt, fits]

/-- A check that finds fault says so at the place where reading began. -/
theorem check_of_error {g : α → Except Fault β} {e : Fault} (read : Yields p s a r)
    (fault : g a = .error e) :
    check p g s = ⟨none, (p s).notes ++ [.raised ⟨s.length, .fault e⟩]⟩ := by
  obtain ⟨notes, attempt⟩ := read.exists_notes
  simp [check, attempt, fault]

/-- A text is refused with what is pending once all that there is to note has been noted. -/
theorem whole_eq_error_iff {k : Refusal} :
    whole p s = .error k ↔ Rejects (ended p) s ∧ k = ⟨Note.pending (ended p s).notes⟩ := by
  obtain rejected | ⟨a, r, read⟩ := rejects_or_yields (ended p) s
  · obtain ⟨notes, attempt⟩ := rejected.exists_notes
    rw [whole, front, attempt]
    simp only [Except.map, Except.error.injEq, rejected, true_and]
    exact eq_comm
  · obtain ⟨notes, attempt⟩ := read.exists_notes
    rw [whole, front, attempt]
    simp only [Except.map, reduceCtorEq, false_iff, not_and]
    exact fun rejected => absurd rejected (not_rejects read)

/-- Where nothing is read, what is pending is reported. -/
theorem whole_of_rejects (rejected : Rejects p s) : whole p s = .error ⟨Note.pending (p s).notes⟩ :=
  whole_eq_error_iff.2 ⟨rejects_bind rejected, by rw [ended, notes_bind_of_rejects rejected]⟩

/-- Where a check finds fault, the fault is set against what is pending in front of it. -/
theorem whole_check_of_error {g : α → Except Fault β} {e : Fault} (read : Yields p s a r)
    (fault : g a = .error e) :
    whole (check p g) s =
      .error ⟨Note.after (Note.standing none (p s).notes) (.raised ⟨s.length, .fault e⟩)⟩ := by
  have attempt := check_of_error read fault
  have rejected : Rejects (check p g) s := by rw [Rejects, attempt]
  rw [whole_of_rejects rejected, attempt, Note.pending_eq_standing, Note.standing_append,
    Note.standing_cons, Note.standing_nil]

end Combinators

/-! ## The places of notes -/

/-- Whatever the parser has to say about a text concerns places of a kind. -/
def NotesAt (P : Nat → Prop) (p : Parser α) (s : Text) : Prop :=
  ∀ d, .raised d ∈ (p s).notes → P d.left

section Places

variable {P : Nat → Prop} {p q : Parser α} {s : Text}

theorem NotesAt.orElse (h : NotesAt P p s) (k : NotesAt P q s) : NotesAt P (p.orElse q) s := by
  intro d mem
  obtain rejected | ⟨a, r, read⟩ := rejects_or_yields p s
  · rw [notes_orElse_of_rejects rejected] at mem
    exact (List.mem_append.1 mem).elim (h d) (k d)
  · rw [notes_orElse_of_yields read] at mem
    exact h d mem

theorem NotesAt.bind {f : α → Parser β} (first : NotesAt P p s)
    (second : ∀ a r, Yields p s a r → NotesAt P (f a) r) : NotesAt P (p >>= f) s := by
  intro d mem
  obtain rejected | ⟨a, r, read⟩ := rejects_or_yields p s
  · rw [notes_bind_of_rejects rejected] at mem
    exact first d mem
  · rw [notes_bind_of_yields read] at mem
    exact (List.mem_append.1 mem).elim (first d) (second a r read d)

/-- The place of a fault is where reading began. -/
theorem NotesAt.check {g : α → Except Fault β} (h : NotesAt P p s) (start : P s.length) :
    NotesAt P (check p g) s := by
  intro d mem
  obtain rejected | ⟨a, r, read⟩ := rejects_or_yields p s
  · rw [notes_check_of_rejects rejected] at mem
    exact h d mem
  · cases outcome : g a with
    | ok b =>
      rw [notes_check_of_ok read outcome] at mem
      exact h d mem
    | error e =>
      rw [check_of_error read outcome] at mem
      obtain earlier | fault := List.mem_append.1 mem
      · exact h d earlier
      · cases List.mem_singleton.1 fault
        exact start

end Places

/-! ## Notes in front of a place -/

/-- Whatever the parser has to say about a text concerns what stands in front of a place. -/
def NotesBefore (n : Nat) (p : Parser α) (s : Text) : Prop :=
  ∀ d, .raised d ∈ (p s).notes → n < d.left

section Before

variable {p q : Parser α} {n : Nat} {s : Text}

theorem NotesBefore.fail : NotesBefore n (fail : Parser α) s :=
  fun _ mem => absurd mem List.not_mem_nil

theorem NotesBefore.orElse (h : NotesBefore n p s) (k : NotesBefore n q s) :
    NotesBefore n (p.orElse q) s :=
  NotesAt.orElse h k

theorem NotesBefore.choice {ps : List (Parser α)} (h : ∀ p ∈ ps, NotesBefore n p s) :
    NotesBefore n (choice ps) s := by
  induction ps with
  | nil => exact NotesBefore.fail
  | cons p ps ih =>
    exact .orElse (h p List.mem_cons_self) (ih fun q mem => h q (List.mem_cons_of_mem p mem))

theorem NotesBefore.bind {f : α → Parser β} (first : NotesBefore n p s)
    (second : ∀ a r, Yields p s a r → NotesBefore n (f a) r) : NotesBefore n (p >>= f) s :=
  NotesAt.bind first second

theorem NotesBefore.pure (a : α) : NotesBefore n (Pure.pure a : Parser α) s :=
  fun _ mem => absurd mem List.not_mem_nil

theorem NotesBefore.optional (h : NotesBefore n p s) : NotesBefore n (Parser.optional p) s :=
  .orElse (h.bind fun a _ _ => .pure (some a)) (.pure none)

theorem NotesBefore.check {g : α → Except Fault β} (h : NotesBefore n p s) (ahead : n < s.length) :
    NotesBefore n (check p g) s :=
  NotesAt.check h ahead

theorem literal_cons_same (c : Char) (x s : Text) : literal (c :: x) (c :: s) = literal x s := by
  simp [literal]

theorem literal_cons_other {c d : Char} (differs : d ≠ c) (x s : Text) :
    literal (c :: x) (d :: s) =
      ⟨none, [.raised ⟨(d :: s).length, .unexpected [.character c] (some d)⟩]⟩ := by
  simp [literal, differs]

/-- A spelling goes astray before it comes to a character that it does not have. -/
theorem notesBefore_literal {x o w : Text} {c : Char} (other : c ∉ x)
    (ahead : n < (c :: w).length) : NotesBefore n (literal x) (o ++ c :: w) := by
  induction x generalizing o with
  | nil => exact fun _ mem => absurd mem List.not_mem_nil
  | cons y x ih =>
    have differs : c ≠ y := List.ne_of_not_mem_cons other
    have rest : c ∉ x := List.not_mem_of_not_mem_cons other
    intro d mem
    cases o with
    | nil =>
      rw [List.nil_append, literal_cons_other differs, List.mem_singleton] at mem
      cases mem
      exact ahead
    | cons z o =>
      by_cases same : z = y
      · subst same
        rw [List.cons_append, literal_cons_same] at mem
        exact ih rest d mem
      · rw [List.cons_append, literal_cons_other same, List.mem_singleton] at mem
        cases mem
        simp only [List.length_cons, List.length_append] at ahead ⊢
        omega

theorem notesBefore_oneOfTexts {beginnings : List (Text × α)} {o w : Text} {c : Char}
    (other : ∀ b ∈ beginnings, c ∉ b.1) (ahead : n < (c :: w).length) :
    NotesBefore n (oneOfTexts beginnings) (o ++ c :: w) := by
  refine .choice fun p mem => ?_
  obtain ⟨b, listed, rfl⟩ := List.mem_map.1 mem
  exact (notesBefore_literal (other b listed) ahead).bind fun _ _ _ => .pure b.2

end Before

/-! ## What a number leaves pending -/

/-- The parser has nothing to say about what lies at a place and behind it, unless it reads up to
there and ends with a number. -/
structure EndsAt (n : Nat) (p : Parser α) (s : Text) : Prop where
  failing : Rejects p s → NotesBefore n p s
  reading : ∀ {a r}, Yields p s a r →
    ∀ {x}, Before n x → AtNumberEnd n (Note.standing x (p s).notes)

section EndsAt

variable {p q : Parser α} {n : Nat} {s : Text}

theorem EndsAt.fail : EndsAt n (fail : Parser α) s where
  failing _ := .fail
  reading read := absurd read not_yields_fail

theorem EndsAt.orElse (h : EndsAt n p s) (k : EndsAt n q s) : EndsAt n (p.orElse q) s := by
  obtain rejected | ⟨a, r, read⟩ := rejects_or_yields p s
  · have trail : (p.orElse q s).notes = (p s).notes ++ (q s).notes :=
      notes_orElse_of_rejects rejected
    constructor
    · intro refused
      exact .orElse (h.failing rejected) (k.failing (rejects_orElse.1 refused).2)
    · intro b t read x before
      obtain first | ⟨-, later⟩ := yields_orElse.1 read
      · exact absurd rejected (not_rejects first)
      · rw [trail, Note.standing_append]
        exact k.reading later (before.standing (h.failing rejected))
  · constructor
    · intro refused
      exact absurd refused (not_rejects (yields_orElse.2 (.inl read)))
    · intro b t _ x before
      rw [notes_orElse_of_yields read]
      exact h.reading read before

theorem EndsAt.choice {ps : List (Parser α)} (h : ∀ p ∈ ps, EndsAt n p s) :
    EndsAt n (choice ps) s := by
  induction ps with
  | nil => exact EndsAt.fail
  | cons p ps ih =>
    exact .orElse (h p List.mem_cons_self) (ih fun q mem => h q (List.mem_cons_of_mem p mem))

/-- Behind something that is noted ahead of the place, all depends on what follows it. -/
theorem EndsAt.bind {f : α → Parser β} (first : NotesBefore n p s)
    (second : ∀ a t, Yields p s a t → EndsAt n (f a) t) : EndsAt n (p >>= f) s := by
  obtain rejected | ⟨a, t, read⟩ := rejects_or_yields p s
  · constructor
    · intro _ d mem
      rw [notes_bind_of_rejects rejected] at mem
      exact first d mem
    · intro b r all
      exact absurd (rejects_bind rejected) (not_rejects all)
  · have trail : ((p >>= f) s).notes = (p s).notes ++ (f a t).notes := notes_bind_of_yields read
    constructor
    · intro refused d mem
      have later : Rejects (f a) t := rejects_of_rejects_bind read refused
      rw [trail] at mem
      exact (List.mem_append.1 mem).elim (first d) ((second a t read).failing later d)
    · intro b r all x before
      obtain ⟨a', t', again, rest⟩ := yields_bind.1 all
      obtain ⟨rfl, rfl⟩ := read.unique again
      rw [trail, Note.standing_append]
      exact (second a t read).reading rest (before.standing first)

theorem EndsAt.map {f : α → β} (h : EndsAt n p s) : EndsAt n (do let a ← p; pure (f a)) s where
  failing refused := by
    refine (h.failing (rejects_iff.2 fun a r read => ?_)).bind fun a _ _ => .pure (f a)
    exact not_rejects (yields_map.2 ⟨a, read, rfl⟩) refused
  reading read := by
    obtain ⟨a, first, -⟩ := yields_map.1 read
    rw [notes_bind_of_yields first, notes_pure, List.append_nil]
    exact h.reading first

end EndsAt

/-! ## Numbers -/

theorem notes_natural_of_leading {c : Char} (leading : isLeadingDigit c = true) (s : Text) :
    (natural (c :: s)).notes = [.cleared] := by
  simp [natural, Parser.orElse, Bind.bind, Parser.bind, positiveDigits, leading, Pure.pure,
    Parser.pure]

theorem notes_natural_zero (s : Text) :
    (natural ('0' :: s)).notes = [.raised ⟨s.length + 1, .unexpected [] (some '0')⟩] := rfl

/-- A natural number is missed where it should begin. -/
theorem notesBefore_natural {n : Nat} {s : Text} (ahead : n < s.length) :
    NotesBefore n natural s := by
  have digits : NotesBefore n positiveDigits s := by
    intro d mem
    cases s with
    | nil => exact absurd ahead (Nat.not_lt_zero n)
    | cons c s =>
      by_cases leading : isLeadingDigit c = true
      · simp [positiveDigits, leading] at mem
      · simp only [positiveDigits, leading, if_false, Bool.false_eq_true, List.mem_singleton,
          Note.raised.injEq] at mem
        exact mem ▸ ahead
  have zero : NotesBefore n (literal ['0']) s := by
    intro d mem
    cases s with
    | nil => exact absurd ahead (Nat.not_lt_zero n)
    | cons c s =>
      by_cases same : c = '0'
      · subst same
        rw [literal_cons_same] at mem
        cases mem
      · rw [literal_cons_other same, List.mem_singleton] at mem
        cases mem
        exact ahead
  exact .orElse (digits.bind fun _ _ _ => .pure _) (zero.bind fun _ _ _ => .pure _)

/-- A sign is missed behind what stands in its place. -/
theorem oneOf_of_not_mem {cs : List Char} {c : Char} (other : c ∉ cs) (s : Text) :
    oneOf cs (c :: s) =
      ⟨none, [.raised ⟨s.length, .unexpected (cs.map .character) (some c)⟩]⟩ := by
  simp [oneOf, other]

theorem notes_sign_of_not_mem {c : Char} (other : c ∉ ['+', '-']) (s : Text) :
    (Parser.optional (oneOf ['+', '-']) (c :: s)).notes =
      [.raised ⟨s.length, .unexpected (['+', '-'].map .character) (some c)⟩] := by
  have attempt := oneOf_of_not_mem other s
  have rejected : Rejects (oneOf ['+', '-']) (c :: s) := by rw [Rejects, attempt]
  rw [Parser.optional, notes_orElse_of_rejects (rejects_bind rejected),
    notes_bind_of_rejects rejected, attempt, notes_pure, List.append_nil]

theorem notes_sign_of_mem {c : Char} (sign : c ∈ ['+', '-']) (s : Text) :
    (Parser.optional (oneOf ['+', '-']) (c :: s)).notes = [] := by
  have read : Yields (oneOf ['+', '-']) (c :: s) c s := yields_oneOf.2 ⟨sign, rfl⟩
  have all : Yields (do let a ← oneOf ['+', '-']; pure (some a)) (c :: s) (some c) s :=
    yields_map.2 ⟨c, read, rfl⟩
  rw [Parser.optional, notes_orElse_of_yields all, notes_bind_of_yields read, notes_pure]
  simp [oneOf, sign]

theorem not_mem_signs_of_isDigit {c : Char} (digit : c.isDigit = true) : c ∉ ['+', '-'] := by
  intro mem
  simp only [List.mem_cons, List.not_mem_nil, or_false] at mem
  obtain rfl | rfl := mem <;> exact absurd digit (by decide)

/-- The notes of what is read of a number are those of its sign and those of its digits. -/
theorem notes_numberParts {s t r : Text} {sign : Option Char} {m : Nat}
    (first : Yields (Parser.optional (oneOf ['+', '-'])) s sign t) (second : Yields natural t m r) :
    (numberParts s).notes =
      (Parser.optional (oneOf ['+', '-']) s).notes ++ (natural t).notes := by
  rw [numberParts, notes_bind_of_yields first, notes_bind_of_yields second, notes_pure,
    List.append_nil]

theorem notes_number {s t r : Text} {sign : Option Char} {m : Nat} {v : Number}
    (first : Yields (Parser.optional (oneOf ['+', '-'])) s sign t) (second : Yields natural t m r)
    (fits : signed sign m = .ok v) :
    (number s).notes =
      (Parser.optional (oneOf ['+', '-']) s).notes ++ (natural t).notes := by
  have both : Yields numberParts s (sign, m) r := yields_numberParts.2 ⟨t, first, second⟩
  rw [number_eq, notes_check_of_ok both fits, notes_numberParts first second]

/-- Where a number is missing, that is noted right there. -/
theorem notesBefore_number_of_other {n : Nat} {c : Char} {s : Text}
    (other : isSignOrDigit c = false) (ahead : n < s.length) : NotesBefore n number (c :: s) := by
  have unsigned : c ∉ ['+', '-'] := by
    simp only [isSignOrDigit, Bool.or_eq_false_iff, decide_eq_false_iff_not] at other
    simp [other.1]
  have whole : n < (c :: s).length := Nat.lt_succ_of_lt ahead
  have attempt := oneOf_of_not_mem unsigned s
  have sign : NotesBefore n (oneOf ['+', '-']) (c :: s) := by
    intro d mem
    rw [attempt, List.mem_singleton] at mem
    cases mem
    exact ahead
  have rejected : Rejects (oneOf ['+', '-']) (c :: s) := by rw [Rejects, attempt]
  refine .check (sign.optional.bind fun o t read => ?_) whole
  obtain ⟨a, -, taken⟩ | ⟨-, -, rfl⟩ := yields_optional.1 read
  · exact absurd rejected (not_rejects taken)
  · exact (notesBefore_natural whole).bind fun _ _ _ => .pure _

/-- Behind a sign, a number leaves nothing pending that stands where it ends. -/
theorem before_standing_signed {c : Char} {t r : Text} {m : Nat} {v : Number}
    {x : Option Diagnostic} (sign : c ∈ ['+', '-']) (digits : Unsigned t m)
    (fits : signed (some c) m = .ok v) (stop : Ahead notDigit r) (before : Before r.length x) :
    Before r.length (Note.standing x (number (c :: t ++ r)).notes) := by
  have first : Yields (Parser.optional (oneOf ['+', '-'])) (c :: t ++ r) (some c) (t ++ r) :=
    yields_optional.2 (.inl ⟨c, rfl, yields_oneOf.2 ⟨sign, rfl⟩⟩)
  have written : 0 < t.length := List.length_pos_iff.2 digits.written
  have ahead : r.length < (t ++ r).length := by
    rw [List.length_append]
    omega
  rw [notes_number first (reads_natural digits stop) fits, List.cons_append,
    notes_sign_of_mem sign, List.nil_append]
  exact before.standing (notesBefore_natural ahead)

/-- Without one, a bare zero leaves the sign that it could have had. -/
theorem atNumberEnd_standing_plain {t r : Text} {m : Nat} {v : Number} {x : Option Diagnostic}
    (digits : Unsigned t m) (fits : signed none m = .ok v) (stop : Ahead notDigit r)
    (before : Before r.length x) :
    AtNumberEnd r.length (Note.standing x (number (t ++ r)).notes) := by
  obtain ⟨c, w, rfl, digit⟩ := digits.exists_cons
  have unsigned : c ∉ ['+', '-'] := not_mem_signs_of_isDigit digit
  have signless : ∀ d ∈ (none : Option Char), d = '+' ∨ d = '-' := by simp
  have first : Yields (Parser.optional (oneOf ['+', '-'])) (c :: w ++ r) none (c :: w ++ r) :=
    yields_sign signless (numeral_of_unsigned digits stop)
  rw [notes_number first (reads_natural digits stop) fits, List.cons_append,
    notes_sign_of_not_mem unsigned, Note.standing_append]
  by_cases zero : c = '0'
  · subst zero
    obtain rfl : w = [] := by simpa using digits.leading rfl
    right
    have missed : Note.after x (.raised (missedSign r.length)) = some (missedSign r.length) :=
      after_raised_of_before before
    rw [List.nil_append, notes_natural_zero, Note.standing_cons, Note.standing_nil]
    exact (congrArg (Note.after · _) missed).trans (after_raised_of_lt (Nat.lt_succ_self _))
  · left
    rw [notes_natural_of_leading (isLeadingDigit_iff.2 ⟨digit, zero⟩)]
    exact before_none

/-- A number is missed where it should stand. Once one has been read, nothing is pending that stands
where it ends or behind it, except the sign of a bare zero. -/
theorem endsAt_number {o u r : Text} {v : Number} (letters : ∀ c ∈ o, isSignOrDigit c = false)
    (form : Signed u v) (stop : Ahead notDigit r) : EndsAt r.length number (o ++ (u ++ r)) := by
  cases o with
  | nil =>
    rw [List.nil_append]
    constructor
    · intro refused
      exact absurd refused (not_rejects (reads_number form stop))
    · intro a s _ x before
      cases form with
      | plain digits value =>
        have fits : signed none _ = .ok v := signed_eq_ok_iff.2 (by simpa using value)
        exact atNumberEnd_standing_plain digits fits stop before
      | plus digits value =>
        have fits : signed (some '+') _ = .ok v := signed_eq_ok_iff.2 (by simpa using value)
        exact .inl (before_standing_signed (by decide) digits fits stop before)
      | minus digits value =>
        have fits : signed (some '-') _ = .ok v := signed_eq_ok_iff.2 (by simpa using value)
        exact .inl (before_standing_signed (by decide) digits fits stop before)
  | cons c o =>
    have other : isSignOrDigit c = false := letters c List.mem_cons_self
    rw [List.cons_append]
    constructor
    · intro _
      refine notesBefore_number_of_other other ?_
      obtain ⟨d, w, rfl, -⟩ := form.exists_cons
      simp only [List.length_append, List.length_cons]
      omega
    · intro a s read
      obtain ⟨d, w, same, sort⟩ := begins_number read
      obtain ⟨rfl, -⟩ := List.cons.inj same
      rw [other] at sort
      cases sort

/-! ## Modifiers -/

/-- One of several spellings is read where it stands. -/
theorem sound_oneOfTexts {beginnings : List (Text × α)} {s r : Text} {a : α}
    (read : Yields (oneOfTexts beginnings) s a r) : ∃ b ∈ beginnings, b.2 = a ∧ s = b.1 ++ r := by
  induction beginnings with
  | nil => exact absurd read not_yields_choice_nil
  | cons b beginnings ih =>
    obtain first | ⟨-, later⟩ := yields_choice_cons.1 read
    · exact ⟨b, List.mem_cons_self, yields_literal_map.1 first⟩
    · obtain ⟨d, mem, same⟩ := ih later
      exact ⟨d, List.mem_cons_of_mem b mem, same⟩

/-- What does not have a character in it stands in front of that character. -/
theorem exists_append_of_not_mem {b t o w : Text} {c : Char} (other : c ∉ b)
    (same : o ++ c :: w = b ++ t) : ∃ z, o = b ++ z ∧ t = z ++ c :: w := by
  obtain ⟨z, rfl, rest⟩ | ⟨z, rfl, rest⟩ := List.append_eq_append_iff.1 same
  · cases z with
    | nil => exact ⟨[], by simp, by simpa using rest.symm⟩
    | cons d z =>
      obtain ⟨rfl, -⟩ := List.cons.inj rest
      exact absurd (List.mem_append_right o List.mem_cons_self) other
  · exact ⟨z, rfl, rest⟩

/-- Whether no sign and no digit stands in any of the spellings. -/
def lettered (beginnings : List (Text × α)) : Bool :=
  beginnings.all fun b => b.1.all fun c => !isSignOrDigit c

theorem isSignOrDigit_of_lettered {beginnings : List (Text × α)} {b : Text × α} {c : Char}
    (h : lettered beginnings = true) (listed : b ∈ beginnings) (mem : c ∈ b.1) :
    isSignOrDigit c = false := by
  have other := List.all_eq_true.1 (List.all_eq_true.1 h b listed) c mem
  simpa using other

/-- What a modifier is made of: a beginning, and a number behind it. -/
theorem endsAt_beginning {beginnings : List (Text × α)} {f : α → Number → β} {o u r : Text}
    {v : Number} (plain : lettered beginnings = true) (letters : ∀ c ∈ o, isSignOrDigit c = false)
    (form : Signed u v) (stop : Ahead notDigit r) :
    EndsAt r.length (do let a ← oneOfTexts beginnings; let n ← number; pure (f a n))
      (o ++ (u ++ r)) := by
  obtain ⟨c, w, rfl, sort⟩ := form.exists_cons
  have other : ∀ b ∈ beginnings, c ∉ b.1 := by
    intro b listed mem
    rw [isSignOrDigit_of_lettered plain listed mem] at sort
    cases sort
  have ahead : r.length < (c :: (w ++ r)).length := by
    simp only [List.length_cons, List.length_append]
    omega
  refine .bind (notesBefore_oneOfTexts other ahead) fun a t read => ?_
  obtain ⟨b, listed, -, same⟩ := sound_oneOfTexts read
  obtain ⟨z, rfl, rfl⟩ := exists_append_of_not_mem (other b listed) same
  exact (endsAt_number (fun d mem => letters d (List.mem_append_right b.1 mem)) form stop).map

theorem endsAt_modifier {o u r : Text} {v : Number} (letters : ∀ c ∈ o, isSignOrDigit c = false)
    (form : Signed u v) (stop : Ahead notDigit r) : EndsAt r.length modifier (o ++ (u ++ r)) := by
  refine .choice fun p mem => ?_
  simp only [List.mem_cons, List.not_mem_nil, or_false] at mem
  obtain rfl | rfl | rfl | rfl := mem
  · exact (endsAt_beginning rfl letters form stop).map
  · exact (endsAt_beginning rfl letters form stop).map
  · exact (endsAt_beginning rfl letters form stop).map
  · exact (endsAt_beginning rfl letters form stop).map

/-- What is pending behind a modifier. -/
theorem atNumberEnd_standing_modifier {t r : Text} {m : Modifier} {x : Option Diagnostic}
    (form : ModifierForm t m) (stop : Ahead notDigit r) (before : Before r.length x) :
    AtNumberEnd r.length (Note.standing x (modifier (t ++ r)).notes) := by
  have read : Yields modifier (t ++ r) m r := reads_modifier form stop
  obtain ⟨b, f, u, n, listed, number, rfl, -⟩ := form
  have letters : ∀ c ∈ b, isSignOrDigit c = false := fun c mem =>
    isSignOrDigit_of_lettered (show lettered beginnings = true from rfl) listed mem
  rw [List.append_assoc] at read ⊢
  exact (endsAt_modifier letters number stop).reading read before

end Parser
end TabletopDice
