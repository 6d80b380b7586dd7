import TabletopDice.Parser.Diagnostic
import TabletopDice.Text.Blank

/-!
# Parsers

A parser takes a text and answers with a value and the rest of the text, or with nothing; either
way it hands over the notes that it made (`TabletopDice.Parser.Diagnostic`). The notes are written
and never read, so what a parser reads is a function of the text alone, and `Parser.Yields` can
speak about it without mentioning them: `Yields p s a r` is "`p` reads `a` from the front of `s` and
leaves `r`".

The combinators commit to the first thing that works. `orElse` asks its second parser only where
the first one read nothing, from the same place; `many` goes on for as long as it can and stands
where the last success left it. For each of them one lemma about `Yields` states exactly that, and
a proof about a grammar needs no other fact about them.

## Whose rules these are

The program puts its parsers together from the combinators of the library `chumsky`, and this file
stands for those that it uses: one parser after another (`bind`), a choice of several in their order
(`orElse`, `choice`), a parser that may be left out (`optional`), one that is repeated (`many`), a
check of what was read (`check`), a given text (`literal`), one of several characters (`oneOf`),
white space (`blank`) and the end of the text (`endOfText`). The library's reader of digits is in
`TabletopDice.Parser.Number`.

Of each of them three rules are taken over: what it reads, where it stands afterwards, and which
diagnostic it raises at which place. The places are the library's to the letter, also where two
combinators differ: a given text notes a character that is not the right one where it stands, a
choice of characters behind it, and a check at the beginning of what it refused. What the library
offers besides, such as recovery from errors and reports drawn into the text, the program's readers
do without.
-/

set_option autoImplicit false

namespace TabletopDice

/-- What became of an attempt to read. -/
structure Reading (α : Type) where
  /-- The value and the rest of the text, if the attempt succeeded. -/
  result? : Option (α × Text)
  /-- What was noted on the way, oldest first. -/
  notes : List Note

/-- A way to read a value off the front of a text. -/
def Parser (α : Type) : Type := Text → Reading α

namespace Parser

variable {α β : Type}

/-- The parser reads a value off the front of a text and leaves the rest. -/
def Yields (p : Parser α) (s : Text) (a : α) (r : Text) : Prop := (p s).result? = some (a, r)

/-- The parser reads nothing off the front of a text. -/
def Rejects (p : Parser α) (s : Text) : Prop := (p s).result? = none

/-- Reads nothing and answers with a value. -/
protected def pure (a : α) : Parser α := fun s => ⟨some (a, s), []⟩

/-- Reads on with a parser that may depend on what was read first. -/
protected def bind (p : Parser α) (f : α → Parser β) : Parser β := fun s =>
  match p s with
  | ⟨none, notes⟩ => ⟨none, notes⟩
  | ⟨some (a, r), notes⟩ => let next := f a r; ⟨next.result?, notes ++ next.notes⟩

instance : Monad Parser where
  pure := Parser.pure
  bind := Parser.bind

/-- Fails, and has nothing to say about it. -/
def fail : Parser α := fun _ => ⟨none, []⟩

/-- Reads with the first parser, or where that fails with the second one, from the same place. -/
protected def orElse (p q : Parser α) : Parser α := fun s =>
  match p s with
  | ⟨none, notes⟩ => let next := q s; ⟨next.result?, notes ++ next.notes⟩
  | ⟨some done, notes⟩ => ⟨some done, notes⟩

/-- Reads with the first of several parsers that succeeds. -/
def choice (ps : List (Parser α)) : Parser α := ps.foldr Parser.orElse fail

/-- Reads with a parser if it succeeds, and else nothing. -/
def optional (p : Parser α) : Parser (Option α) :=
  Parser.orElse (do let a ← p; pure (some a)) (pure none)

/-- Reads with a parser over and over, until it fails or has read nothing. -/
def many (p : Parser α) : Parser (List α) := fun s =>
  match p s with
  | ⟨none, notes⟩ => ⟨some ([], s), notes⟩
  | ⟨some (a, r), notes⟩ =>
    if r.length < s.length then
      let next := many p r
      ⟨next.result?.map fun (as, t) => (a :: as, t), notes ++ next.notes⟩
    else ⟨some ([], s), notes⟩
termination_by s => s.length

/-- Reads with a parser, and refuses what it read where a check finds fault with it. The fault is
noted at the place where reading began. -/
def check (p : Parser α) (f : α → Except Fault β) : Parser β := fun s =>
  match p s with
  | ⟨none, notes⟩ => ⟨none, notes⟩
  | ⟨some (a, r), notes⟩ =>
    match f a with
    | .ok b => ⟨some (b, r), notes⟩
    | .error e => ⟨none, notes ++ [.raised ⟨s.length, .fault e⟩]⟩

/-! ## Single characters -/

/-- Reads a given text. A character that differs is noted where it stands. -/
def literal : Text → Parser Unit
  | [] => pure ()
  | x :: xs => fun s =>
    match s with
    | [] => ⟨none, [.raised ⟨0, .unexpected [.character x] none⟩]⟩
    | c :: r =>
      if c = x then literal xs r
      else ⟨none, [.raised ⟨s.length, .unexpected [.character x] (some c)⟩]⟩

/-- Reads one of several characters. A character that is none of them is noted behind it, not where
it stands. -/
def oneOf (cs : List Char) : Parser Char := fun s =>
  match s with
  | [] => ⟨none, [.raised ⟨0, .unexpected (cs.map .character) none⟩]⟩
  | c :: r =>
    if c ∈ cs then ⟨some (c, r), []⟩
    else ⟨none, [.raised ⟨r.length, .unexpected (cs.map .character) (some c)⟩]⟩

/-- Reads all blanks there are, which may be none. -/
def blank : Parser Unit := fun s => ⟨some ((), Text.skipBlank s), []⟩

/-- Reads nothing, where nothing is left. -/
def endOfText : Parser Unit := fun s =>
  match s with
  | [] => ⟨some ((), []), []⟩
  | c :: _ => ⟨none, [.raised ⟨s.length, .unexpected [.endOfText] (some c)⟩]⟩

/-! ## Running a parser -/

/-- Reads a value off the front of a text. -/
def front (p : Parser α) (s : Text) : Except Refusal (α × Text) :=
  match p s with
  | ⟨some done, _⟩ => .ok done
  | ⟨none, notes⟩ => .error ⟨Note.pending notes⟩

/-- Reads a value that nothing follows. -/
def ended (p : Parser α) : Parser α := do
  let a ← p
  endOfText
  pure a

/-- Reads a value that takes up a whole text. -/
def whole (p : Parser α) (s : Text) : Except Refusal α := (front (ended p) s).map Prod.fst

/-! ## What each combinator reads -/

theorem rejects_or_yields (p : Parser α) (s : Text) : Rejects p s ∨ ∃ a r, Yields p s a r := by
  unfold Rejects Yields
  cases (p s).result? with
  | none => exact .inl rfl
  | some done => exact .inr ⟨done.1, done.2, rfl⟩

/-- A parser reads at most one thing off the front of a text. -/
theorem Yields.unique {p : Parser α} {s r t : Text} {a b : α} (h : Yields p s a r)
    (k : Yields p s b t) : a = b ∧ r = t := by
  simpa using Option.some.inj (h.symm.trans k)

theorem not_rejects {p : Parser α} {s r : Text} {a : α} (h : Yields p s a r) : ¬ Rejects p s := by
  intro k
  cases h.symm.trans k

@[simp] theorem yields_pure {a b : α} {s r : Text} :
    Yields (pure a) s b r ↔ a = b ∧ s = r := by
  show some (a, s) = some (b, r) ↔ _
  simp

theorem yields_bind {p : Parser α} {f : α → Parser β} {s r : Text} {b : β} :
    Yields (p >>= f) s b r ↔ ∃ a t, Yields p s a t ∧ Yields (f a) t b r := by
  show (Parser.bind p f s).result? = _ ↔ _
  simp only [Parser.bind, Yields]
  rcases p s with ⟨_ | ⟨a, t⟩, notes⟩
  · simp
  · simp only [Option.some.injEq, Prod.mk.injEq]
    exact ⟨fun h => ⟨a, t, ⟨rfl, rfl⟩, h⟩, by rintro ⟨_, _, ⟨rfl, rfl⟩, h⟩; exact h⟩

@[simp] theorem not_yields_fail {s r : Text} {a : α} : ¬ Yields fail s a r := by
  simp [Yields, fail]

theorem yields_orElse {p q : Parser α} {s r : Text} {a : α} :
    Yields (p.orElse q) s a r ↔ Yields p s a r ∨ (Rejects p s ∧ Yields q s a r) := by
  simp only [Parser.orElse, Yields, Rejects]
  rcases p s with ⟨_ | done, notes⟩ <;> simp

theorem yields_choice_cons {p : Parser α} {ps : List (Parser α)} {s r : Text} {a : α} :
    Yields (choice (p :: ps)) s a r ↔
      Yields p s a r ∨ (Rejects p s ∧ Yields (choice ps) s a r) :=
  yields_orElse

@[simp] theorem not_yields_choice_nil {s r : Text} {a : α} :
    ¬ Yields (choice ([] : List (Parser α))) s a r := not_yields_fail

theorem yields_optional {p : Parser α} {s r : Text} {o : Option α} :
    Yields (optional p) s o r ↔
      (∃ a, o = some a ∧ Yields p s a r) ∨ (Rejects p s ∧ o = none ∧ s = r) := by
  rw [optional, yields_orElse, yields_bind]
  have rejects : Rejects (do let a ← p; pure (some a)) s ↔ Rejects p s := by
    show (Parser.bind p _ s).result? = none ↔ _
    simp only [Parser.bind, Rejects]
    rcases p s with ⟨_ | ⟨a, t⟩, notes⟩
    · simp
    · simp [pure, Parser.pure]
  rw [rejects]
  simp only [yields_pure]
  constructor
  · rintro (⟨a, t, h, rfl, rfl⟩ | ⟨h, rfl, rfl⟩)
    · exact .inl ⟨a, rfl, h⟩
    · exact .inr ⟨h, rfl, rfl⟩
  · rintro (⟨a, rfl, h⟩ | ⟨h, rfl, rfl⟩)
    · exact .inl ⟨a, r, h, rfl, rfl⟩
    · exact .inr ⟨h, rfl, rfl⟩

theorem yields_check {p : Parser α} {f : α → Except Fault β} {s r : Text} {b : β} :
    Yields (check p f) s b r ↔ ∃ a, Yields p s a r ∧ f a = .ok b := by
  simp only [check, Yields]
  rcases p s with ⟨_ | ⟨a, t⟩, notes⟩
  · simp
  · cases checked : f a with
    | ok c => simp; grind
    | error e => simp; grind

@[simp] theorem yields_literal {x s r : Text} {u : Unit} :
    Yields (literal x) s u r ↔ s = x ++ r := by
  induction x generalizing s with
  | nil => rw [literal, yields_pure]; simp
  | cons c x ih =>
    cases s with
    | nil => simp [literal, Yields]
    | cons d s =>
      by_cases same : d = c
      · subst same
        simpa [literal, Yields] using ih (s := s)
      · simp [literal, Yields, same]

@[simp] theorem yields_oneOf {cs : List Char} {s r : Text} {c : Char} :
    Yields (oneOf cs) s c r ↔ c ∈ cs ∧ s = c :: r := by
  cases s with
  | nil => simp [oneOf, Yields]
  | cons d s => by_cases mem : d ∈ cs <;> simp [oneOf, Yields, mem] <;> grind

@[simp] theorem yields_blank {s r : Text} {u : Unit} :
    Yields blank s u r ↔ Text.skipBlank s = r := by
  simp [blank, Yields]

@[simp] theorem yields_endOfText {s r : Text} {u : Unit} :
    Yields endOfText s u r ↔ s = [] ∧ r = [] := by
  cases s <;> simp [endOfText, Yields, eq_comm]

/-- A repetition stops where its parser reads nothing more. -/
theorem yields_many_nil {p : Parser α} {s : Text} (h : Rejects p s) : Yields (many p) s [] s := by
  unfold Yields
  unfold Rejects at h
  rw [many]
  rcases hp : p s with ⟨_ | done, notes⟩
  · simp
  · simp [hp] at h

/-- A repetition goes on where its parser has read something. -/
theorem yields_many_cons {p : Parser α} {s t r : Text} {a : α} {as : List α}
    (first : Yields p s a t) (shorter : t.length < s.length) (more : Yields (many p) t as r) :
    Yields (many p) s (a :: as) r := by
  unfold Yields at first more ⊢
  rw [many]
  rcases hp : p s with ⟨_ | ⟨b, u⟩, notes⟩
  · simp [hp] at first
  · obtain ⟨rfl, rfl⟩ : b = a ∧ u = t := by simpa [hp] using first
    simp [shorter, more]

/-- A repetition never fails. -/
theorem many_ne_none (p : Parser α) (s : Text) : ((many p) s).result? ≠ none := by
  fun_induction many p s with
  | case1 s notes h => simp
  | case2 s a r notes h shorter next ih => simpa using ih
  | case3 s a r notes h longer => simp

theorem yields_ended {p : Parser α} {s r : Text} {a : α} :
    Yields (ended p) s a r ↔ Yields p s a [] ∧ r = [] := by
  rw [ended, yields_bind]
  constructor
  · rintro ⟨b, t, read, tail⟩
    obtain ⟨u, v, fin, done⟩ := yields_bind.1 tail
    obtain ⟨rfl, rfl⟩ := yields_endOfText.1 fin
    obtain ⟨rfl, rfl⟩ := yields_pure.1 done
    exact ⟨read, rfl⟩
  · rintro ⟨read, rfl⟩
    exact ⟨a, [], read, yields_bind.2 ⟨(), [], by simp, by simp⟩⟩

theorem front_eq_ok_iff {p : Parser α} {s r : Text} {a : α} :
    front p s = .ok (a, r) ↔ Yields p s a r := by
  simp only [front, Yields]
  rcases p s with ⟨_ | done, notes⟩ <;> simp

/-- A whole text is read exactly where its front is read and nothing is left. -/
theorem whole_eq_ok_iff {p : Parser α} {s : Text} {a : α} :
    whole p s = .ok a ↔ Yields p s a [] := by
  have ends : Yields p s a [] ↔ front (ended p) s = .ok (a, []) := by
    simp [front_eq_ok_iff, yields_ended]
  rw [ends, whole]
  cases outcome : front (ended p) s with
  | error e => simp [Except.map]
  | ok done =>
    obtain ⟨b, r⟩ := done
    obtain ⟨-, rfl⟩ := yields_ended.1 (front_eq_ok_iff.1 outcome)
    simp [Except.map]

end Parser

end TabletopDice
