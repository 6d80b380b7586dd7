import TabletopDice.Parser.Dice

/-!
# What a reader reads, and what it leaves alone

`Parser.Yields` says what one attempt to read came to. A statement about a whole form of text needs
two things more, one for each direction:

* `Sound p R`: whatever `p` takes off the front of a text has the form `R`;
* `Reads p R q`: `p` takes every text of the form `R` off the front, if the text behind it is at its
  end or goes on with a character of the class `q`.

The class `q` is where commitment shows. A reader that takes as much as it can is right about a text
only if what stands behind it cannot be taken for more of the same.

The rest of this file is what the combinators refuse. Since a parser refuses exactly where it yields
nothing (`rejects_iff`), each refusal follows from the lemma on what is yielded.
-/

set_option autoImplicit false

namespace TabletopDice.Parser

variable {α β : Type}

/-- What the parser takes off the front of a text has a form. -/
def Sound (p : Parser α) (R : Text → α → Prop) : Prop :=
  ∀ ⦃s a r⦄, Yields p s a r → ∃ t, s = t ++ r ∧ R t a

/-- A text is at its end, or goes on with a character of a class. -/
def Ahead (q : Char → Bool) (r : Text) : Prop := ∀ c ∈ r.head?, q c = true

/-- The parser takes every text of a form off the front, where the right thing stands behind it. -/
def Reads (p : Parser α) (R : Text → α → Prop) (q : Char → Bool) : Prop :=
  ∀ ⦃t a r⦄, R t a → Ahead q r → Yields p (t ++ r) a r

/-! ## What stands ahead -/

theorem ahead_nil {q : Char → Bool} : Ahead q [] := by
  intro c h
  simp at h

@[simp] theorem ahead_cons {q : Char → Bool} {c : Char} {r : Text} :
    Ahead q (c :: r) ↔ q c = true := by
  simp [Ahead]

theorem Ahead.mono {q q' : Char → Bool} {r : Text} (h : Ahead q r)
    (wider : ∀ c, q c = true → q' c = true) : Ahead q' r :=
  fun c first => wider c (h c first)

/-- A text whose form does not begin outside a class, in front of one that does not either. -/
theorem Ahead.append {q : Char → Bool} {t r : Text} (h : Ahead q t) (k : Ahead q r) :
    Ahead q (t ++ r) := by
  cases t with
  | nil => exact k
  | cons c t => exact ahead_cons.2 (ahead_cons.1 h)

/-- Taking characters of a class stops in front of one outside it. -/
theorem dropWhile_append_of_ahead {q : Char → Bool} {t r : Text} (all : ∀ c ∈ t, q c = true)
    (stop : Ahead (fun c => !q c) r) : (t ++ r).dropWhile q = r := by
  rw [List.dropWhile_append_of_pos all]
  cases r with
  | nil => rfl
  | cons c r =>
    have outside : q c = false := by simpa using stop
    rw [List.dropWhile_cons_of_neg (by simp [outside])]

theorem takeWhile_append_of_ahead {q : Char → Bool} {t r : Text} (all : ∀ c ∈ t, q c = true)
    (stop : Ahead (fun c => !q c) r) : (t ++ r).takeWhile q = t := by
  rw [List.takeWhile_append_of_pos all]
  cases r with
  | nil => simp
  | cons c r =>
    have outside : q c = false := by simpa using stop
    rw [List.takeWhile_cons_of_neg (by simp [outside]), List.append_nil]

/-- A parser that takes nothing but texts of a form, and takes them all, reads a whole text exactly
where it has the form. -/
theorem whole_eq_ok_iff_form {p : Parser α} {R : Text → α → Prop} {q : Char → Bool}
    (sound : Sound p R) (reads : Reads p R q) {s : Text} {a : α} :
    whole p s = .ok a ↔ R s a := by
  rw [whole_eq_ok_iff]
  constructor
  · intro read
    obtain ⟨t, rfl, form⟩ := sound read
    rw [List.append_nil]
    exact form
  · intro form
    -- behind a whole text there is nothing that could be outside the class
    have read := reads form ahead_nil
    rwa [List.append_nil] at read

/-! ## What is refused -/

/-- A parser refuses a text exactly where it yields nothing from it. -/
theorem rejects_iff {p : Parser α} {s : Text} : Rejects p s ↔ ∀ a r, ¬ Yields p s a r := by
  constructor
  · intro h a r k
    exact not_rejects k h
  · intro h
    rcases rejects_or_yields p s with rejected | ⟨a, r, k⟩
    · exact rejected
    · exact absurd k (h a r)

theorem rejects_literal {x s : Text} : Rejects (literal x) s ↔ ¬ x <+: s := by
  rw [rejects_iff]
  constructor
  · rintro h ⟨r, rfl⟩
    exact h () r (yields_literal.2 rfl)
  · intro h u r k
    exact h ⟨r, (yields_literal.1 k).symm⟩

/-- What cannot begin cannot be read on from. -/
theorem rejects_bind {p : Parser α} {f : α → Parser β} {s : Text} (h : Rejects p s) :
    Rejects (p >>= f) s := by
  rw [rejects_iff] at h ⊢
  intro b r k
  obtain ⟨a, t, first, -⟩ := yields_bind.1 k
  exact h a t first

/-- Where something can be read, what refuses the whole refuses what is left behind it. -/
theorem rejects_of_rejects_bind {p : Parser α} {f : α → Parser β} {s t : Text} {a : α}
    (read : Yields p s a t) (refused : Rejects (p >>= f) s) : Rejects (f a) t :=
  rejects_iff.2 fun _ _ rest => not_rejects (yields_bind.2 ⟨a, t, read, rest⟩) refused

/-- Two parsers in turn refuse what both refuse. -/
theorem rejects_orElse {p q : Parser α} {s : Text} :
    Rejects (p.orElse q) s ↔ Rejects p s ∧ Rejects q s := by
  simp only [rejects_iff, yields_orElse, not_or]
  constructor
  · intro h
    have first : ∀ a r, ¬ Yields p s a r := fun a r => (h a r).1
    exact ⟨first, fun a r read => (h a r).2 ⟨first, read⟩⟩
  · rintro ⟨first, second⟩ a r
    exact ⟨first a r, fun later => second a r later.2⟩

/-! ## How a text begins -/

/-- Whatever the parser reads begins with a character of a class. -/
def Begins (p : Parser α) (q : Char → Bool) : Prop :=
  ∀ ⦃s a r⦄, Yields p s a r → ∃ c t, s = c :: t ∧ q c = true

theorem rejects_of_begins {p : Parser α} {q : Char → Bool} {s : Text} (h : Begins p q)
    (k : Ahead (fun c => !q c) s) : Rejects p s := by
  refine rejects_iff.2 fun a r read => ?_
  obtain ⟨c, t, rfl, inside⟩ := h read
  simp [inside] at k

theorem Begins.bind {p : Parser α} {f : α → Parser β} {q : Char → Bool} (h : Begins p q) :
    Begins (p >>= f) q := by
  intro s b r read
  obtain ⟨a, t, first, -⟩ := yields_bind.1 read
  exact h first

/-- A text that begins as the one parser demands is refused by another that demands otherwise. -/
theorem Begins.rejects {p : Parser α} {p' : Parser β} {q q' : Char → Bool} {s r : Text} {a : α}
    (h : Begins p q) (k : Begins p' q') (apart : ∀ c, q c = true → q' c = false)
    (read : Yields p s a r) : Rejects p' s := by
  obtain ⟨c, t, rfl, inside⟩ := h read
  exact rejects_of_begins k (ahead_cons.2 (by simp [apart c inside]))

/-! ## Choice without commitment -/

/-- Where whatever a later parser can read is refused by all before it, the order of a choice
makes no difference to what is read. -/
theorem yields_choice {ps : List (Parser α)} {s r : Text} {a : α}
    (order : ps.Pairwise fun p q => ∀ b, Yields q s b r → Rejects p s) :
    Yields (choice ps) s a r ↔ ∃ p ∈ ps, Yields p s a r := by
  induction ps with
  | nil => simp
  | cons p ps ih =>
    obtain ⟨ahead, order⟩ := List.pairwise_cons.1 order
    rw [yields_choice_cons, ih order]
    constructor
    · rintro (first | ⟨-, q, mem, later⟩)
      · exact ⟨p, List.mem_cons_self, first⟩
      · exact ⟨q, List.mem_cons_of_mem _ mem, later⟩
    · rintro ⟨q, mem, read⟩
      rcases List.mem_cons.1 mem with rfl | mem
      · exact .inl read
      · exact .inr ⟨ahead q mem a read, q, mem, read⟩

/-- What a parser reads and a function makes of it. -/
theorem yields_map {p : Parser α} {f : α → β} {s r : Text} {b : β} :
    Yields (do let a ← p; pure (f a)) s b r ↔ ∃ a, Yields p s a r ∧ f a = b := by
  rw [yields_bind]
  constructor
  · rintro ⟨a, t, read, done⟩
    obtain ⟨rfl, rfl⟩ := yields_pure.1 done
    exact ⟨a, read, rfl⟩
  · rintro ⟨a, read, rfl⟩
    exact ⟨a, r, read, yields_pure.2 ⟨rfl, rfl⟩⟩

theorem yields_literal_map {x s r : Text} {a b : α} :
    Yields (do literal x; pure a) s b r ↔ a = b ∧ s = x ++ r := by
  rw [yields_bind]
  constructor
  · rintro ⟨u, t, read, done⟩
    obtain ⟨rfl, rfl⟩ := yields_pure.1 done
    exact ⟨rfl, yields_literal.1 read⟩
  · rintro ⟨rfl, rfl⟩
    exact ⟨(), r, yields_literal.2 rfl, yields_pure.2 ⟨rfl, rfl⟩⟩

/-- One of several things is read by its spelling, where no spelling begins a text that is meant
for a later one. -/
theorem yields_oneOfTexts {ks : List α} {spell : α → Text} {s r : Text} {k : α}
    (order : ks.Pairwise fun j k => ¬ spell j <+: spell k ++ r) :
    Yields (oneOfTexts (ks.map fun k => (spell k, k))) s k r ↔ k ∈ ks ∧ s = spell k ++ r := by
  rw [oneOfTexts, List.map_map, yields_choice]
  · constructor
    · rintro ⟨p, mem, read⟩
      obtain ⟨j, listed, rfl⟩ := List.mem_map.1 mem
      obtain ⟨rfl, shape⟩ := yields_literal_map.1 read
      exact ⟨listed, shape⟩
    · rintro ⟨mem, shape⟩
      exact ⟨_, List.mem_map_of_mem mem, yields_literal_map.2 ⟨rfl, shape⟩⟩
  · refine List.pairwise_map.2 (order.imp fun {j k} apart b read => ?_)
    obtain ⟨-, rfl⟩ := yields_literal_map.1 read
    exact rejects_bind (rejects_literal.2 apart)

/-! ## Repetition -/

/-- The parser takes something each time it reads. -/
def Progresses (p : Parser α) : Prop := ∀ ⦃s a t⦄, Yields p s a t → t.length < s.length

/-- A repetition of a parser that takes something each time does nothing else but read until it
cannot. -/
theorem yields_many_iff {p : Parser α} (progress : Progresses p) {s r : Text} {as : List α} :
    Yields (many p) s as r ↔
      match as with
      | [] => s = r ∧ Rejects p s
      | a :: as => ∃ t, Yields p s a t ∧ Yields (many p) t as r := by
  -- one attempt decides whether there is a first result, and then the repetition has only one value
  rcases rejects_or_yields p s with rejected | ⟨a, t, read⟩
  · have nothing := yields_many_nil rejected
    cases as with
    | nil =>
      constructor
      · intro h
        exact ⟨(nothing.unique h).2, rejected⟩
      · rintro ⟨rfl, -⟩
        exact nothing
    | cons b bs =>
      constructor
      · intro h
        exact absurd (nothing.unique h).1 (by simp)
      · rintro ⟨u, first, -⟩
        exact absurd rejected (not_rejects first)
  · obtain ⟨⟨more, u⟩, further⟩ := Option.ne_none_iff_exists'.1 (many_ne_none p t)
    have all : Yields (many p) s (a :: more) u := yields_many_cons read (progress read) further
    cases as with
    | nil =>
      constructor
      · intro h
        exact absurd (all.unique h).1 (by simp)
      · rintro ⟨-, rejected⟩
        exact absurd rejected (not_rejects read)
    | cons b bs =>
      constructor
      · intro h
        obtain ⟨same, rfl⟩ := all.unique h
        obtain ⟨rfl, rfl⟩ := List.cons.inj same
        exact ⟨t, read, further⟩
      · rintro ⟨v, first, later⟩
        exact yields_many_cons first (progress first) later

end TabletopDice.Parser
