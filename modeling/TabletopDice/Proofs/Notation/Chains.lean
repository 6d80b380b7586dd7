import TabletopDice.Proofs.Notation.Grammar
import TabletopDice.Proofs.Notation.Reading
import TabletopDice.Parser.Expr

/-!
# Operands with operators between them

A reader of a sum or a product reads one operand and then goes on for as long as it finds an
operator with an operand behind it. `onward` is the second half of that by itself: it has an
expression already and makes a longer one of it. Its two laws, that it stops where no operator
follows and that it takes an operator and an operand along (`yields_onward_iff`), say what a
left-recursive rule of the grammar says, from the other end.
-/

set_option autoImplicit false

namespace TabletopDice.Parser

/-- Reads an operator and the operand behind it. -/
def operand (os : List Operator) (part : Parser Expr) : Parser (Operator × Expr) := do
  let o ← operator os
  let e ← part
  pure (o, e)

/-- Reads on behind an expression, as long as operators and operands follow. -/
def onward (os : List Operator) (part : Parser Expr) (e : Expr) : Parser Expr := do
  let more ← many (operand os part)
  pure (joined e more)

theorem joinedBy_eq (os : List Operator) (part : Parser Expr) :
    joinedBy os part = part >>= onward os part := rfl

/-! ## A single operator -/

theorem symbol_injective {o p : Operator} (h : o.symbol = p.symbol) : o = p := by
  cases o <;> cases p <;> first | rfl | exact absurd h (by decide)

theorem yields_operator {os : List Operator} (distinct : os.Nodup) {s r : Text} {o : Operator} :
    Yields (operator os) s o r ↔ o ∈ os ∧ s = o.symbol :: r := by
  rw [operator, yields_choice]
  · constructor
    · rintro ⟨p, mem, read⟩
      obtain ⟨p, listed, rfl⟩ := List.mem_map.1 mem
      obtain ⟨rfl, shape⟩ := yields_literal_map.1 read
      exact ⟨listed, shape⟩
    · rintro ⟨mem, shape⟩
      exact ⟨_, List.mem_map_of_mem mem, yields_literal_map.2 ⟨rfl, shape⟩⟩
  · refine List.pairwise_map.2 (distinct.imp fun {p q} apart b read => ?_)
    obtain ⟨-, rfl⟩ := yields_literal_map.1 read
    refine rejects_bind (rejects_literal.2 fun same => apart (symbol_injective ?_))
    simpa using same

section

variable {os : List Operator} {part : Parser Expr} (distinct : os.Nodup)

include distinct

theorem yields_operand {s r : Text} {o : Operator} {e : Expr} :
    Yields (operand os part) s (o, e) r ↔
      o ∈ os ∧ ∃ t, s = o.symbol :: t ∧ Yields part t e r := by
  rw [operand, yields_bind]
  constructor
  · rintro ⟨p, t, sign, behind⟩
    obtain ⟨f, read, same⟩ := yields_map.1 behind
    obtain ⟨rfl, rfl⟩ := Prod.mk.inj same
    obtain ⟨listed, shape⟩ := (yields_operator distinct).1 sign
    exact ⟨listed, t, shape, read⟩
  · rintro ⟨listed, t, shape, read⟩
    exact ⟨o, t, (yields_operator distinct).2 ⟨listed, shape⟩, yields_map.2 ⟨e, read, rfl⟩⟩

theorem begins_operand : Begins (operand os part) fun c => os.any fun o => o.symbol = c := by
  rintro s ⟨o, e⟩ r h
  obtain ⟨listed, t, rfl, -⟩ := (yields_operand distinct).1 h
  exact ⟨o.symbol, t, rfl, List.any_eq_true.2 ⟨o, listed, by simp⟩⟩

theorem progresses_operand (front : TakesFront part) : Progresses (operand os part) := by
  rintro s ⟨o, e⟩ r h
  obtain ⟨-, t, rfl, read⟩ := (yields_operand distinct).1 h
  have shorter : r.length ≤ t.length := (front read).length_le
  simp only [List.length_cons]
  omega

/-! ## The operands behind an expression -/

/-- What is read behind an expression is nothing where no operand follows, and else what is read
behind the expression joined with that operand. -/
theorem yields_onward_iff (front : TakesFront part) {s r : Text} {e x : Expr} :
    Yields (onward os part e) s x r ↔
      (e = x ∧ s = r ∧ Rejects (operand os part) s) ∨
        ∃ o ∈ os, ∃ t f u, s = o.symbol :: t ∧ Yields part t f u ∧
          Yields (onward os part (.join o e f)) u x r := by
  have progress := progresses_operand distinct front
  constructor
  · intro h
    obtain ⟨more, read, rfl⟩ := yields_map.1 h
    cases more with
    | nil =>
      obtain ⟨rfl, stop⟩ := (yields_many_iff progress).1 read
      exact .inl ⟨rfl, rfl, stop⟩
    | cons first more =>
      obtain ⟨o, f⟩ := first
      obtain ⟨u, first, later⟩ := (yields_many_iff progress).1 read
      obtain ⟨listed, t, shape, read⟩ := (yields_operand distinct).1 first
      exact .inr ⟨o, listed, t, f, u, shape, read, yields_map.2 ⟨more, later, rfl⟩⟩
  · rintro (⟨rfl, rfl, stop⟩ | ⟨o, listed, t, f, u, shape, read, later⟩)
    · exact yields_map.2 ⟨[], (yields_many_iff progress).2 ⟨rfl, stop⟩, rfl⟩
    · obtain ⟨more, rest, rfl⟩ := yields_map.1 later
      have first := (yields_operand distinct).2 ⟨listed, t, shape, read⟩
      exact yields_map.2 ⟨(o, f) :: more, (yields_many_iff progress).2 ⟨u, first, rest⟩, rfl⟩

/-- A form that a part has by itself, and that an operator and a part behind it keep, is the form of
all parts that are read one behind the other. -/
theorem sound_joinedBy {P R : Text → Expr → Prop} (front : TakesFront part) (h : Sound part P)
    (single : ∀ {t e}, P t e → R t e)
    (join : ∀ {o t u e f}, o ∈ os → R t e → P u f → R (t ++ o.symbol :: u) (.join o e f)) :
    Sound (joinedBy os part) R := by
  have progress := progresses_operand distinct front
  -- on the operands still to come, for every expression that stands in front of them
  have onwards : ∀ (more : List (Operator × Expr)) (t s r : Text) (e : Expr), R t e →
      Yields (many (operand os part)) s more r → ∃ u, s = u ++ r ∧ R (t ++ u) (joined e more) := by
    intro more
    induction more with
    | nil =>
      intro t s r e form read
      obtain ⟨rfl, -⟩ := (yields_many_iff progress).1 read
      exact ⟨[], rfl, by simpa [joined] using form⟩
    | cons first more ih =>
      intro t s r e form read
      obtain ⟨o, f⟩ := first
      obtain ⟨v, first, later⟩ := (yields_many_iff progress).1 read
      obtain ⟨listed, w, rfl, second⟩ := (yields_operand distinct).1 first
      obtain ⟨u, rfl, right⟩ := h second
      have longer : R (t ++ o.symbol :: u) (.join o e f) := join listed form right
      obtain ⟨x, rfl, all⟩ := ih _ v r _ longer later
      exact ⟨o.symbol :: u ++ x, by simp, by simpa [joined] using all⟩
  intro s x r read
  rw [joinedBy_eq] at read
  obtain ⟨e, v, first, later⟩ := yields_bind.1 read
  obtain ⟨more, rest, rfl⟩ := yields_map.1 later
  obtain ⟨t, rfl, form⟩ := h first
  obtain ⟨u, rfl, all⟩ := onwards more t v r e (single form) rest
  exact ⟨t ++ u, (List.append_assoc t u r).symm, all⟩

end

end TabletopDice.Parser
