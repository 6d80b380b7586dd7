import TabletopDice.Proofs.Notation.Chains
import TabletopDice.Proofs.Notation.Terms

/-!
# Expressions are read as they are written

The reader of expressions against the grammar, both ways.

**Nothing else is read.** One layer of the grammar at a time, from the atoms up, for the reader with
a bound on nesting; the bound is what the induction is on (`sound_nested`).

**Everything is read.** By induction on a derivation. What has to be said of each layer is what may
stand behind a text of it: behind an atom a blank, an operator or a closing parenthesis, and at each
layer up one of these less (`Layer.closes`). Of a sum or a product more has to be said, since the
reader takes a longer one in a single run: whatever could be read on from the expression can be read
from its text and what follows (`Readable`).

The choice that needs an argument is the one between a dice term and a number. A dice term is tried
first and may begin with a number, so a number is safe from it only because of what stands behind:
none of the characters that may is a `d` (`rejects_dice_of_number`).
-/

set_option autoImplicit false

namespace TabletopDice

/-- The characters that may stand behind a text of a layer. -/
def Notation.Layer.closes : Layer → Char → Bool
  | .atom, c => Text.isBlank c || c = '*' || c = '+' || c = '-' || c = ')'
  | .factor, c => c = '*' || c = '+' || c = '-' || c = ')'
  | .product, c => c = '+' || c = '-' || c = ')'
  | .sum, c => c = ')'

namespace Parser

open Notation

/-! ## What may stand behind a text -/

theorem isBlank_of_isDigit {c : Char} (h : c.isDigit = true) : Text.isBlank c = false := by
  simp only [Char.isDigit, Bool.and_eq_true, decide_eq_true_eq, ge_iff_le,
    UInt32.le_iff_toNat_le] at h
  have low : 48 ≤ c.toNat := h.1
  have high : c.toNat ≤ 57 := h.2
  simp only [Text.isBlank, Text.blankRanges, List.any_cons, List.any_nil, Bool.or_false,
    Bool.or_eq_false_iff, Bool.and_eq_false_iff, decide_eq_false_iff_not]
  omega

/-- None of what may stand behind an atom is part of one. -/
theorem closes_atom {c : Char} (h : Layer.closes .atom c = true) :
    notModifier c = true ∧ c ≠ 'd' := by
  simp only [Layer.closes, Bool.or_eq_true, decide_eq_true_eq] at h
  rcases h with (((blank | rfl) | rfl) | rfl) | rfl
  · have letter : ∀ d, Text.isBlank d = false → c ≠ d := by
      rintro d no rfl
      rw [no] at blank
      cases blank
    have digit : c.isDigit = false := by
      refine Bool.eq_false_iff.2 fun yes => ?_
      rw [isBlank_of_isDigit yes] at blank
      cases blank
    simp [notModifier, isModifierLetter, digit, letter 'k' (by decide), letter 'd' (by decide),
      letter 'r' (by decide), letter 'x' (by decide), letter 'c' (by decide)]
  all_goals decide

theorem closes_factor_atom {c : Char} (h : Layer.closes .factor c = true) :
    Layer.closes .atom c = true ∧ Text.isBlank c = false := by
  simp only [Layer.closes, Bool.or_eq_true, decide_eq_true_eq] at h
  rcases h with ((rfl | rfl) | rfl) | rfl <;> decide

theorem closes_product_factor {c : Char} (h : Layer.closes .product c = true) :
    Layer.closes .factor c = true ∧ c ≠ '*' := by
  simp only [Layer.closes, Bool.or_eq_true, decide_eq_true_eq] at h
  rcases h with (rfl | rfl) | rfl <;> decide

theorem closes_sum_product {c : Char} (h : Layer.closes .sum c = true) :
    Layer.closes .product c = true ∧ c ≠ '+' ∧ c ≠ '-' := by
  simp only [Layer.closes, decide_eq_true_eq] at h
  subst h
  decide

/-! ## Atoms -/

/-- An atom without the blanks around it. -/
def bare (inner : Parser Expr) : Parser Expr :=
  choice [group inner, do let d ← dice; pure (.dice d), do let n ← number; pure (.number n)]

theorem atom_eq (inner : Parser Expr) : atom inner = amongBlanks (bare inner) := rfl

theorem yields_amongBlanks {α : Type} {p : Parser α} {s r : Text} {a : α} :
    Yields (amongBlanks p) s a r ↔
      ∃ t, Yields p (Text.skipBlank s) a t ∧ Text.skipBlank t = r := by
  rw [amongBlanks, yields_bind]
  constructor
  · rintro ⟨_, u, before, inside⟩
    obtain ⟨b, t, read, behind⟩ := yields_bind.1 inside
    obtain ⟨_, v, after, done⟩ := yields_bind.1 behind
    obtain ⟨rfl, rfl⟩ := yields_pure.1 done
    obtain rfl := yields_blank.1 before
    exact ⟨t, read, yields_blank.1 after⟩
  · rintro ⟨t, read, rfl⟩
    refine ⟨(), Text.skipBlank s, yields_blank.2 rfl, yields_bind.2 ⟨a, t, read, ?_⟩⟩
    exact yields_bind.2 ⟨(), Text.skipBlank t, yields_blank.2 rfl, yields_pure.2 ⟨rfl, rfl⟩⟩

theorem yields_group {inner : Parser Expr} {s r : Text} {e : Expr} :
    Yields (group inner) s e r ↔ ∃ t, s = '(' :: t ∧ Yields inner t e (')' :: r) := by
  rw [group, yields_bind]
  constructor
  · rintro ⟨_, t, opening, inside⟩
    obtain ⟨f, u, read, behind⟩ := yields_bind.1 inside
    obtain ⟨rfl, rfl⟩ := yields_literal_map.1 behind
    exact ⟨t, yields_literal.1 opening, read⟩
  · rintro ⟨t, rfl, read⟩
    exact ⟨(), t, yields_literal.2 rfl,
      yields_bind.2 ⟨e, ')' :: r, read, yields_literal_map.2 ⟨rfl, rfl⟩⟩⟩

/-- What does not begin with a parenthesis is no group. -/
theorem rejects_group {inner : Parser Expr} {p : Parser Expr} {q : Char → Bool} {s r : Text}
    {e : Expr} (h : Begins p q) (other : q '(' = false) (read : Yields p s e r) :
    Rejects (group inner) s := by
  refine rejects_iff.2 fun f u k => ?_
  obtain ⟨t, rfl, -⟩ := yields_group.1 k
  obtain ⟨c, v, same, start⟩ := h read
  obtain ⟨rfl, -⟩ := List.cons.inj same
  rw [other] at start
  cases start

/-- A number is not taken for the beginning of a dice term, with no `d` behind it. -/
theorem rejects_dice_of_number {s r : Text} {n : Number} (h : Yields number s n r)
    (stop : Ahead (Layer.closes .atom) r) : Rejects dice s := by
  refine rejects_iff.2 fun d u read => ?_
  obtain ⟨sign, t, ⟨rfl, signs, numeral⟩, -⟩ := yields_number_iff.1 h
  cases sign with
  | some c =>
    -- no dice term begins with a sign
    obtain ⟨d, v, same, start⟩ := begins_dice read
    obtain ⟨rfl, -⟩ := List.cons.inj same
    rcases signs c rfl with rfl | rfl <;> exact absurd start (by decide)
  | none =>
    -- the count that the term begins with is the number, and the letter stands behind it
    have second : Yields natural (t ++ r) _ r := yields_natural_iff.2 ⟨t, rfl, numeral, rfl⟩
    obtain ⟨count, v, -, -, -, counted, -, -, -⟩ := yields_dice.1 read
    rcases yields_optional.1 counted with ⟨k, -, other⟩ | ⟨uncounted, -, -⟩
    · obtain ⟨-, rfl⟩ := second.unique other
      exact (closes_atom (ahead_cons.1 stop)).2 rfl
    · exact not_rejects second uncounted

/-- With the right thing behind it, an atom is whichever of the three kinds it is. -/
theorem yields_bare {inner : Parser Expr} {s r : Text} {e : Expr}
    (stop : Ahead (Layer.closes .atom) r) :
    Yields (bare inner) s e r ↔
      Yields (group inner) s e r ∨ (∃ d, Yields dice s d r ∧ .dice d = e) ∨
        ∃ n, Yields number s n r ∧ .number n = e := by
  rw [bare, yields_choice]
  · simp only [List.mem_cons, List.not_mem_nil, or_false, exists_eq_or_imp, exists_eq_left,
      yields_map]
  · simp only [List.pairwise_cons, List.mem_cons, List.not_mem_nil, or_false, forall_eq_or_imp,
      forall_eq, List.Pairwise.nil, and_true, false_imp_iff, implies_true]
    refine ⟨⟨fun _ => ?_, fun _ => ?_⟩, fun _ joint => ?_⟩
    · exact rejects_group begins_dice.bind (by decide)
    · exact rejects_group begins_number.bind (by decide)
    · obtain ⟨n, read, -⟩ := yields_map.1 joint
      exact rejects_bind (rejects_dice_of_number read stop)

/-! ## Nothing else is read -/

theorem skipBlank_split (s : Text) :
    ∃ b, s = b ++ Text.skipBlank s ∧ ∀ c ∈ b, Text.isBlank c = true := by
  refine ⟨s.takeWhile Text.isBlank, List.takeWhile_append_dropWhile.symm, ?_⟩
  exact List.all_eq_true.1 List.all_takeWhile

theorem sound_bare {inner : Parser Expr} (h : Sound inner (Derives .sum)) :
    Sound (bare inner) (Derives .atom) := by
  intro s e r read
  rcases yields_choice_cons.1 read with first | ⟨-, read⟩
  · obtain ⟨t, rfl, inside⟩ := yields_group.1 first
    obtain ⟨u, rfl, form⟩ := h inside
    exact ⟨'(' :: u ++ [')'], by simp, .group form⟩
  rcases yields_choice_cons.1 read with second | ⟨-, read⟩
  · obtain ⟨d, inside, rfl⟩ := yields_map.1 second
    obtain ⟨t, rfl, form⟩ := sound_dice inside
    exact ⟨t, rfl, .dice form⟩
  rcases yields_choice_cons.1 read with third | ⟨-, read⟩
  · obtain ⟨n, inside, rfl⟩ := yields_map.1 third
    obtain ⟨t, rfl, form⟩ := sound_number inside
    exact ⟨t, rfl, .number form⟩
  · exact absurd read not_yields_choice_nil

theorem sound_atom {inner : Parser Expr} (h : Sound inner (Derives .sum)) :
    Sound (atom inner) (Derives .factor) := by
  intro s e r read
  rw [atom_eq] at read
  obtain ⟨t, inside, rfl⟩ := yields_amongBlanks.1 read
  obtain ⟨before, shape, left⟩ := skipBlank_split s
  obtain ⟨behind, rest, right⟩ := skipBlank_split t
  obtain ⟨u, same, form⟩ := sound_bare h inside
  refine ⟨before ++ u ++ behind, ?_, .factor left form right⟩
  rw [List.append_assoc, List.append_assoc, ← rest, ← same, ← shape]

theorem sound_product {inner : Parser Expr} (front : TakesFront inner)
    (h : Sound inner (Derives .sum)) : Sound (product inner) (Derives .product) := by
  refine sound_joinedBy (by decide) front.atom (sound_atom h) .product ?_
  intro o t u e f listed left right
  obtain rfl : o = .times := by simpa using listed
  exact .times left right

theorem sound_sum {inner : Parser Expr} (front : TakesFront inner)
    (h : Sound inner (Derives .sum)) : Sound (sum inner) (Derives .sum) := by
  refine sound_joinedBy (by decide) (TakesFront.joinedBy front.atom) (sound_product front h) .sum ?_
  intro o t u e f listed left right
  simp only [List.mem_cons, List.not_mem_nil, or_false] at listed
  rcases listed with rfl | rfl
  · exact .plus left right
  · exact .minus left right

theorem sound_nested (bound : Nat) : Sound (nested bound) (Derives .sum) := by
  induction bound with
  | zero => exact fun s e r read => absurd read not_yields_fail
  | succ bound ih => exact sound_sum (takesFront_nested bound) ih

theorem sound_expr : Sound expr (Derives .sum) :=
  fun s _ _ read => sound_nested (s.length + 1) read

/-! ## Everything is read -/

/-- What is to be shown of a text of each layer, by induction on a derivation. Of a layer with
operators it is said for whatever can be read behind the expression. -/
def Readable : Layer → Text → Expr → Prop
  | .atom, t, e => ∀ r, Ahead (Layer.closes .atom) r → Yields (bare expr) (t ++ r) e r
  | .factor, t, e => ∀ r, Ahead (Layer.closes .factor) r → Yields (atom expr) (t ++ r) e r
  | .product, t, e => ∀ r x u, Ahead (Layer.closes .factor) r →
      Yields (onward [.times] (atom expr) e) r x u → Yields (product expr) (t ++ r) x u
  | .sum, t, e => ∀ r x u, Ahead (Layer.closes .product) r →
      Yields (onward [.plus, .minus] (product expr) e) r x u → Yields (sum expr) (t ++ r) x u

/-- Behind a product nothing more is read where no factor follows. -/
theorem read_product {t r : Text} {e : Expr} (h : Readable .product t e)
    (stop : Ahead (Layer.closes .product) r) : Yields (product expr) (t ++ r) e r := by
  refine h r e r (stop.mono fun c k => (closes_product_factor k).1) ?_
  refine (yields_onward_iff (by decide) takesFront_expr.atom).2 (.inl ⟨rfl, rfl, ?_⟩)
  refine rejects_of_begins (begins_operand (by decide)) (stop.mono fun c k => ?_)
  obtain ⟨-, times⟩ := closes_product_factor k
  simp [Operator.symbol, times.symm]

/-- Behind a sum nothing more is read where no product follows. -/
theorem read_sum {t r : Text} {e : Expr} (h : Readable .sum t e)
    (stop : Ahead (Layer.closes .sum) r) : Yields expr (t ++ r) e r := by
  rw [expr_eq]
  refine h r e r (stop.mono fun c k => (closes_sum_product k).1) ?_
  have front : TakesFront (product expr) := TakesFront.joinedBy takesFront_expr.atom
  refine (yields_onward_iff (by decide) front).2 (.inl ⟨rfl, rfl, ?_⟩)
  refine rejects_of_begins (begins_operand (by decide)) (stop.mono fun c k => ?_)
  obtain ⟨-, plus, minus⟩ := closes_sum_product k
  simp [Operator.symbol, plus.symm, minus.symm]

theorem read_sum_operand {o : Operator} {t u : Text} {e f : Expr} (listed : o ∈ [.plus, .minus])
    (sign : Layer.closes .product o.symbol = true) (h : Readable .sum t e)
    (k : Readable .product u f) :
    Readable .sum (t ++ o.symbol :: u) (.join o e f) := by
  intro r x v stop more
  have front : TakesFront (product expr) := TakesFront.joinedBy takesFront_expr.atom
  rw [List.append_assoc]
  refine h _ x v (ahead_cons.2 sign) ((yields_onward_iff (by decide) front).2 (.inr ?_))
  exact ⟨o, listed, u ++ r, f, r, rfl, read_product k stop, more⟩

/-- No atom begins with a blank. -/
theorem atom_head {t : Text} {e : Expr} (h : Derives .atom t e) :
    ∃ c u, t = c :: u ∧ Text.isBlank c = false := by
  cases h with
  | number form =>
    obtain ⟨c, u, rfl, sort⟩ := form.exists_cons
    simp only [isSignOrDigit, Bool.or_eq_true, decide_eq_true_eq] at sort
    rcases sort with (rfl | rfl) | digit
    · exact ⟨'+', u, rfl, by decide⟩
    · exact ⟨'-', u, rfl, by decide⟩
    · exact ⟨c, u, rfl, isBlank_of_isDigit digit⟩
  | dice form =>
    cases form with
    | term dice number modifiers distinct =>
      cases dice with
      | omitted => exact ⟨'d', _, rfl, by decide⟩
      | given digits =>
        obtain ⟨c, u, rfl, digit⟩ := digits.exists_cons
        exact ⟨c, _, rfl, isBlank_of_isDigit digit⟩
  | group form => exact ⟨'(', _, rfl, by decide⟩

theorem skipBlank_append {b t : Text} (all : ∀ c ∈ b, Text.isBlank c = true)
    (stop : Ahead (fun c => !Text.isBlank c) t) : Text.skipBlank (b ++ t) = t :=
  dropWhile_append_of_ahead all stop

theorem readable {l : Layer} {t : Text} {e : Expr} (h : Derives l t e) : Readable l t e := by
  induction h with
  | number form =>
    intro r stop
    have read := reads_number form (stop.mono fun c k => notDigit_of_notModifier (closes_atom k).1)
    exact (yields_bare stop).2 (.inr (.inr ⟨_, read, rfl⟩))
  | dice form =>
    intro r stop
    have read := reads_dice form (stop.mono fun c k => (closes_atom k).1)
    exact (yields_bare stop).2 (.inr (.inl ⟨_, read, rfl⟩))
  | @group t e form ih =>
    intro r stop
    have inside : Yields expr (t ++ ')' :: r) e (')' :: r) := read_sum ih (ahead_cons.2 (by decide))
    exact (yields_bare stop).2 (.inl (yields_group.2 ⟨t ++ ')' :: r, by simp, inside⟩))
  | @factor before t behind e left form right ih =>
    intro r stop
    -- the blanks in front end where the atom begins, and those behind it are no part of the atom
    obtain ⟨c, u, rfl, solid⟩ := atom_head form
    have further : Ahead (Layer.closes .atom) (behind ++ r) := by
      refine Ahead.append (fun d first => ?_) (stop.mono fun d k => (closes_factor_atom k).1)
      have blank := right d (List.mem_of_mem_head? first)
      simp [Layer.closes, blank]
    have inside : Ahead (fun d => !Text.isBlank d) (c :: u ++ (behind ++ r)) :=
      ahead_cons.2 (by simp [solid])
    have outside : Ahead (fun d => !Text.isBlank d) r := stop.mono fun d k => by
      simp [(closes_factor_atom k).2]
    rw [atom_eq, yields_amongBlanks, List.append_assoc, List.append_assoc,
      skipBlank_append left inside]
    exact ⟨behind ++ r, ih _ further, skipBlank_append right outside⟩
  | product form ih =>
    intro r x u stop more
    exact yields_bind.2 ⟨_, r, ih r stop, more⟩
  | @times t u e f left right ihe ihf =>
    intro r x v stop more
    rw [List.append_assoc]
    -- the left operand is read first, and to read on from it is to read this operator first
    refine ihe _ x v (ahead_cons.2 (by decide)) ?_
    refine (yields_onward_iff (by decide) takesFront_expr.atom).2 (.inr ?_)
    exact ⟨.times, by simp, u ++ r, f, r, rfl, ihf r stop, more⟩
  | sum form ih =>
    intro r x u stop more
    exact yields_bind.2 ⟨_, r, read_product ih stop, more⟩
  | plus left right ihe ihf => exact read_sum_operand (by simp) (by decide) ihe ihf
  | minus left right ihe ihf => exact read_sum_operand (by simp) (by decide) ihe ihf

theorem reads_expr : Reads expr (Derives .sum) (Layer.closes .sum) :=
  fun _ _ _ form stop => read_sum (readable form) stop

end Parser

/-! ## The whole text -/

namespace Notation

theorem derives_of_ofText_eq_ok {s : Text} {e : Expr} (read : Expr.ofText s = .ok e) :
    Derives .sum s e :=
  (Parser.whole_eq_ok_iff_form Parser.sound_expr Parser.reads_expr).1 read

theorem Derives.ofText_eq_ok {s : Text} {e : Expr} (form : Derives .sum s e) :
    Expr.ofText s = .ok e :=
  (Parser.whole_eq_ok_iff_form Parser.sound_expr Parser.reads_expr).2 form

end Notation

open Notation

/-- **The reader accepts exactly the texts of the grammar**, and answers with the tree that the
grammar prescribes. -/
theorem Expr.ofText_eq_ok_iff {s : Text} {e : Expr} :
    Expr.ofText s = .ok e ↔ Derives .sum s e :=
  ⟨derives_of_ofText_eq_ok, Derives.ofText_eq_ok⟩

end TabletopDice
