import Mathlib.Order.Bounds.Defs
import TabletopDice.Proofs.Notation.Blanks

/-!
# No parentheses without need

Wherever an operand stands in parentheses in the written form of an expression, every text of that
expression has a pair there. The reason is the grammar: an operand stands in a layer, and a layer has
no text for an expression that holds together less tightly than it asks for, save one with
parentheses around the whole. So the texts of a layer are compared with what is written there for the
expression (`Layer.written`), by induction on derivations, and each pair that is written is found
again in the text (`Derives.count_written_le`).

A text may have more of them. What is written is therefore the least that will do
(`Expr.isLeast_count_text`).
-/

set_option autoImplicit false

namespace TabletopDice

namespace Notation

/-! ## What is written for an operand -/

/-- How tightly an expression has to hold together to stand in a layer without parentheses. Numbers
and dice terms can stand in every layer. -/
def Layer.demand (l : Layer) : Nat := min l.strength 3

/-- What is written for an expression where a text of the layer is asked for. -/
def Layer.written (l : Layer) (e : Expr) : Text :=
  Expr.grouped (e.strength < l.demand) e.text

theorem demand_ofOperator (o : Operator) : (Layer.ofOperator o).demand = o.strength := by
  cases o <;> rfl

theorem demand_behind (o : Operator) : (Layer.behind o).demand = o.strength + 1 := by
  cases o <;> rfl

theorem text_join (o : Operator) (left right : Expr) :
    (Expr.join o left right).text = (Layer.ofOperator o).written left ++ [' ', o.symbol, ' '] ++
      (Layer.behind o).written right := by
  have behind : decide (right.strength ≤ o.strength) = decide (right.strength < o.strength + 1) :=
    decide_eq_decide.2 Nat.lt_succ_iff.symm
  rw [Expr.text, Layer.written, Layer.written, demand_ofOperator, demand_behind, behind]

/-- An expression that holds together tightly enough is written as it is. -/
theorem Layer.written_eq_text {l : Layer} {e : Expr} (enough : l.demand ≤ e.strength) :
    l.written e = e.text := by
  rw [written, decide_eq_false (Nat.not_lt.2 enough), Expr.grouped, if_neg Bool.false_ne_true]

theorem Layer.written_sum (e : Expr) : Layer.sum.written e = e.text :=
  written_eq_text (one_le_strength e)

/-! ## Counting parentheses -/

theorem count_grouped (needed : Bool) (t : Text) :
    (Expr.grouped needed t).count '(' = needed.toNat + t.count '(' := by
  cases needed <;> simp [Expr.grouped, Nat.add_comm]

/-- A layer that asks for more has no fewer parentheses written in it. -/
theorem Layer.count_written_mono {l m : Layer} (less : l.demand ≤ m.demand) (e : Expr) :
    (l.written e).count '(' ≤ (m.written e).count '(' := by
  rw [written, written, count_grouped, count_grouped]
  refine Nat.add_le_add_right ?_ _
  by_cases weak : e.strength < l.demand
  · exact Nat.le_of_eq (by rw [decide_eq_true weak, decide_eq_true (Nat.lt_of_lt_of_le weak less)])
  · rw [decide_eq_false weak]
    exact Nat.zero_le _

theorem Layer.count_written_le (l : Layer) (e : Expr) :
    (l.written e).count '(' ≤ e.text.count '(' + 1 := by
  rw [written, count_grouped, Nat.add_comm]
  exact Nat.add_le_add_left (Bool.toNat_le _) _

theorem count_text_join (o : Operator) (left right : Expr) :
    (Expr.join o left right).text.count '(' =
      ((Layer.ofOperator o).written left).count '(' + ((Layer.behind o).written right).count '(' := by
  have symbol : o.symbol ≠ '(' := by cases o <;> decide
  simp [text_join, symbol]

theorem count_written_join_le {o : Operator} {t u : Text} {left right : Expr}
    (first : ((Layer.ofOperator o).written left).count '(' ≤ t.count '(')
    (second : ((Layer.behind o).written right).count '(' ≤ u.count '(') :
    ((Layer.ofOperator o).written (.join o left right)).count '(' ≤
      (t ++ o.symbol :: u).count '(' := by
  have enough : (Layer.ofOperator o).demand ≤ (Expr.join o left right).strength :=
    Nat.le_of_eq (demand_ofOperator o)
  have symbol : o.symbol ≠ '(' := by cases o <;> decide
  rw [Layer.written_eq_text enough, count_text_join, List.count_append, List.count_cons_of_ne symbol]
  exact Nat.add_le_add first second

/-- Whatever text of a layer stands for an expression, it has the parentheses that are written for
the expression there. -/
theorem Derives.count_written_le {l : Layer} {t : Text} {e : Expr} (h : Derives l t e) :
    (l.written e).count '(' ≤ t.count '(' := by
  induction h with
  | @number t n form =>
    have unopened : '(' ∉ n.text := (signed_text n).ofTerm.not_mem (by decide)
    have text : Layer.atom.written (.number n) = n.text := rfl
    rw [text, List.count_eq_zero.2 unopened]
    exact Nat.zero_le _
  | @dice t d form =>
    have unopened : '(' ∉ d.text := (diceForm_text d).ofTerm.not_mem (by decide)
    have text : Layer.atom.written (.dice d) = d.text := rfl
    rw [text, List.count_eq_zero.2 unopened]
    exact Nat.zero_le _
  | @group t e form ih =>
    -- the one pair that may be written around the expression is there
    have inside : e.text.count '(' ≤ t.count '(' := by
      rwa [Layer.written_sum] at ih
    have around : ('(' :: t ++ [')']).count '(' = t.count '(' + 1 := by simp
    rw [around]
    exact Nat.le_trans (Layer.count_written_le .atom e) (Nat.succ_le_succ inside)
  | @factor before t behind e left form right ih =>
    have same : Layer.factor.written e = Layer.atom.written e := rfl
    rw [same, List.count_append, List.count_append]
    omega
  | product form ih => exact Nat.le_trans (Layer.count_written_mono (by decide) _) ih
  | sum form ih => exact Nat.le_trans (Layer.count_written_mono (by decide) _) ih
  | times first second ihl ihr => exact count_written_join_le (o := .times) ihl ihr
  | plus first second ihl ihr => exact count_written_join_le (o := .plus) ihl ihr
  | minus first second ihl ihr => exact count_written_join_le (o := .minus) ihl ihr

end Notation

/-- **An expression is written with as few parentheses as it can be**: so many are in its written
form, which reads back as the expression, and no text that reads as it has fewer. -/
theorem Expr.isLeast_count_text (e : Expr) :
    IsLeast {n | ∃ t, Expr.ofText t = .ok e ∧ t.count '(' = n} (e.text.count '(') := by
  refine ⟨⟨e.text, Notation.ofText_text_eq_ok e, rfl⟩, ?_⟩
  rintro n ⟨t, read, rfl⟩
  have form := Notation.derives_of_ofText_eq_ok read
  have written := form.count_written_le
  rwa [Notation.Layer.written_sum] at written

end TabletopDice
