import Mathlib.Data.List.Forall2
import TabletopDice.Proofs.Selection.Duality

/-!
# A better die never lowers the score

If one die shows more, a selection may take other dice than before: a die that was dropped stays,
and another one goes in its place. What is left then cannot be compared die by die, for the dice
that are left do not lie in the same places any more. It can be compared in the order from one end.
If some faces of a list are raised, no place in its sorted form gets a smaller face
(`forall₂_sorted`), and a selection cuts the sorted form at a place that does not depend on the
faces. So the smallest face that is left is no smaller than before, nor is the second smallest, and
so on.

What sorting has to be known for is only how many faces are at most a given bound. A sorted list is
no smaller than another one at any place if for every bound it has no more of them
(`forall₂_of_countUpTo`), and the number does not depend on the order of the faces.
-/

set_option autoImplicit false

namespace TabletopDice

/-! ## Faces in ascending order -/

/-- If what is asked of the members of one list carries over to the other list place by place, there
are no fewer there. -/
theorem countP_le_of_forall₂ {α β : Type} {R : α → β → Prop} {p : α → Bool} {q : β → Bool}
    {xs : List α} {ys : List β} (related : List.Forall₂ R xs ys)
    (carry : ∀ {a b}, R a b → p a = true → q b = true) : xs.countP p ≤ ys.countP q := by
  induction related with
  | nil => exact Nat.le_refl _
  | @cons a b xs ys first rest ih =>
    rw [List.countP_cons, List.countP_cons]
    by_cases met : p a = true
    · rw [if_pos met, if_pos (carry first met)]
      omega
    · rw [if_neg met]
      omega

/-- How many of the faces are at most a bound. -/
def countUpTo (bound : Number) (faces : List Number) : Nat :=
  faces.countP fun face => decide (face ≤ bound)

theorem countUpTo_cons (bound face : Number) (faces : List Number) :
    countUpTo bound (face :: faces) = countUpTo bound faces + if face ≤ bound then 1 else 0 := by
  simp [countUpTo, List.countP_cons]

/-- If the first of the faces in ascending order is above a bound, all of them are. -/
theorem countUpTo_eq_zero {face bound : Number} {faces : List Number}
    (sorted : (face :: faces).Pairwise (· ≤ ·)) (above : ¬ face ≤ bound) :
    countUpTo bound (face :: faces) = 0 := by
  refine List.countP_eq_zero.2 fun other mem => ?_
  rw [decide_eq_true_iff]
  obtain rfl | behind := List.mem_cons.1 mem
  · exact above
  · have first : face ≤ other := List.rel_of_pairwise_cons sorted behind
    rw [Number.le_iff] at *
    omega

/-- Of two lists in ascending order, the one that has more faces up to every bound is the smaller
one at every place. -/
theorem forall₂_of_countUpTo {faces others : List Number} (length : faces.length = others.length)
    (sorted : faces.Pairwise (· ≤ ·)) (sortedOthers : others.Pairwise (· ≤ ·))
    (fewer : ∀ bound, countUpTo bound others ≤ countUpTo bound faces) :
    List.Forall₂ (· ≤ ·) faces others := by
  induction faces generalizing others with
  | nil =>
    obtain rfl := List.eq_nil_of_length_eq_zero length.symm
    exact .nil
  | cons face faces ih =>
    cases others with
    | nil => cases length
    | cons other others =>
      have first : face ≤ other := by
        -- up to `other` there is at least that one, and so a face in the other list as well
        by_contra above
        have itself : other ≤ other := Int.le_refl _
        have one := fewer other
        rw [countUpTo_eq_zero sorted above, countUpTo_cons, if_pos itself] at one
        omega
      refine .cons first (ih (Nat.succ.inj length) sorted.of_cons sortedOthers.of_cons ?_)
      intro bound
      by_cases below : other ≤ bound
      · -- both first members are counted
        have smaller : face ≤ bound := Int.le_trans first below
        have both := fewer bound
        rw [countUpTo_cons, countUpTo_cons, if_pos below, if_pos smaller] at both
        omega
      · -- nothing is counted from `other` on
        have uncounted := countUpTo_eq_zero sortedOthers below
        rw [countUpTo_cons] at uncounted
        omega

/-- Raised faces are still raised, place by place, when both lists have been put in order. -/
theorem forall₂_sorted {faces others as bs : List Number} (sorted : faces.Pairwise (· ≤ ·))
    (sortedOthers : others.Pairwise (· ≤ ·)) (same : as.Perm faces) (sameOthers : bs.Perm others)
    (raised : List.Forall₂ (· ≤ ·) as bs) : List.Forall₂ (· ≤ ·) faces others := by
  have length : faces.length = others.length :=
    same.length_eq.symm.trans (raised.length_eq.trans sameOthers.length_eq)
  refine forall₂_of_countUpTo length sorted sortedOthers fun bound => ?_
  rw [countUpTo, countUpTo, ← same.countP_eq, ← sameOthers.countP_eq]
  refine countP_le_of_forall₂ (R := fun b a => a ≤ b) raised.flip fun {b a} above small => ?_
  exact decide_eq_true (Int.le_trans above (of_decide_eq_true small))

/-! ## What larger faces come to -/

theorem exactSum_le_of_forall₂ {faces others : List Number}
    (raised : List.Forall₂ (· ≤ ·) faces others) : exactSum faces ≤ exactSum others := by
  induction raised with
  | nil => exact Int.le_refl _
  | cons first rest ih => exact Int.add_le_add first ih

/-- A condition that asks for faces from some bound up. -/
def Condition.Rising (c : Condition) : Prop :=
  c.comparison = .greater ∨ c.comparison = .atLeast

theorem Condition.Rising.holds_of_le {c : Condition} (rising : c.Rising) {face other : Number}
    (above : face ≤ other) (met : c.holds face = true) : c.holds other = true := by
  obtain ⟨comparison, bound⟩ := c
  obtain rfl | rfl := rising <;>
    simp only [holds, Comparison.holds, decide_eq_true_eq, Number.le_iff, Number.lt_iff] at * <;>
    omega

namespace Roll

variable {r q : Roll} {faces others : List Number}

theorem exactTotal_le_of_forall₂ (successes : q.term.successes = r.term.successes)
    (rising : ∀ c, r.term.successes = some c → c.Rising) (first : r.countedFaces.Perm faces)
    (second : q.countedFaces.Perm others) (raised : List.Forall₂ (· ≤ ·) faces others) :
    r.exactTotal ≤ q.exactTotal := by
  unfold exactTotal
  rw [successes]
  cases asked : r.term.successes with
  | some c =>
    simp only [first.countP_eq, second.countP_eq]
    exact Int.ofNat_le.2 (countP_le_of_forall₂ raised (rising c asked).holds_of_le)
  | none =>
    simp only [exactSum_perm first, exactSum_perm second]
    exact exactSum_le_of_forall₂ raised

theorem nonneg_of_forall₂ (raised : List.Forall₂ (· ≤ ·) faces others)
    (real : ∀ face ∈ faces, 0 ≤ face.toInt) : ∀ face ∈ others, 0 ≤ face.toInt := by
  induction raised with
  | nil => exact real
  | cons first rest ih =>
    obtain ⟨positive, real⟩ := List.forall_mem_cons.1 real
    exact List.forall_mem_cons.2 ⟨Int.le_trans positive first, ih real⟩

/-- Larger faces, in whatever order, come to no less. -/
theorem total_le_of_forall₂ (successes : q.term.successes = r.term.successes)
    (rising : ∀ c, r.term.successes = some c → c.Rising) (first : r.countedFaces.Perm faces)
    (second : q.countedFaces.Perm others) (raised : List.Forall₂ (· ≤ ·) faces others)
    (real : r.term.successes = none → ∀ face ∈ r.countedFaces, 0 ≤ face.toInt) :
    r.total ≤ q.total := by
  have sign : r.term.successes = none → OneSign r.countedFaces := fun adds => .inl (real adds)
  have signs : q.term.successes = none → OneSign q.countedFaces := by
    intro adds
    have sorted : ∀ face ∈ faces, 0 ≤ face.toInt := fun face mem =>
      real (successes ▸ adds) face (first.mem_iff.2 mem)
    exact OneSign.perm (.inl (nonneg_of_forall₂ raised sorted)) second
  rw [total_eq_clamp sign, total_eq_clamp signs]
  exact Number.clamp_le_clamp (exactTotal_le_of_forall₂ successes rising first second raised)

end Roll

/-! ## Larger faces on the table -/

/-- One die in place of another: it counts if the other did, and does not show less. -/
def Die.Raised (die raised : Die) : Prop :=
  raised.discarded = die.discarded ∧ die.face ≤ raised.face

theorem Die.forall₂_face_kept {dice others : List Die} (raised : List.Forall₂ Raised dice others) :
    List.Forall₂ (· ≤ ·) ((kept dice).map face) ((kept others).map face) := by
  induction raised with
  | nil => exact .nil
  | @cons die other dice others first rest ih =>
    obtain ⟨marks, above⟩ := first
    have alike : other.isKept = die.isKept := by rw [isKept, isKept, marks]
    unfold kept at *
    rw [List.filter_cons, List.filter_cons, alike]
    split
    · exact .cons above ih
    · exact ih

namespace Selection

variable {dice others : List Die}

theorem ascending_ranked (dice : List Die) :
    ((ranked .lowest dice).map Prod.fst).Pairwise (· ≤ ·) := by
  refine (pairwise_map_fst_ranked .lowest dice).imp fun {face other} behind => ?_
  simp only [End.better, decide_eq_false_iff_not] at behind
  exact Number.not_lt.1 behind

theorem forall₂_ranked (raised : List.Forall₂ Die.Raised dice others) (e : End) :
    List.Forall₂ (· ≤ ·) ((ranked e dice).map Prod.fst) ((ranked e others).map Prod.fst) := by
  have lowest := forall₂_sorted (ascending_ranked dice) (ascending_ranked others)
    (perm_map_fst_ranked _ dice) (perm_map_fst_ranked _ others) (Die.forall₂_face_kept raised)
  cases e with
  | lowest => exact lowest
  | highest =>
    have back := List.forall₂_reverse_iff.2 lowest
    rwa [← map_fst_ranked_opposite, ← map_fst_ranked_opposite] at back

/-- A selection goes equally far in both lists, whatever the faces are. -/
theorem forall₂_ranked_apply (raised : List.Forall₂ Die.Raised dice others) (s : Selection) :
    List.Forall₂ (· ≤ ·) ((ranked s.fromEnd (s.apply dice)).map Prod.fst)
      ((ranked s.fromEnd (s.apply others)).map Prod.fst) := by
  rw [ranked_apply, ranked_apply]
  have order := forall₂_ranked raised s.fromEnd
  cases s.effect with
  | keep =>
    simp only [List.map_take]
    exact List.forall₂_take _ order
  | drop =>
    simp only [List.map_drop]
    exact List.forall₂_drop _ order

/-- **A better die never lowers the score.** Where the same dice count as before and none of them
shows less, what is left after a selection, or without one, comes to no less: its sum, if no face is
below zero, and the number of its successes, if those are the faces from some bound up. -/
theorem total_le_of_raised (term : Dice) (s : Option Selection) {dice others : List Die}
    (raised : List.Forall₂ Die.Raised dice others)
    (real : term.successes = none → ∀ die ∈ Die.kept dice, 0 ≤ die.face.toInt)
    (rising : ∀ c, term.successes = some c → c.Rising) :
    Roll.total ⟨term, s.elim dice (·.apply dice)⟩ ≤
      Roll.total ⟨term, s.elim others (·.apply others)⟩ := by
  have faces : term.successes = none → ∀ face ∈ (Die.kept dice).map Die.face, 0 ≤ face.toInt :=
    fun adds => List.forall_mem_map.2 (real adds)
  cases s with
  | none =>
    exact Roll.total_le_of_forall₂ rfl rising (.refl _) (.refl _) (Die.forall₂_face_kept raised)
      faces
  | some s =>
    refine Roll.total_le_of_forall₂ rfl rising (perm_map_fst_ranked s.fromEnd _)
      (perm_map_fst_ranked s.fromEnd _) (forall₂_ranked_apply raised s) fun adds face mem => ?_
    exact faces adds face ((sublist_map_face_kept_apply s dice).subset mem)

/-- The tied dice, with a five in place of the two. -/
def improved : List Die := tied.set 1 ⟨Number.clamp 5, Number.clamp 6, false⟩

/-- Of the tied dice the two is dropped. Once it is a five, it stays, and a four goes. -/
theorem total_le_of_raised_improved :
    (Number.clamp 5, 1) ∈ eligible (apply ⟨.drop, .lowest, 1⟩ improved) ∧
      (Number.clamp 4, 0) ∉ eligible (apply ⟨.drop, .lowest, 1⟩ improved) ∧
      Roll.total ⟨.standard, apply ⟨.drop, .lowest, 1⟩ tied⟩ ≤
        Roll.total ⟨.standard, apply ⟨.drop, .lowest, 1⟩ improved⟩ ∧
      Roll.total ⟨{ Dice.standard with successes := some ⟨.greater, 1⟩ }, tied⟩ ≤
        Roll.total ⟨{ Dice.standard with successes := some ⟨.greater, 1⟩ }, improved⟩ := by
  have raised : List.Forall₂ Die.Raised tied improved :=
    .cons ⟨rfl, by decide⟩ <| .cons ⟨rfl, by decide⟩ <| .cons ⟨rfl, by decide⟩ <|
      .cons ⟨rfl, by decide⟩ <| .cons ⟨rfl, by decide⟩ .nil
  rw [mem_eligible_drop, mem_eligible_drop]
  refine ⟨by decide, by decide, ?_, ?_⟩
  · refine total_le_of_raised .standard (some ⟨.drop, .lowest, 1⟩) raised (fun _ => by decide) ?_
    intro c counts
    cases counts
  · refine total_le_of_raised _ none raised (fun adds => by cases adds) fun c counts => ?_
    cases counts
    exact .inl rfl

end Selection

end TabletopDice
