import TabletopDice.Proofs.Selection.Taking

/-!
# Selections without sorting

What a selection does, said of each die by itself. The dice that count are ranked by how many others
that count precede them, seen from the end that the selection starts at: those with a face nearer to
the end, and those with the same face that fell earlier (`End.rank`). A selection takes the dice whose
rank is below the number that it wants (`Selection.Takes`).

Nothing is sorted here, and so nothing has to be said about ties, about dice that have been discarded
before, or about numbers below one and beyond what is there. That the marks which a selection leaves
are these, and that it leaves nothing else, is `Selection.apply_by_rank`.
-/

set_option autoImplicit false

namespace TabletopDice

/-! ## The front of a sorted list, by counting -/

/-- A member of a sorted list is among the first few exactly if fewer than that come before it in the
order. -/
theorem mem_take_iff_countP {α : Type} {le : α → α → Bool} {xs : List α}
    (antisymm : ∀ a b, le a b = true → le b a = true → a = b) (refl : ∀ a, le a a = true)
    (sorted : xs.Pairwise fun a b => le a b = true) (nodup : xs.Nodup) (n : Nat) {a : α}
    (mem : a ∈ xs) : a ∈ xs.take n ↔ xs.countP (fun b => !le a b) < n := by
  induction xs generalizing n with
  | nil => cases mem
  | cons x xs ih =>
    obtain ⟨first, rest⟩ := List.pairwise_cons.1 sorted
    obtain ⟨fresh, others⟩ := List.nodup_cons.1 nodup
    cases n with
    | zero => simp
    | succ n =>
      obtain rfl | behind := List.mem_cons.1 mem
      · -- nothing is below the first member
        have noneBelow : xs.countP (fun b => !le a b) = 0 :=
          List.countP_eq_zero.2 fun b inside => by simp [first b inside]
        simp [noneBelow, refl]
      · have apart : a ≠ x := fun same => fresh (same ▸ behind)
        have below : le a x = false :=
          Bool.eq_false_iff.2 fun above => apart (antisymm a x above (first a behind))
        rw [List.take_succ_cons, List.mem_cons, or_iff_right apart, ih rest others n behind,
          List.countP_cons, below]
        simp

/-! ## Ranks -/

namespace End

/-- The die at `j` precedes the die at `i`, seen from an end: its face is nearer to that end, or it
is the same face and fell earlier. -/
def Precedes (e : End) (dice : List Die) (j i : Fin dice.length) : Prop :=
  match e with
  | .highest => (dice.get i).face < (dice.get j).face ∨ (dice.get j).face = (dice.get i).face ∧ j < i
  | .lowest => (dice.get j).face < (dice.get i).face ∨ (dice.get j).face = (dice.get i).face ∧ j < i

instance (e : End) (dice : List Die) (j i : Fin dice.length) : Decidable (e.Precedes dice j i) :=
  match e with
  | .highest => inferInstanceAs (Decidable (_ ∨ _))
  | .lowest => inferInstanceAs (Decidable (_ ∨ _))

/-- How many of the dice that count precede the one at a place. -/
def rank (e : End) (dice : List Die) (i : Fin dice.length) : Nat :=
  (List.finRange dice.length).countP fun j => (dice.get j).isKept && decide (e.Precedes dice j i)

theorem precedes_iff_ahead {e : End} {dice : List Die} {j i : Fin dice.length} :
    e.Precedes dice j i ↔ e.ahead ((dice.get j).face, j) ((dice.get i).face, i) = true := by
  rw [ahead_iff]
  cases e with
  | highest => exact or_congr (decide_eq_true_iff).symm Iff.rfl
  | lowest => exact or_congr (decide_eq_true_iff).symm Iff.rfl

end End

namespace Selection

/-- The selection takes the die at a place: it counts, and fewer of the dice that count precede it
than are wanted. -/
def TakesAt (s : Selection) (dice : List Die) (i : Fin dice.length) : Prop :=
  (dice.get i).isKept = true ∧ (s.fromEnd.rank dice i : Int) < max s.count.toInt 0

/-- The die at a place counts once the selection has been applied. -/
def CountsAfter (s : Selection) (dice : List Die) (i : Fin dice.length) : Prop :=
  match s.effect with
  | .keep => s.TakesAt dice i
  | .drop => (dice.get i).isKept = true ∧ ¬ s.TakesAt dice i

theorem eligible_eq_finRange (dice : List Die) :
    eligible dice = ((List.finRange dice.length).filter fun j => (dice.get j).isKept).map
      fun j => ((dice.get j).face, j.val) := by
  have placed : dice.zipIdx = (List.finRange dice.length).map fun j => (dice.get j, j.val) := by
    apply List.ext_getElem <;> simp
  rw [eligible, placed, List.filter_map, List.map_map]
  rfl

theorem mem_eligible_of_isKept {dice : List Die} {i : Fin dice.length}
    (kept : (dice.get i).isKept = true) : ((dice.get i).face, i.val) ∈ eligible dice := by
  rw [eligible_eq_finRange]
  exact List.mem_map.2 ⟨i, List.mem_filter.2 ⟨List.mem_finRange i, kept⟩, rfl⟩

theorem rank_eq_countP (e : End) (dice : List Die) (i : Fin dice.length) :
    e.rank dice i = (eligible dice).countP fun p => e.ahead p ((dice.get i).face, i) := by
  rw [eligible_eq_finRange, List.countP_map, List.countP_filter, End.rank]
  refine List.countP_congr fun j _ => ?_
  simp [End.precedes_iff_ahead, and_comm]

/-- A selection reaches the dice that count whose rank is below its quota. -/
theorem reaches_iff_countP (s : Selection) (dice : List Die) {p : Placed} (mem : p ∈ eligible dice) :
    s.reaches dice p = true ↔
      (eligible dice).countP (fun q => s.fromEnd.ahead q p) < s.quota := by
  have perm := perm_ranked s.fromEnd dice
  have count := mem_take_iff_countP (fun _ _ => End.not_ahead_antisymm) s.fromEnd.not_ahead_self
    (pairwise_ranked s.fromEnd dice) (nodup_ranked s.fromEnd dice) s.quota (perm.mem_iff.2 mem)
  rw [perm.countP_eq] at count
  simpa using (s.reaches_iff_mem_take dice mem).trans count

theorem takes_iff_takesAt (s : Selection) (dice : List Die) (i : Fin dice.length) :
    takes s.fromEnd (s.lastTaken dice) (dice.get i) i = true ↔ s.TakesAt dice i := by
  rw [takes, Bool.and_eq_true]
  refine and_congr_right fun kept => ?_
  have reached := s.reaches_iff_countP dice (mem_eligible_of_isKept kept)
  have wanted : (s.quota : Int) = max s.count.toInt 0 := Int.toNat_eq_max _
  rw [reaches, ← rank_eq_countP] at reached
  rw [reached, ← wanted, Int.ofNat_lt]

theorem get_apply (s : Selection) (dice : List Die) (i : Fin dice.length) :
    (s.apply dice).get (i.cast (s.length_apply dice).symm) =
      mark s.effect (takes s.fromEnd (s.lastTaken dice) (dice.get i) i) (dice.get i) := by
  simp only [apply, List.get_eq_getElem, List.getElem_map, List.getElem_zipIdx, Nat.zero_add]
  rfl

theorem isKept_mark (effect : Effect) (taken : Bool) (d : Die) :
    (mark effect taken d).isKept =
      match effect with
      | .keep => taken
      | .drop => d.isKept && !taken := by
  cases effect <;> simp [mark, Die.isKept]

/-- **A selection changes nothing but marks, and the marks are those that ranks give**: of the dice
that counted before, those count afterwards that it takes to keep, or that it does not take to drop.
-/
theorem apply_by_rank (s : Selection) (dice : List Die) :
    (s.apply dice).map Die.face = dice.map Die.face ∧
      (s.apply dice).map Die.sides = dice.map Die.sides ∧
        ∀ i : Fin dice.length,
          ((s.apply dice).get (i.cast (s.length_apply dice).symm)).isKept = true ↔
            s.CountsAfter dice i := by
  refine ⟨s.map_face_apply dice, s.map_sides_apply dice, fun i => ?_⟩
  have taken := s.takes_iff_takesAt dice i
  rw [get_apply, isKept_mark, CountsAfter]
  cases s.effect with
  | keep => exact taken
  | drop =>
    simp only [Bool.and_eq_true, Bool.not_eq_true', Bool.eq_false_iff, ne_eq]
    rw [taken]

end Selection

end TabletopDice
