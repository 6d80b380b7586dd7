import TabletopDice.Selection.Apply

/-!
# Which dice a selection takes

A selection sorts the dice that count and takes the first of them, and then it looks at every die
once more and asks only whether the last one taken is ahead of it. The two come to the same because
the order in which dice are taken leaves no ties: `End.ahead` compares places where faces are equal,
and no two dice have the same place. So the dice that the last one taken is not ahead of are those
that were taken, and the others are the rest of the sorted list (`filter_getLast?_take`).

What a selection does to dice on the table is then said in one line, once for the dice as they lie
and once for the order in which they are taken. Of the dice that counted, those count afterwards
that it leaves, with their faces and in their places (`Selection.eligible_apply`); and in the order,
it keeps the front and nothing else, or everything else (`Selection.ranked_apply`).
-/

set_option autoImplicit false

namespace TabletopDice

/-! ## The order in which dice are taken -/

namespace End

theorem ahead_iff {e : End} {a b : Placed} :
    e.ahead a b = true ↔ e.better a.1 b.1 = true ∨ (a.1 = b.1 ∧ a.2 < b.2) := by
  simp [ahead]

/-- Not to be behind is a linear order on faces with their places. -/
theorem not_ahead_trans {e : End} {a b c : Placed} (first : (!e.ahead b a) = true)
    (second : (!e.ahead c b) = true) : (!e.ahead c a) = true := by
  simp only [Bool.not_eq_true', Bool.eq_false_iff, ne_eq, ahead_iff] at *
  cases e <;> simp only [better, decide_eq_true_eq, Number.lt_iff, Number.ext_iff] at * <;> omega

theorem not_ahead_total (e : End) (a b : Placed) : (!e.ahead b a || !e.ahead a b) = true := by
  simp only [Bool.or_eq_true, Bool.not_eq_true', Bool.eq_false_iff, ne_eq, ahead_iff]
  cases e <;> simp only [better, decide_eq_true_eq, Number.lt_iff, Number.ext_iff] <;> omega

theorem not_ahead_antisymm {e : End} {a b : Placed} (first : (!e.ahead b a) = true)
    (second : (!e.ahead a b) = true) : a = b := by
  simp only [Bool.not_eq_true', Bool.eq_false_iff, ne_eq, ahead_iff] at first second
  have face : a.1 = b.1 := by
    cases e <;> simp only [better, decide_eq_true_eq, Number.lt_iff, Number.ext_iff] at * <;> omega
  have notBehind : ¬ b.2 < a.2 := fun less => first (.inr ⟨face.symm, less⟩)
  have notBefore : ¬ a.2 < b.2 := fun less => second (.inr ⟨face, less⟩)
  exact Prod.ext face (by omega)

theorem not_ahead_self (e : End) (a : Placed) : (!e.ahead a a) = true := by
  simpa using e.not_ahead_total a a

end End

/-! ## The front of a sorted list -/

section Front

variable {α : Type} {le : α → α → Bool} {xs : List α}

/-- The front of a sorted list is what its last member is not below, and nothing else. -/
theorem mem_take_iff_getLast? (antisymm : ∀ a b, le a b = true → le b a = true → a = b)
    (refl : ∀ a, le a a = true) (sorted : xs.Pairwise fun a b => le a b = true) {n : Nat} {a : α}
    (mem : a ∈ xs) : a ∈ xs.take n ↔ (xs.take n).getLast?.any (le a ·) = true := by
  have parts := sorted
  rw [← List.take_append_drop n xs, List.pairwise_append] at parts
  obtain ⟨front, -, across⟩ := parts
  cases last : (xs.take n).getLast? with
  | none =>
    rw [List.getLast?_eq_none_iff.1 last]
    simp
  | some l =>
    obtain ⟨before, shape⟩ := List.getLast?_eq_some_iff.1 last
    rw [Option.any_some]
    constructor
    · intro inside
      rw [shape] at inside front
      obtain inside | inside := List.mem_append.1 inside
      · exact (List.pairwise_append.1 front).2.2 a inside l (by simp)
      · rw [List.mem_singleton.1 inside]
        exact refl l
    · intro below
      have split : a ∈ xs.take n ++ xs.drop n := by rwa [List.take_append_drop]
      obtain inside | behind := List.mem_append.1 split
      · exact inside
      · -- behind the front it would be above the last member as well, and so be that member
        have lastInside : l ∈ xs.take n := by simp [shape]
        rw [antisymm a l below (across l lastInside a behind)]
        exact lastInside

theorem filter_append_of_forall {p : α → Bool} {front rest : List α}
    (inside : ∀ a ∈ front, p a = true) (outside : ∀ a ∈ rest, p a = false) :
    (front ++ rest).filter p = front ∧ (front ++ rest).filter (fun a => !p a) = rest := by
  have noneBehind : rest.filter p = [] := by simpa using outside
  have noneLeft : front.filter (fun a => !p a) = [] := by simpa using inside
  have others : ∀ a ∈ rest, (!p a) = true := by simpa using outside
  rw [List.filter_append, List.filter_append, noneBehind, noneLeft, List.filter_eq_self.2 inside,
    List.filter_eq_self.2 others, List.append_nil, List.nil_append]
  exact ⟨rfl, rfl⟩

/-- The last member of its front cuts a sorted list in two: the front, and the rest. -/
theorem filter_getLast?_take (antisymm : ∀ a b, le a b = true → le b a = true → a = b)
    (refl : ∀ a, le a a = true) (sorted : xs.Pairwise fun a b => le a b = true) (nodup : xs.Nodup)
    (n : Nat) :
    xs.filter (fun a => (xs.take n).getLast?.any (le a ·)) = xs.take n ∧
      xs.filter (fun a => !(xs.take n).getLast?.any (le a ·)) = xs.drop n := by
  have inFront := fun {a} (mem : a ∈ xs) => mem_take_iff_getLast? antisymm refl sorted (n := n) mem
  have front : ∀ a ∈ xs.take n, (xs.take n).getLast?.any (le a ·) = true :=
    fun a inside => (inFront (List.mem_of_mem_take inside)).1 inside
  have rest : ∀ a ∈ xs.drop n, (xs.take n).getLast?.any (le a ·) = false := by
    intro a behind
    refine Bool.eq_false_iff.2 fun below => ?_
    have inside := (inFront (List.mem_of_mem_drop behind)).2 below
    rw [← List.take_append_drop n xs] at nodup
    exact (List.nodup_append.1 nodup).2.2 a inside a behind rfl
  have cut := filter_append_of_forall front rest
  rwa [List.take_append_drop] at cut

end Front

/-! ## The dice that are taken -/

namespace Selection

theorem pairwise_place_eligible (dice : List Die) :
    (eligible dice).Pairwise fun a b => a.2 < b.2 := by
  have places : dice.zipIdx.Pairwise fun a b => a.2 < b.2 := by
    rw [← List.pairwise_map (f := Prod.snd) (R := (· < ·)), List.zipIdx_map_snd]
    exact List.pairwise_lt_range'
  exact List.pairwise_map.2 (places.filter _)

theorem nodup_eligible (dice : List Die) : (eligible dice).Nodup :=
  (pairwise_place_eligible dice).imp fun {a b} less (same : a = b) =>
    Nat.lt_irrefl b.2 (same ▸ less)

theorem map_fst_eligible (dice : List Die) :
    (eligible dice).map Prod.fst = (Die.kept dice).map Die.face := by
  have kept : (dice.zipIdx.filter fun p => p.1.isKept).map Prod.fst = Die.kept dice := by
    rw [Die.kept, ← List.zipIdx_map_fst 0 dice, List.filter_map, List.zipIdx_map_fst]
    rfl
  rw [eligible, ← kept, List.map_map, List.map_map]
  rfl

theorem length_eligible (dice : List Die) : (eligible dice).length = (Die.kept dice).length := by
  rw [← List.length_map (f := Prod.fst), map_fst_eligible, List.length_map]

theorem perm_ranked (e : End) (dice : List Die) : (ranked e dice).Perm (eligible dice) :=
  List.mergeSort_perm _ _

theorem pairwise_ranked (e : End) (dice : List Die) :
    (ranked e dice).Pairwise fun a b => (!e.ahead b a) = true := by
  refine List.pairwise_mergeSort ?_ e.not_ahead_total _
  exact fun _ _ _ => End.not_ahead_trans

/-- Whether a selection goes as far as a die: the last one that it takes is not ahead of it. -/
def reaches (s : Selection) (dice : List Die) (p : Placed) : Bool :=
  (s.lastTaken dice).any fun l => !s.fromEnd.ahead l p

/-- Whether a die that counts still does after a selection. -/
def leaves (s : Selection) (dice : List Die) (p : Placed) : Bool :=
  match s.effect with
  | .keep => s.reaches dice p
  | .drop => !s.reaches dice p

theorem zipIdx_apply (s : Selection) (dice : List Die) :
    (s.apply dice).zipIdx = dice.zipIdx.map fun (d, i) =>
      (mark s.effect (takes s.fromEnd (s.lastTaken dice) d i) d, i) := by
  apply List.ext_getElem <;> simp [apply]

/-- What a selection does to the dice that count: some of them still do. -/
theorem eligible_apply (s : Selection) (dice : List Die) :
    eligible (s.apply dice) = (eligible dice).filter (s.leaves dice) := by
  rw [eligible, zipIdx_apply, List.filter_map, List.map_map, eligible, List.filter_map,
    List.filter_filter]
  congr 1
  · funext ⟨d, i⟩
    simp
  · refine List.filter_congr fun ⟨d, i⟩ _ => ?_
    -- a die that did not count before is neither kept nor dropped
    cases effect : s.effect <;> cases discarded : d.discarded <;>
      simp [leaves, effect, mark, takes, reaches, Die.isKept, discarded]

/-- No face counts that did not count before. -/
theorem sublist_map_face_kept_apply (s : Selection) (dice : List Die) :
    ((Die.kept (s.apply dice)).map Die.face).Sublist ((Die.kept dice).map Die.face) := by
  rw [← map_fst_eligible, ← map_fst_eligible, eligible_apply]
  exact List.filter_sublist.map Prod.fst

theorem ranked_eq_of_perm {e : End} {dice : List Die} {xs : List Placed}
    (sorted : xs.Pairwise fun a b => (!e.ahead b a) = true) (same : xs.Perm (eligible dice)) :
    ranked e dice = xs :=
  List.Perm.eq_of_pairwise (fun _ _ _ _ => End.not_ahead_antisymm) (pairwise_ranked e dice) sorted
    ((perm_ranked e dice).trans same.symm)

theorem nodup_ranked (e : End) (dice : List Die) : (ranked e dice).Nodup :=
  (perm_ranked e dice).nodup_iff.2 (nodup_eligible dice)

/-- A selection goes as far as the dice that are among the first of that order. -/
theorem reaches_iff_mem_take (s : Selection) (dice : List Die) {p : Placed}
    (mem : p ∈ eligible dice) :
    s.reaches dice p = true ↔ p ∈ (ranked s.fromEnd dice).take s.quota :=
  (mem_take_iff_getLast? (fun _ _ => End.not_ahead_antisymm) s.fromEnd.not_ahead_self
    (pairwise_ranked s.fromEnd dice) ((perm_ranked s.fromEnd dice).mem_iff.2 mem)).symm

/-- Of the dice in the order in which they are taken, a selection leaves the front, or the rest. -/
theorem ranked_apply (s : Selection) (dice : List Die) :
    ranked s.fromEnd (s.apply dice) =
      match s.effect with
      | .keep => (ranked s.fromEnd dice).take s.quota
      | .drop => (ranked s.fromEnd dice).drop s.quota := by
  have left : ranked s.fromEnd (s.apply dice) = (ranked s.fromEnd dice).filter (s.leaves dice) := by
    refine ranked_eq_of_perm ((pairwise_ranked s.fromEnd dice).filter _) ?_
    rw [eligible_apply]
    exact (perm_ranked s.fromEnd dice).filter _
  obtain ⟨front, rest⟩ := filter_getLast?_take (fun _ _ => End.not_ahead_antisymm)
    s.fromEnd.not_ahead_self (pairwise_ranked s.fromEnd dice) (nodup_ranked s.fromEnd dice) s.quota
  rw [left]
  cases effect : s.effect with
  | keep =>
    have same : s.leaves dice = s.reaches dice := by
      funext p
      simp [leaves, effect]
    exact same ▸ front
  | drop =>
    have same : s.leaves dice = fun p => !s.reaches dice p := by
      funext p
      simp [leaves, effect]
    exact same ▸ rest

theorem length_ranked (e : End) (dice : List Die) :
    (ranked e dice).length = (Die.kept dice).length :=
  (perm_ranked e dice).length_eq.trans (length_eligible dice)

/-- How many of so many dice that count still do after a selection. -/
def remaining (s : Selection) (count : Nat) : Nat :=
  match s.effect with
  | .keep => min s.quota count
  | .drop => count - min s.quota count

theorem length_kept_apply (s : Selection) (dice : List Die) :
    (Die.kept (s.apply dice)).length = s.remaining (Die.kept dice).length := by
  rw [← length_ranked s.fromEnd, ← length_ranked s.fromEnd, ranked_apply]
  unfold remaining
  cases s.effect with
  | keep => exact List.length_take
  | drop =>
    simp only [List.length_drop]
    omega

end Selection

end TabletopDice
