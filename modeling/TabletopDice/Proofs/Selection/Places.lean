import Mathlib.Data.List.Basic
import TabletopDice.Proofs.Selection.Ranks

/-!
# Selections by places

A selection can be carried out with one finger on the dice. The places of those that count are noted
down in the order in which the dice fell, and the notes are sorted by the faces that lie there and
by nothing else. The front of them is what the selection takes. To keep these dice, all are
discarded and these are put back, one after the other; to drop them, these are discarded.

`Selection.apply` goes about it differently. Its order looks at the places as well, so that it
leaves no ties, and every die is marked by one comparison with the last one taken. The two leave the
same marks on all dice (`Selection.apply_eq_applyByPlace`), so that whatever is proved about the
order of `End.ahead` holds of the sort by faces. The one fact behind it is that a stable sort leaves
what its order ties as it stood before (`pairwise_mergeSort_of_tied`).
-/

set_option autoImplicit false

namespace TabletopDice

/-! ## Stable sorts, and changes at places -/

section Lists

variable {α : Type}

/-- Members of a list that a sort ties stay in the order in which they stood. -/
theorem pairwise_mergeSort_of_tied {le : α → α → Bool} {R : α → α → Prop}
    (trans : ∀ a b c, le a b = true → le b c = true → le a c = true)
    (total : ∀ a b, (le a b || le b a) = true) {xs : List α} (before : xs.Pairwise R) :
    (xs.mergeSort le).Pairwise fun a b => le b a = true → R a b := by
  induction xs with
  | nil => simp
  | cons x xs ih =>
    obtain ⟨first, others⟩ := List.pairwise_cons.1 before
    -- the head is put in front of all that is not strictly below it
    obtain ⟨front, back, sorted, rest, below⟩ := List.mergeSort_cons trans total x xs
    have parts := ih others
    rw [rest] at parts
    obtain ⟨inFront, inBack, across⟩ := List.pairwise_append.1 parts
    have fromRest : ∀ b ∈ back, b ∈ xs := fun b mem =>
      List.mem_mergeSort.1 (rest ▸ List.mem_append_right front mem)
    rw [sorted]
    refine List.pairwise_append.2 ⟨inFront, List.pairwise_cons.2 ⟨?_, inBack⟩, ?_⟩
    · exact fun b mem _ => first b (fromRest b mem)
    · intro a inside b mem tied
      obtain rfl | behind := List.mem_cons.1 mem
      · have strict := below a inside
        rw [tied] at strict
        cases strict
      · exact across a inside b behind tied

/-- The list with one and the same change made at each of some places. -/
def changeAt (change : α → α) (places : List Nat) (xs : List α) : List α :=
  places.foldl (fun ys place => ys.modify place change) xs

/-- A change that may be made twice is made just where it is meant to be. -/
theorem getElem?_changeAt {change : α → α} (twice : ∀ a, change (change a) = change a)
    (places : List Nat) (xs : List α) (k : Nat) :
    (changeAt change places xs)[k]? =
      xs[k]?.map fun a => if k ∈ places then change a else a := by
  induction places generalizing xs with
  | nil => simp [changeAt]
  | cons place places ih =>
    have step : changeAt change (place :: places) xs =
        changeAt change places (xs.modify place change) := rfl
    rw [step, ih, List.getElem?_modify, Option.map_eq_map, Option.map_map]
    congr 1
    funext a
    by_cases here : place = k
    · subst here
      simp [twice]
    · simp [here, Ne.symm here]

end Lists

/-! ## The places that are taken -/

namespace End

/-- Whether a face may stand before another one: larger faces come first for the highest dice,
smaller ones for the lowest. -/
def inOrder : End → (face other : Number) → Bool
  | .highest, face, other => decide (other ≤ face)
  | .lowest, face, other => decide (face ≤ other)

theorem inOrder_trans {e : End} {a b c : Number} (first : e.inOrder a b = true)
    (second : e.inOrder b c = true) : e.inOrder a c = true := by
  cases e <;> simp only [inOrder, decide_eq_true_eq, Number.le_iff] at * <;> omega

theorem inOrder_total (e : End) (a b : Number) : (e.inOrder a b || e.inOrder b a) = true := by
  cases e <;> simp only [inOrder, Bool.or_eq_true, decide_eq_true_eq, Number.le_iff] <;> omega

theorem inOrder_self (e : End) (a : Number) : e.inOrder a a = true := by
  simpa using e.inOrder_total a a

/-- What the sort by faces leaves in order, with ties in the order of the places, is in the order in
which dice are taken. -/
theorem not_ahead_of_inOrder {e : End} {a b : Placed} (sorted : e.inOrder a.1 b.1 = true)
    (tied : e.inOrder b.1 a.1 = true → a.2 < b.2) : (!e.ahead b a) = true := by
  simp only [Bool.not_eq_true', Bool.eq_false_iff, ne_eq, ahead_iff]
  rintro (better | ⟨same, earlier⟩)
  · cases e <;>
      simp only [inOrder, End.better, decide_eq_true_eq, Number.lt_iff, Number.le_iff] at * <;>
      omega
  · have later := tied (same ▸ e.inOrder_self b.1)
    omega

end End

namespace Die

/-- The die, taken out of the result. -/
def discard (d : Die) : Die := { d with discarded := true }

/-- The die, put back into the result. -/
def putBack (d : Die) : Die := { d with discarded := false }

end Die

namespace Selection

/-- The places of the dice that count, in the order in which they fell. -/
def keptPlaces (dice : List Die) : List (Fin dice.length) :=
  (List.finRange dice.length).filter fun i => (dice.get i).isKept

/-- The same places, sorted by the faces that lie there. -/
def sortedPlaces (e : End) (dice : List Die) : List (Fin dice.length) :=
  (keptPlaces dice).mergeSort fun i j => e.inOrder (dice.get i).face (dice.get j).face

/-- The places of the dice that a selection takes. -/
def takenPlaces (s : Selection) (dice : List Die) : List Nat :=
  ((sortedPlaces s.fromEnd dice).take s.quota).map Fin.val

/-- The dice with the marks that a selection leaves on them, place by place. -/
def applyByPlace (s : Selection) (dice : List Die) : List Die :=
  match s.effect with
  | .keep => changeAt Die.putBack (s.takenPlaces dice) (dice.map Die.discard)
  | .drop => changeAt Die.discard (s.takenPlaces dice) dice

/-- The face at a place, with the place. -/
def placed (dice : List Die) (i : Fin dice.length) : Placed := ((dice.get i).face, i)

theorem placed_injective (dice : List Die) : Function.Injective (placed dice) :=
  fun _ _ same => Fin.ext (congrArg Prod.snd same)

theorem pairwise_keptPlaces (dice : List Die) : (keptPlaces dice).Pairwise (· < ·) :=
  (List.pairwise_lt_finRange _).filter _

/-- Sorted by faces alone, the dice that count stand in the order in which they are taken. -/
theorem map_placed_sortedPlaces (e : End) (dice : List Die) :
    (sortedPlaces e dice).map (placed dice) = ranked e dice := by
  let le := fun i j : Fin dice.length => e.inOrder (dice.get i).face (dice.get j).face
  have trans : ∀ i j k, le i j = true → le j k = true → le i k = true :=
    fun _ _ _ => End.inOrder_trans
  have total : ∀ i j, (le i j || le j i) = true := fun _ _ => e.inOrder_total _ _
  have sorted := List.pairwise_mergeSort trans total (keptPlaces dice)
  have stable := pairwise_mergeSort_of_tied trans total (pairwise_keptPlaces dice)
  refine (ranked_eq_of_perm ?_ ?_).symm
  · rw [List.pairwise_map]
    exact sorted.imp₂ (fun _ _ before tied => End.not_ahead_of_inOrder before tied) stable
  · rw [eligible_eq_finRange]
    exact (List.mergeSort_perm _ _).map _

theorem placed_mem_eligible_iff {dice : List Die} {i : Fin dice.length} :
    placed dice i ∈ eligible dice ↔ (dice.get i).isKept = true := by
  refine ⟨fun mem => ?_, mem_eligible_of_isKept⟩
  rw [eligible_eq_finRange] at mem
  obtain ⟨j, listed, same⟩ := List.mem_map.1 mem
  obtain rfl : j = i := placed_injective dice same
  exact (List.mem_filter.1 listed).2

theorem mem_takenPlaces_iff {s : Selection} {dice : List Die} {i : Fin dice.length} :
    i.val ∈ s.takenPlaces dice ↔ takes s.fromEnd (s.lastTaken dice) (dice.get i) i = true := by
  have front : i.val ∈ s.takenPlaces dice ↔
      placed dice i ∈ (ranked s.fromEnd dice).take s.quota := by
    rw [← map_placed_sortedPlaces, ← List.map_take,
      List.mem_map_of_injective (placed_injective dice), takenPlaces,
      List.mem_map_of_injective fun _ _ => Fin.ext]
  rw [front, takes, Bool.and_eq_true]
  constructor
  · intro mem
    have counts := (perm_ranked s.fromEnd dice).mem_iff.1 (List.mem_of_mem_take mem)
    exact ⟨placed_mem_eligible_iff.1 counts, (s.reaches_iff_mem_take dice counts).2 mem⟩
  · rintro ⟨kept, reached⟩
    exact (s.reaches_iff_mem_take dice (placed_mem_eligible_iff.2 kept)).1 reached

/-! ## The same marks -/

theorem mark_keep (taken : Bool) (d : Die) :
    mark .keep taken d = if taken = true then d.discard.putBack else d.discard := by
  cases taken <;> rfl

theorem mark_drop (taken : Bool) (d : Die) :
    mark .drop taken d = if taken = true then d.discard else d := by
  cases taken <;> simp [mark, Die.discard]

theorem getElem?_apply (s : Selection) (dice : List Die) (k : Nat) :
    (s.apply dice)[k]? =
      dice[k]?.map fun d => mark s.effect (takes s.fromEnd (s.lastTaken dice) d k) d := by
  rw [apply, List.getElem?_map, List.getElem?_zipIdx, Option.map_map, Nat.zero_add]
  rfl

/-- **Sorting by faces and marking by place comes to the same**: the order without ties and the one
comparison for each die leave the marks that are left where the dice that count are sorted by their
faces alone, and the front of them is put back among dice that have all been discarded, or is
discarded. -/
theorem apply_eq_applyByPlace (s : Selection) (dice : List Die) :
    s.apply dice = s.applyByPlace dice := by
  apply List.ext_getElem?
  intro k
  have taken : ∀ d, dice[k]? = some d →
      (k ∈ s.takenPlaces dice ↔ takes s.fromEnd (s.lastTaken dice) d k = true) := by
    intro d here
    obtain ⟨within, rfl⟩ := List.getElem?_eq_some_iff.1 here
    exact @mem_takenPlaces_iff s dice ⟨k, within⟩
  rw [getElem?_apply, applyByPlace]
  cases s.effect with
  | keep =>
    have twice : ∀ d : Die, d.putBack.putBack = d.putBack := fun _ => rfl
    rw [getElem?_changeAt twice, List.getElem?_map, Option.map_map]
    refine Option.map_congr fun d here => ?_
    rw [mark_keep, Function.comp_apply, if_congr (taken d here) rfl rfl]
  | drop =>
    have twice : ∀ d : Die, d.discard.discard = d.discard := fun _ => rfl
    rw [getElem?_changeAt twice]
    refine Option.map_congr fun d here => ?_
    rw [mark_drop, if_congr (taken d here) rfl rfl]

end Selection

end TabletopDice
