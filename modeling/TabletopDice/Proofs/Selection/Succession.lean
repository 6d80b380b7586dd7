import TabletopDice.Proofs.Bounds.Interval
import TabletopDice.Proofs.Selection.Ranks

/-!
# One selection after another

The second of two selections finds fewer dice that count than the first one did, and it puts them in
order anew. If both start at the same end, that is no new order: what the first one has left is the
front or the rest of a sorted list, and still sorted (`Selection.ranked_apply`). So two fronts are
the shorter one, and dropping twice is dropping as many dice in one go.

From opposite ends two orders meet, and they are not the reverse of each other: among equal faces
both of them take the die that fell first. Which dice stay is therefore counted, face by face.
Before a die that counts come, seen from either end, the dice with a face nearer to that end
(`Selection.nearer`), and from both ends alike the dice with the same face that fell earlier
(`Selection.earlier`). It stays if there are enough dice before it at the one end, enough at the
other end, and enough for both together where the same dice come before it at both
(`Selection.mem_eligible_drop_drop`). That says the same of the two ends, so neither drop has to be
the first one.
-/

set_option autoImplicit false

namespace TabletopDice

namespace End

/-- The other end. -/
def opposite : End → End
  | .highest => .lowest
  | .lowest => .highest

theorem better_self (e : End) (face : Number) : e.better face face = false := by
  cases e <;> simp [better, Number.lt_iff]

end End

namespace Selection

/-! ## Dice told apart by their marks -/

theorem mem_eligible_iff {dice : List Die} {p : Placed} :
    p ∈ eligible dice ↔ ∃ die, dice[p.2]? = some die ∧ die.isKept = true ∧ die.face = p.1 := by
  obtain ⟨face, i⟩ := p
  unfold eligible
  simp only [List.mem_map, List.mem_filter, Prod.exists, Prod.mk.injEq,
    List.mem_zipIdx_iff_getElem?]
  constructor
  · rintro ⟨die, j, ⟨here, kept⟩, shown, rfl⟩
    exact ⟨die, here, kept, shown⟩
  · rintro ⟨die, here, kept, shown⟩
    exact ⟨die, i, ⟨here, kept⟩, shown, rfl⟩

/-- Where faces and sides are the same, dice can differ in nothing but which of them count. -/
theorem eq_of_eligible {dice others : List Die} (faces : dice.map Die.face = others.map Die.face)
    (sides : dice.map Die.sides = others.map Die.sides)
    (same : ∀ p, p ∈ eligible dice ↔ p ∈ eligible others) : dice = others := by
  have length : dice.length = others.length := by
    rw [← List.length_map (f := Die.face), faces, List.length_map]
  apply List.ext_getElem length
  intro i here there
  have face : dice[i].face = others[i].face := by
    simpa [here, there] using congrArg (fun l : List Number => l[i]?) faces
  have side : dice[i].sides = others[i].sides := by
    simpa [here, there] using congrArg (fun l : List Number => l[i]?) sides
  have counts := same (others[i].face, i)
  simp only [mem_eligible_iff, List.getElem?_eq_getElem here, List.getElem?_eq_getElem there,
    Option.some.injEq, exists_eq_left', face, and_true] at counts
  have mark : dice[i].discarded = others[i].discarded := by
    unfold Die.isKept at counts
    cases first : dice[i].discarded <;> cases second : others[i].discarded <;>
      simp [first, second] at counts ⊢
  exact Die.ext face side mark

theorem eq_of_ranked {dice others : List Die} (e : End)
    (faces : dice.map Die.face = others.map Die.face)
    (sides : dice.map Die.sides = others.map Die.sides) (same : ranked e dice = ranked e others) :
    dice = others := by
  refine eq_of_eligible faces sides fun p => ?_
  rw [← (perm_ranked e dice).mem_iff, same, (perm_ranked e others).mem_iff]

/-! ## From the same end -/

theorem ranked_keep (e : End) (n : Number) (dice : List Die) :
    ranked e (apply ⟨.keep, e, n⟩ dice) = (ranked e dice).take n.toInt.toNat :=
  ranked_apply ⟨.keep, e, n⟩ dice

theorem ranked_drop (e : End) (n : Number) (dice : List Die) :
    ranked e (apply ⟨.drop, e, n⟩ dice) = (ranked e dice).drop n.toInt.toNat :=
  ranked_apply ⟨.drop, e, n⟩ dice

theorem apply_keep_keep (e : End) (a b : Number) (dice : List Die) :
    apply ⟨.keep, e, b⟩ (apply ⟨.keep, e, a⟩ dice) = apply ⟨.keep, e, min a b⟩ dice := by
  apply eq_of_ranked e
  · simp only [map_face_apply]
  · simp only [map_sides_apply]
  · have shorter : min b.toInt.toNat a.toInt.toNat = (min a b).toInt.toNat := by
      rw [Number.toInt_min]
      omega
    rw [ranked_keep, ranked_keep, ranked_keep, List.take_take, shorter]

theorem apply_drop_drop (e : End) {a b c : Number} (dice : List Die)
    (sum : c.toInt = max a.toInt 0 + max b.toInt 0) :
    apply ⟨.drop, e, b⟩ (apply ⟨.drop, e, a⟩ dice) = apply ⟨.drop, e, c⟩ dice := by
  apply eq_of_ranked e
  · simp only [map_face_apply]
  · simp only [map_sides_apply]
  · have together : a.toInt.toNat + b.toInt.toNat = c.toInt.toNat := by omega
    rw [ranked_drop, ranked_drop, ranked_drop, List.drop_drop, together]

/-! ## From opposite ends -/

theorem countP_place_eq_zero {xs : List Placed} {bound : Nat} (behind : ∀ q ∈ xs, bound ≤ q.2) :
    xs.countP (fun q => decide (q.2 < bound)) = 0 := by
  refine List.countP_eq_zero.2 fun q mem => ?_
  rw [decide_eq_true_eq, Nat.not_lt]
  exact behind q mem

/-- In a list in the order of places, the dice before a bound that have at least `k` others before
them are all dice before the bound but the first `k`. -/
theorem countP_place {xs : List Placed} (sorted : xs.Pairwise fun a b => a.2 < b.2)
    (k bound : Nat) :
    xs.countP (fun q => decide (q.2 < bound) &&
        decide (k ≤ xs.countP fun r => decide (r.2 < q.2))) =
      xs.countP (fun q => decide (q.2 < bound)) - k := by
  induction xs generalizing k with
  | nil => simp
  | cons first xs ih =>
    obtain ⟨behind, sorted⟩ := List.pairwise_cons.1 sorted
    have noneEarlier : xs.countP (fun r => decide (r.2 < first.2)) = 0 :=
      countP_place_eq_zero fun r mem => Nat.le_of_lt (behind r mem)
    -- behind the first die, one more of them is before each
    have others : xs.countP (fun q => decide (q.2 < bound) &&
          decide (k ≤ (first :: xs).countP fun r => decide (r.2 < q.2))) =
        xs.countP fun q => decide (q.2 < bound) &&
          decide (k - 1 ≤ xs.countP fun r => decide (r.2 < q.2)) := by
      refine List.countP_congr fun q mem => ?_
      have before := behind q mem
      simp only [List.countP_cons, before, decide_true, if_true, Bool.and_eq_true,
        decide_eq_true_eq]
      omega
    rw [List.countP_cons, others, ih sorted, List.countP_cons (l := xs)]
    by_cases early : first.2 < bound
    · simp only [early, decide_true, Bool.true_and, List.countP_cons, noneEarlier, Nat.lt_irrefl,
        decide_false, Bool.false_eq_true, if_false, if_true, decide_eq_true_eq, Nat.zero_add]
      split <;> omega
    · -- and nothing behind the first die is before the bound
      have late : xs.countP (fun q => decide (q.2 < bound)) = 0 :=
        countP_place_eq_zero fun q mem =>
          Nat.le_trans (Nat.not_lt.1 early) (Nat.le_of_lt (behind q mem))
      simp [early, late]

/-- How many of the dice have a face nearer to the end. -/
def nearer (e : End) (xs : List Placed) (face : Number) : Nat :=
  xs.countP fun q => e.better q.1 face

/-- How many of the dice with the same face fell earlier. -/
def earlier (xs : List Placed) (p : Placed) : Nat :=
  (xs.filter fun q => decide (q.1 = p.1)).countP fun q => decide (q.2 < p.2)

theorem countP_ahead (e : End) (xs : List Placed) (p : Placed) :
    xs.countP (e.ahead · p) = nearer e xs p.1 + earlier xs p := by
  unfold nearer earlier
  rw [List.countP_eq_countP_filter_add xs _ fun q => e.better q.1 p.1, List.countP_filter,
    List.countP_filter, List.countP_filter]
  congr 1
  · refine List.countP_congr fun q _ => ?_
    simpa [End.ahead] using Or.inl
  · refine List.countP_congr fun q _ => ?_
    by_cases same : q.1 = p.1
    · simp [End.ahead, same, End.better_self]
    · simp [End.ahead, same]

/-- A selection goes as far as a die if not enough of the others come before it. -/
theorem reaches_iff (s : Selection) {dice : List Die} {p : Placed} (mem : p ∈ eligible dice) :
    s.reaches dice p = true ↔
      nearer s.fromEnd (eligible dice) p.1 + earlier (eligible dice) p < s.quota := by
  rw [← countP_ahead]
  exact reaches_iff_countP s dice mem

theorem leaves_drop_iff {e : End} {n : Number} {dice : List Die} {p : Placed}
    (mem : p ∈ eligible dice) :
    leaves ⟨.drop, e, n⟩ dice p = true ↔
      n.toInt.toNat ≤ nearer e (eligible dice) p.1 + earlier (eligible dice) p := by
  rw [← Nat.not_lt]
  simpa [leaves, quota] using not_congr (reaches_iff ⟨.drop, e, n⟩ mem)

theorem mem_eligible_keep {e : End} {n : Number} {dice : List Die} {p : Placed} :
    p ∈ eligible (apply ⟨.keep, e, n⟩ dice) ↔
      p ∈ eligible dice ∧
        nearer e (eligible dice) p.1 + earlier (eligible dice) p < n.toInt.toNat := by
  rw [eligible_apply, List.mem_filter]
  exact and_congr_right (reaches_iff ⟨.keep, e, n⟩)

theorem mem_eligible_drop {e : End} {n : Number} {dice : List Die} {p : Placed} :
    p ∈ eligible (apply ⟨.drop, e, n⟩ dice) ↔
      p ∈ eligible dice ∧
        n.toInt.toNat ≤ nearer e (eligible dice) p.1 + earlier (eligible dice) p := by
  rw [eligible_apply, List.mem_filter]
  exact and_congr_right leaves_drop_iff

section Opposite

variable {e : End} {n : Number} {dice : List Die} {p : Placed}

/-- Dropping dice at one end does not reach those that are nearer to the other end than one that
stays. -/
theorem nearer_opposite_drop (stays : p ∈ eligible (apply ⟨.drop, e, n⟩ dice)) :
    nearer e.opposite (eligible (apply ⟨.drop, e, n⟩ dice)) p.1 =
      nearer e.opposite (eligible dice) p.1 := by
  have enough := (mem_eligible_drop.1 stays).2
  unfold nearer
  rw [eligible_apply, List.countP_filter]
  refine List.countP_congr fun q mem => ?_
  rw [Bool.and_eq_true, and_iff_left_iff_imp, leaves_drop_iff mem, ← countP_ahead]
  intro farther
  rw [← countP_ahead] at enough
  -- whatever is ahead of the one die is ahead of the other one too
  refine Nat.le_trans enough (List.countP_mono_left fun r _ ahead => ?_)
  cases e <;> simp only [End.ahead_iff, End.opposite, End.better, decide_eq_true_eq,
    Number.lt_iff, Number.ext_iff] at farther ahead ⊢ <;> omega

/-- Of the dice with one face, those are dropped first that fell first. -/
theorem earlier_drop (p : Placed) :
    earlier (eligible (apply ⟨.drop, e, n⟩ dice)) p =
      earlier (eligible dice) p - (n.toInt.toNat - nearer e (eligible dice) p.1) := by
  have sorted := (pairwise_place_eligible dice).filter fun q => decide (q.1 = p.1)
  have swap : ∀ f g : Placed → Bool,
      ((eligible dice).filter f).filter g = ((eligible dice).filter g).filter f := by
    intro f g
    simp only [List.filter_filter, Bool.and_comm]
  unfold earlier
  rw [← countP_place sorted, eligible_apply, swap, List.countP_filter]
  refine List.countP_congr fun q mem => ?_
  obtain ⟨mem, same⟩ := List.mem_filter.1 mem
  rw [Bool.and_eq_true, Bool.and_eq_true, leaves_drop_iff mem, decide_eq_true_iff (p := _ ≤ _)]
  rw [earlier, of_decide_eq_true same]
  refine and_congr_right fun _ => ?_
  omega

theorem mem_eligible_drop_drop {m : Number} :
    p ∈ eligible (apply ⟨.drop, e.opposite, m⟩ (apply ⟨.drop, e, n⟩ dice)) ↔
      p ∈ eligible dice ∧
        n.toInt.toNat ≤ nearer e (eligible dice) p.1 + earlier (eligible dice) p ∧
        m.toInt.toNat ≤ nearer e.opposite (eligible dice) p.1 + earlier (eligible dice) p ∧
        n.toInt.toNat + m.toInt.toNat ≤ nearer e (eligible dice) p.1 +
          nearer e.opposite (eligible dice) p.1 + earlier (eligible dice) p := by
  rw [mem_eligible_drop]
  constructor
  · rintro ⟨stays, enough⟩
    rw [nearer_opposite_drop stays, earlier_drop p] at enough
    obtain ⟨mem, first⟩ := mem_eligible_drop.1 stays
    refine ⟨mem, first, ?_, ?_⟩ <;> omega
  · rintro ⟨mem, first, second, both⟩
    have stays := mem_eligible_drop.2 ⟨mem, first⟩
    refine ⟨stays, ?_⟩
    rw [nearer_opposite_drop stays, earlier_drop p]
    omega

end Opposite

theorem apply_drop_comm (a b : Number) (dice : List Die) :
    apply ⟨.drop, .lowest, b⟩ (apply ⟨.drop, .highest, a⟩ dice) =
      apply ⟨.drop, .highest, a⟩ (apply ⟨.drop, .lowest, b⟩ dice) := by
  apply eq_of_eligible
  · simp only [map_face_apply]
  · simp only [map_sides_apply]
  · intro p
    change p ∈ eligible (apply ⟨.drop, End.highest.opposite, b⟩ _) ↔
      p ∈ eligible (apply ⟨.drop, End.lowest.opposite, a⟩ _)
    rw [mem_eligible_drop_drop, mem_eligible_drop_drop]
    refine and_congr_right fun _ => ?_
    simp only [End.opposite]
    omega

/-- **Two selections one after the other.** From the same end, to keep some dice and then some of
those is to keep the fewer of the two, and to drop some and then some more is to drop that many in
one go. From opposite ends it makes no difference which dice are dropped first. -/
theorem apply_apply (dice : List Die) (a b : Number) :
    (∀ e, apply ⟨.keep, e, b⟩ (apply ⟨.keep, e, a⟩ dice) = apply ⟨.keep, e, min a b⟩ dice) ∧
      (∀ (e : End) (c : Number), c.toInt = max a.toInt 0 + max b.toInt 0 →
        apply ⟨.drop, e, b⟩ (apply ⟨.drop, e, a⟩ dice) = apply ⟨.drop, e, c⟩ dice) ∧
        apply ⟨.drop, .lowest, b⟩ (apply ⟨.drop, .highest, a⟩ dice) =
          apply ⟨.drop, .highest, a⟩ (apply ⟨.drop, .lowest, b⟩ dice) := by
  refine ⟨fun e => apply_keep_keep e a b dice, ?_, apply_drop_comm a b dice⟩
  intro e c sum
  exact apply_drop_drop e dice sum

/-- Three fours, one of them out of the game, with a two and a six. -/
def tied : List Die :=
  [⟨Number.clamp 4, Number.clamp 6, false⟩, ⟨Number.clamp 2, Number.clamp 6, false⟩,
    ⟨Number.clamp 4, Number.clamp 6, true⟩, ⟨Number.clamp 6, Number.clamp 6, false⟩,
    ⟨Number.clamp 4, Number.clamp 6, false⟩]

/-- The first four goes after the six, and the one that is out is passed over. -/
theorem apply_apply_tied :
    (Number.clamp 4, 0) ∉ eligible (apply ⟨.drop, .highest, 1⟩ (apply ⟨.drop, .highest, 1⟩ tied)) ∧
      (Number.clamp 4, 4) ∈
        eligible (apply ⟨.drop, .highest, 1⟩ (apply ⟨.drop, .highest, 1⟩ tied)) ∧
      apply ⟨.drop, .lowest, 1⟩ (apply ⟨.drop, .highest, 1⟩ tied) =
        apply ⟨.drop, .highest, 1⟩ (apply ⟨.drop, .lowest, 1⟩ tied) := by
  obtain ⟨-, dropped, swapped⟩ := apply_apply tied 1 1
  have both := dropped .highest (Number.clamp 2) (by decide)
  rw [both, mem_eligible_drop, mem_eligible_drop]
  exact ⟨by decide, by decide, swapped⟩

end Selection

end TabletopDice
