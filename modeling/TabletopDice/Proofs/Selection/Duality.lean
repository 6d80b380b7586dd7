import TabletopDice.Proofs.Selection.Succession
import TabletopDice.Proofs.Totals.Rolls

/-!
# Keeping and dropping

To keep the highest dice and to drop them is to take the same dice, so whatever counted counts on
in one of the two cases. To keep the highest and to drop the lowest, so that as many are left, is
not to leave the same dice: where faces are equal, both ends take the die that fell first, and the
one that is left is the first in the one case and the last in the other.

The faces that are left are the same. In the order from one end they are those from the other end in
reverse (`Selection.map_fst_ranked_opposite`), and the front of a list is what its reverse has left
without the rest. For what the dice come to that is enough, as long as it does not matter in which
order they are added (`Selection.keep_drop_dual`).
-/

set_option autoImplicit false

namespace TabletopDice

namespace End

theorem better_opposite (e : End) (face other : Number) :
    e.opposite.better face other = e.better other face := by
  cases e <;> rfl

/-- Faces of which neither is nearer to the end are the same. -/
theorem eq_of_not_better {e : End} {face other : Number} (first : e.better other face = false)
    (second : e.better face other = false) : face = other := by
  cases e <;> simp only [better, decide_eq_false_iff_not, Number.lt_iff, Number.ext_iff] at * <;>
    omega

end End

namespace Selection

variable (e : End) (dice : List Die)

/-- The faces that count, and the faces in the order in which they are taken. -/
theorem perm_map_fst_ranked :
    ((Die.kept dice).map Die.face).Perm ((ranked e dice).map Prod.fst) := by
  rw [← map_fst_eligible]
  exact (perm_ranked e dice).symm.map Prod.fst

theorem pairwise_map_fst_ranked :
    ((ranked e dice).map Prod.fst).Pairwise fun face other => e.better other face = false := by
  rw [List.pairwise_map]
  refine (pairwise_ranked e dice).imp fun {a b} behind => ?_
  rw [Bool.not_eq_true', Bool.eq_false_iff, ne_eq, End.ahead_iff, not_or] at behind
  exact Bool.eq_false_iff.2 behind.1

/-- From the other end the faces come in reverse. -/
theorem map_fst_ranked_opposite :
    (ranked e.opposite dice).map Prod.fst = ((ranked e dice).map Prod.fst).reverse := by
  have sorted := pairwise_map_fst_ranked e.opposite dice
  have reversed : ((ranked e dice).map Prod.fst).reverse.Pairwise
      fun face other => e.opposite.better other face = false := by
    rw [List.pairwise_reverse]
    simpa only [End.better_opposite] using pairwise_map_fst_ranked e dice
  have same : ((ranked e.opposite dice).map Prod.fst).Perm ((ranked e dice).map Prod.fst) :=
    (perm_map_fst_ranked e.opposite dice).symm.trans (perm_map_fst_ranked e dice)
  exact List.Perm.eq_of_pairwise (fun _ _ _ _ => End.eq_of_not_better) sorted reversed
    (same.trans (List.reverse_perm _).symm)

variable {e dice}

/-- What is kept at one end shows the same faces as what is left when the others are dropped at the
other end. -/
theorem perm_keep_drop {n rest : Number} (wanted : 0 ≤ n.toInt) (others : 0 ≤ rest.toInt)
    (split : n.toInt + rest.toInt = (Die.kept dice).length) :
    ((Die.kept (apply ⟨.keep, e, n⟩ dice)).map Die.face).Perm
      ((Die.kept (apply ⟨.drop, e.opposite, rest⟩ dice)).map Die.face) := by
  have left : ((ranked e dice).map Prod.fst).length - rest.toInt.toNat = n.toInt.toNat := by
    rw [List.length_map, length_ranked]
    omega
  have front : (ranked e (apply ⟨.keep, e, n⟩ dice)).map Prod.fst =
      ((ranked e dice).map Prod.fst).take n.toInt.toNat := by
    rw [ranked_keep, List.map_take]
  have back : (ranked e.opposite (apply ⟨.drop, e.opposite, rest⟩ dice)).map Prod.fst =
      (((ranked e dice).map Prod.fst).take n.toInt.toNat).reverse := by
    rw [ranked_drop, List.map_drop, map_fst_ranked_opposite, List.drop_reverse, left]
  have keeps := perm_map_fst_ranked e (apply ⟨.keep, e, n⟩ dice)
  have drops := perm_map_fst_ranked e.opposite (apply ⟨.drop, e.opposite, rest⟩ dice)
  rw [front] at keeps
  rw [back] at drops
  exact keeps.trans ((List.reverse_perm _).symm.trans drops.symm)

/-- Of the dice that counted, those are kept that would have been dropped. -/
theorem isKept_keep_iff_discarded_drop {n : Number} {i : Fin dice.length}
    (counted : (dice.get i).isKept = true) :
    ((apply ⟨.keep, e, n⟩ dice).get (i.cast (length_apply _ dice).symm)).isKept = true ↔
      ((apply ⟨.drop, e, n⟩ dice).get (i.cast (length_apply _ dice).symm)).discarded = true := by
  have fresh : (dice.get i).discarded = false := by simpa [Die.isKept] using counted
  rw [get_apply, get_apply, isKept_mark]
  simp only [mark, fresh, Bool.false_or]
  rfl

/-- **Keeping dice at one end is dropping the others at the other end**, up to the order among equal
faces: the same faces are left, and they come to the same if they are successes to be counted or if
none is below zero. At the same end, what the one selection keeps is what the other one discards. -/
theorem keep_drop_dual (dice : List Die) (e : End) (n rest : Number) (wanted : 0 ≤ n.toInt)
    (others : 0 ≤ rest.toInt) (split : n.toInt + rest.toInt = (Die.kept dice).length) :
    (∀ i : Fin dice.length, (dice.get i).isKept = true →
        (((apply ⟨.keep, e, n⟩ dice).get (i.cast (length_apply _ dice).symm)).isKept = true ↔
          ((apply ⟨.drop, e, n⟩ dice).get (i.cast (length_apply _ dice).symm)).discarded = true)) ∧
      ((Die.kept (apply ⟨.keep, e, n⟩ dice)).map Die.face).Perm
        ((Die.kept (apply ⟨.drop, e.opposite, rest⟩ dice)).map Die.face) ∧
      ∀ term : Dice, (term.successes = none → ∀ die ∈ Die.kept dice, 0 ≤ die.face.toInt) →
        Roll.total ⟨{ term with select := some ⟨.keep, e, n⟩ }, apply ⟨.keep, e, n⟩ dice⟩ =
          Roll.total ⟨{ term with select := some ⟨.drop, e.opposite, rest⟩ },
            apply ⟨.drop, e.opposite, rest⟩ dice⟩ := by
  have faces := perm_keep_drop (e := e) wanted others split
  refine ⟨fun i counted => isKept_keep_iff_discarded_drop counted, faces, fun term real => ?_⟩
  refine Roll.total_congr rfl faces fun adds => .inl fun face mem => ?_
  have counted := (sublist_map_face_kept_apply _ dice).subset mem
  obtain ⟨die, kept, rfl⟩ := List.mem_map.1 counted
  exact real adds die kept

/-- Two of the four dice are wanted, the six and a four: it is the first four, or the last one. -/
theorem keep_drop_dual_tied :
    (Number.clamp 4, 0) ∈ eligible (apply ⟨.keep, .highest, Number.clamp 2⟩ tied) ∧
      (Number.clamp 4, 4) ∈ eligible (apply ⟨.drop, .lowest, Number.clamp 2⟩ tied) ∧
      (Number.clamp 4, 0) ∉ eligible (apply ⟨.drop, .lowest, Number.clamp 2⟩ tied) ∧
      ((Die.kept (apply ⟨.keep, .highest, Number.clamp 2⟩ tied)).map Die.face).Perm
        ((Die.kept (apply ⟨.drop, .lowest, Number.clamp 2⟩ tied)).map Die.face) := by
  obtain ⟨-, faces, -⟩ := keep_drop_dual tied .highest (Number.clamp 2) (Number.clamp 2)
    (by decide) (by decide) (by decide)
  rw [mem_eligible_keep, mem_eligible_drop, mem_eligible_drop]
  exact ⟨by decide, by decide, by decide, faces⟩

end Selection

end TabletopDice
