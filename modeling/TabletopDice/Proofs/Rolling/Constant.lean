import TabletopDice.Proofs.Bounds.Expressions
import TabletopDice.Proofs.Rolling.Determinism
import TabletopDice.Proofs.Totals.Rolls

/-!
# Where every die shows the same face

If the dice of a term show nothing but one face, there is one way for them to settle and one roll
that they can make (`Dice.uniform`). A die takes two faces if the face is rolled once more, and one
face otherwise. In the latter case the face must not explode: the next one would explode as well,
and so would all the others, and the die would never come to rest. A reroll comes first, so it does
not matter whether a face that is rolled once more explodes.

Each die then leaves one face that counts, and a selection among equal faces is a matter of numbers.
So everything that is asked of such a roll has a closed form (`Source.roll_constant`), for the source
that gives a face of one's choice and for the one that gives the highest face of each die.
-/

set_option autoImplicit false

namespace TabletopDice

namespace Dice

variable {d : Dice} {v : Number}

/-- The throws of a term whose dice show nothing but one face. -/
def uniform (d : Dice) (v : Number) : List (List Number) :=
  List.replicate d.count.toNat (if d.rerolls v then [v, v] else [v])

theorem settled_same_iff :
    d.Settled (if d.rerolls v then [v, v] else [v]) ↔
      d.rerolls v = true ∨ d.explodes v = false := by
  cases again : d.rerolls v <;> simp [Settled, Chain, again]

theorem settled_uniform_iff :
    (∀ faces ∈ d.uniform v, d.Settled faces) ↔
      d.count = 0 ∨ d.rerolls v = true ∨ d.explodes v = false := by
  have diceless : d.count = 0 ↔ d.count.toNat = 0 := Count.ext_iff
  rw [uniform, List.forall_mem_replicate, settled_same_iff, diceless]

theorem mem_flatten_uniform {face : Number} (mem : face ∈ (d.uniform v).flatten) : face = v := by
  obtain ⟨faces, thrown, within⟩ := List.mem_flatten.1 mem
  rw [List.eq_of_mem_replicate thrown] at within
  cases again : d.rerolls v <;> simpa [again] using within

theorem length_dice_uniform :
    (d.settle (d.uniform v)).dice.length =
      if d.rerolls v then 2 * d.count.toNat else d.count.toNat := by
  rw [length_dice_settle]
  cases again : d.rerolls v <;> simp [uniform, again, Nat.mul_comm]

theorem length_kept_uniform :
    (Die.kept (d.settle (d.uniform v)).dice).length = d.remaining := by
  refine length_kept_settle List.length_replicate fun faces mem => ?_
  rw [List.eq_of_mem_replicate mem]
  cases again : d.rerolls v <;> simp [fallen, Die.kept, Die.isKept, again]

theorem countedFaces_uniform :
    (d.settle (d.uniform v)).countedFaces = List.replicate d.remaining v := by
  refine List.eq_replicate_iff.2 ⟨?_, fun face mem => ?_⟩
  · rw [Roll.countedFaces, List.length_map, length_kept_uniform]
  · exact mem_flatten_uniform (mem_flatten_of_mem_kept mem)

theorem total_uniform :
    (d.settle (d.uniform v)).total.toInt =
      match d.successes with
      | none => max (-2147483648) (min 2147483647 (d.remaining * v.toInt))
      | some c => if c.holds v then min (d.remaining : Int) 2147483647 else 0 := by
  have sign : Roll.OneSign (d.settle (d.uniform v)).countedFaces :=
    countedFaces_uniform ▸ Roll.OneSign.replicate d.remaining v
  have term : (d.settle (d.uniform v)).term = d := rfl
  rw [Roll.total_eq_clamp fun _ => sign, Roll.exactTotal, countedFaces_uniform, term,
    Number.toInt_clamp]
  cases d.successes with
  | none => rw [exactSum_replicate]
  | some c =>
    simp only [List.countP_replicate]
    split <;> omega

end Dice

namespace Source

variable {σ : Type} {next : σ → (sides : Number) → Number × σ} {d : Dice} {v : Number}

/-- If the dice of a term show nothing but one face, there is one roll that they make. -/
theorem eq_uniform_of_completes (shows : ∀ s, (next s d.sides).1 = v) {s t : Nat × σ} {r : Roll}
    (done : ((limited next).roll d).Completes s r t) :
    r = d.settle (d.uniform v) ∧ ∀ faces ∈ d.uniform v, d.Settled faces := by
  obtain ⟨⟨groups, length, settled, rfl⟩, draws⟩ := (completes_roll_iff _).1 done
  have drawn : ∀ die ∈ (d.settle groups).dice, die.sides = d.sides → die.face = v := by
    refine forall_mem_of_draws_limited (P := fun sides face => sides = d.sides → face = v) ?_ draws
    rintro s _ rfl
    exact shows s
  have faces := (Dice.forall_mem_settle (P := fun sides face => sides = d.sides → face = v)).1 drawn
  obtain rfl : groups = d.uniform v :=
    Dice.eq_replicate_of_forall_eq length settled fun face mem => faces face mem rfl
  exact ⟨rfl, settled⟩

/-- They do so if the face does not explode, or is rolled once more. -/
theorem rests_of_shows (shows : ∀ s, (next s d.sides).1 = v)
    (tame : d.rerolls v = true ∨ d.explodes v = false) : Rests next d := by
  intro s
  have draw : ∀ s, next s d.sides = (v, (next s d.sides).2) := fun s => Prod.ext (shows s) rfl
  have settled := Dice.settled_same_iff.2 tame
  cases again : d.rerolls v with
  | true =>
    rw [again, if_pos rfl] at settled
    exact ⟨[v, v], _, settled, draws_limited_succ (draw s) (draws_limited_succ (draw _) rfl)⟩
  | false =>
    rw [again, if_neg Bool.false_ne_true] at settled
    exact ⟨[v], _, settled, draws_limited_succ (draw s) rfl⟩

theorem exists_completes_roll_iff (shows : ∀ s, (next s d.sides).1 = v) (s : σ) :
    (∃ n r t, ((limited next).roll d).Completes (n, s) r t) ↔
      d.count = 0 ∨ d.rerolls v = true ∨ d.explodes v = false := by
  constructor
  · rintro ⟨n, r, t, done⟩
    exact Dice.settled_uniform_iff.1 (eq_uniform_of_completes shows done).2
  · intro ends
    have rests : 0 < d.count.toNat → Rests next d := by
      intro wanted
      obtain diceless | tame := ends
      · rw [diceless] at wanted
        cases wanted
      · exact rests_of_shows shows tame
    obtain ⟨groups, t, length, settled, draws⟩ := exists_groups_of_rests d.count.toNat rests s
    have done := (completes_roll_iff _).2 ⟨⟨groups, length, settled, rfl⟩, draws_settle.2 draws⟩
    exact ⟨_, _, _, done⟩

/-- **What is rolled where every die shows the same face.** The roll comes to an end unless there are
dice and the face stands and explodes, and then the number of its dice, the number of those that
count and the total are those of that many equal faces. -/
theorem roll_constant (d : Dice) (v : Number) (src : Source (Nat × Unit))
    (same : src = constant v ∨ src = highest ∧ v = d.sides) :
    ((∃ n r t, (src.roll d).Completes (n, ()) r t) ↔
        d.count = 0 ∨ d.rerolls v = true ∨ d.explodes v = false) ∧
      ∀ n r t, (src.roll d).Completes (n, ()) r t →
        r.dice.length = (if d.rerolls v then 2 * d.count.toNat else d.count.toNat) ∧
          (Die.kept r.dice).length = d.remaining ∧
            r.total.toInt =
              match d.successes with
              | none => max (-2147483648) (min 2147483647 (d.remaining * v.toInt))
              | some c => if c.holds v then min (d.remaining : Int) 2147483647 else 0 := by
  obtain ⟨next, rfl, shows⟩ : ∃ next : Unit → (sides : Number) → Number × Unit,
      src = limited next ∧ ∀ s, (next s d.sides).1 = v := by
    obtain rfl | ⟨rfl, rfl⟩ := same
    · exact ⟨_, rfl, fun _ => rfl⟩
    · exact ⟨_, rfl, fun _ => rfl⟩
  refine ⟨exists_completes_roll_iff shows (), fun n r t done => ?_⟩
  obtain ⟨rfl, -⟩ := eq_uniform_of_completes shows done
  exact ⟨Dice.length_dice_uniform, Dice.length_kept_uniform, Dice.total_uniform⟩

/-- Seven dice less the lowest one. A six is rolled once more, and explodes where it is not. -/
def restless : Dice :=
  { count := ⟨7, by decide⟩, sides := Number.clamp 6, reroll := some ⟨.equal, Number.clamp 6⟩,
    explode := some ⟨.equal, Number.clamp 6⟩, select := some ⟨.drop, .lowest, 1⟩ }

theorem roll_constant_restless :
    (∃ n r t, (highest.roll restless).Completes (n, ()) r t ∧ r.dice.length = 14 ∧
        (Die.kept r.dice).length = 6 ∧ r.total.toInt = 36) ∧
      ∀ n r t, ¬ ((constant (Number.clamp 6)).roll { restless with reroll := none }).Completes
        (n, ()) r t := by
  constructor
  · obtain ⟨ends, comes⟩ := roll_constant restless (Number.clamp 6) highest (.inr ⟨rfl, rfl⟩)
    obtain ⟨n, r, t, done⟩ := ends.2 (by decide)
    obtain ⟨length, kept, total⟩ := comes n r t done
    exact ⟨n, r, t, done, length, kept, total⟩
  · intro n r t done
    obtain ⟨ends, -⟩ := roll_constant { restless with reroll := none } (Number.clamp 6)
      (constant (Number.clamp 6)) (.inl rfl)
    exact absurd (ends.1 ⟨n, r, t, done⟩) (by decide)

end Source

end TabletopDice
