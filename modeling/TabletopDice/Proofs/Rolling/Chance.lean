import TabletopDice.Proofs.Rolling.Determinism
import TabletopDice.Proofs.Rolling.Resting

/-!
# Random dice come to rest

A die that explodes comes to rest with the first face that does not explode, and whether there will
be one is left to the supply. A supply finds a face if it gets closer to it with everything else
that it gives (`Source.Finds`), and one such face is enough for a die to come to rest. Since a
condition holds for all faces of a die if it holds for the lowest and the highest one, it is enough
to ask for these two: with a supply that finds them and gives nothing but faces of the dice
(`Source.Covers`), every expression that is not refused has an outcome
(`Source.exists_completes_of_covers`). Nothing else is asked of it, and above all not that it be
random.

The generator is such a supply (`Generator.covers`). Its states stand on a circle: each step adds
the same odd constant, so every state is met on the way from any other, and what is left of the way
is known beforehand (`Generator.remaining`). Two of the states have words that stand for the lowest
and the highest face whatever the number of sides, and neither word is ever passed over.
-/

set_option autoImplicit false

namespace TabletopDice

theorem Die.CanShow.withinSides {sides face : Number} (shown : CanShow sides face) :
    WithinSides sides face := by
  intro real
  rwa [CanShow, if_neg (Number.not_lt.2 real)] at shown

namespace Source

variable {σ : Type}

/-- Wherever the supply stands, it gives the face next or is closer to it afterwards. -/
def Finds (next : σ → (sides : Number) → Number × σ) (sides face : Number) : Prop :=
  ∃ distance : σ → Nat, ∀ s, (next s sides).1 = face ∨ distance (next s sides).2 < distance s

variable {next : σ → (sides : Number) → Number × σ}

theorem exists_chain_of_finds {d : Dice} {face : Number} (calm : d.explodes face = false)
    (finds : Finds next d.sides face) (s : σ) :
    ∃ faces t, d.Chain faces ∧ (limited next).Draws (faces.length, s) (d.showing faces) (0, t) := by
  obtain ⟨distance, closer⟩ := finds
  -- the dice that follow an exploding one start from a state with less of the way to go
  induction way : distance s using Nat.strongRecOn generalizing s with
  | ind way_s ih =>
    subst way
    let drawn := next s d.sides
    cases explodes : d.explodes drawn.1 with
    | false =>
      have chain : d.Chain [drawn.1] := by simp [Dice.Chain, explodes]
      exact ⟨[drawn.1], drawn.2, chain, draws_limited_succ rfl rfl⟩
    | true =>
      have less : distance drawn.2 < distance s := by
        obtain found | less := closer s
        · rw [show drawn.1 = face from found, calm] at explodes
          cases explodes
        · exact less
      obtain ⟨faces, t, chain, draws⟩ := ih _ less drawn.2 rfl
      have longer : d.Chain (drawn.1 :: faces) := by simpa [Dice.Chain, explodes] using chain
      exact ⟨drawn.1 :: faces, t, longer, draws_limited_succ rfl draws⟩

/-- A die comes to rest where one face that does not explode is found. -/
theorem rests_of_finds {d : Dice} {face : Number} (calm : d.explodes face = false)
    (finds : Finds next d.sides face) : Rests next d := by
  intro s
  let first := next s d.sides
  cases again : d.rerolls first.1 with
  | true =>
    have settled : d.Settled [first.1, (next first.2 d.sides).1] := by simp [Dice.Settled, again]
    exact ⟨_, _, settled, draws_limited_succ rfl (draws_limited_succ rfl rfl)⟩
  | false =>
    obtain ⟨faces, t, chain, draws⟩ := exists_chain_of_finds calm finds s
    refine ⟨faces, t, ?_, draws⟩
    cases faces with
    | nil => exact chain
    | cons face more =>
      obtain ⟨u, drawn, -⟩ := draws
      obtain rfl : first.1 = face := congrArg Prod.fst (Option.some.inj drawn)
      simpa [Dice.Settled, again] using chain

/-- The supply gives nothing but faces of the dice that it is asked for, and wherever it stands, it
finds the lowest and the highest face of every die that has sides. -/
structure Covers (next : σ → (sides : Number) → Number × σ) : Prop where
  canShow : ∀ s sides, Die.CanShow sides (next s sides).1
  findsLowest : ∀ {sides}, 1 ≤ sides → Finds next sides 1
  findsHighest : ∀ {sides}, 1 ≤ sides → Finds next sides sides

namespace Covers

variable (covers : Covers next)

include covers

theorem keepsToSides (s : Nat × σ) : (limited next).KeepsToSides s :=
  keepsToSides_limited (fun state sides => (covers.canShow state sides).withinSides) s

/-- Where a die without sides is asked for, the 0 is found at once. -/
theorem findsZero {sides : Number} (sideless : sides < 1) : Finds next sides 0 := by
  refine ⟨fun _ => 0, fun state => .inl ?_⟩
  have shown := covers.canShow state sides
  rwa [Die.CanShow, if_pos sideless] at shown

/-- The dice of a term that is not refused come to rest. -/
theorem rests_of_mayNeverEnd {d : Dice} (wanted : 0 < d.count.toNat)
    (tame : d.mayNeverEnd = false) : Rests next d := by
  have ends : d.explode.any (·.alwaysHolds d.sides) = false := by
    simpa [Dice.mayNeverEnd, wanted] using tame
  cases explode : d.explode with
  | none => exact rests_of_calm next explode
  | some c =>
    have holds : ∀ face, d.explodes face = c.holds face := fun face => by
      simp [Dice.explodes, explode]
    -- a condition that does not always hold fails for the only face there is, or for one at an end
    rw [explode, Option.any_some, Condition.alwaysHolds] at ends
    by_cases sideless : d.sides < 1
    · rw [if_pos sideless] at ends
      exact rests_of_finds ((holds 0).trans ends) (covers.findsZero sideless)
    · have real : 1 ≤ d.sides := Number.not_lt.1 sideless
      rw [if_neg sideless, Bool.and_eq_false_iff] at ends
      obtain below | above := ends
      · exact rests_of_finds ((holds 1).trans below) (covers.findsLowest real)
      · exact rests_of_finds ((holds d.sides).trans above) (covers.findsHighest real)

end Covers

/-- Wherever the supply stands, an expression that is not refused has an outcome. -/
theorem exists_completes_of_covers (covers : Covers next) {e : Expr} (tame : e.mayNeverEnd = false)
    (s : σ) :
    ∃ o t, ∀ more, ((limited next).evaluate e).Completes (o.dice.length + more, s) o (more, t) := by
  refine exists_completes_limited (fun d mem wanted => ?_) s
  refine covers.rests_of_mayNeverEnd wanted (Bool.eq_false_iff.2 fun endless => ?_)
  rw [Expr.mayNeverEnd_iff.2 ⟨d, mem, endless⟩] at tame
  cases tame

end Source

namespace Generator

/-! ## The circle of states -/

/-- The factor that undoes a multiplication with the increment. -/
def undo : UInt64 := 0x32e25c49d2beaf2d

theorem increment_mul_undo : increment * undo = 1 := by decide

/-- How many states lie between a state and a later one. -/
def remaining (target state : UInt64) : Nat := ((target - state) * undo - 1).toNat

theorem eq_of_remaining_eq_zero {target state : UInt64} (h : remaining target state = 0) :
    state + increment = target := by
  have one : (target - state) * undo - 1 = 0 := UInt64.toNat_inj.1 h
  have undone := increment_mul_undo
  grind

theorem remaining_add_increment {target state : UInt64} {k : Nat}
    (h : remaining target state = k + 1) : remaining target (state + increment) = k := by
  have undone := increment_mul_undo
  have step : (target - (state + increment)) * undo - 1 = (target - state) * undo - 1 - 1 := by
    grind
  unfold remaining at h ⊢
  rw [step, UInt64.toNat_sub_of_le _ _ (by rw [UInt64.le_iff_toNat_le, h]; simp)]
  simp [h]

theorem search_succ (n words : Nat) (state : UInt64) :
    search n (words + 1) state =
      if fair n (scramble (state + increment)).toUInt32 then
        (faceOf n (scramble (state + increment)).toUInt32, state + increment)
      else search n words (state + increment) := rfl

/-- A search that goes on long enough ends with the word of a certain state, if that is not passed
over, or before it gets there. -/
theorem search_of_fair {n : Nat} {target : UInt64}
    (isFair : fair n (scramble target).toUInt32 = true) {words : Nat} {state : UInt64}
    (enough : remaining target state < words) :
    (search n words state).1 = faceOf n (scramble target).toUInt32 ∨
      remaining target (search n words state).2 < remaining target state := by
  induction words generalizing state with
  | zero => exact absurd enough (Nat.not_lt_zero _)
  | succ words ih =>
    rw [search_succ]
    cases way : remaining target state with
    | zero =>
      rw [eq_of_remaining_eq_zero way, if_pos isFair]
      exact .inl rfl
    | succ k =>
      -- one state nearer, whether the search ends here or goes on from here
      have left := remaining_add_increment way
      split
      · exact .inr (by rw [left]; exact Nat.lt_succ_self k)
      · obtain found | less := @ih (state + increment) (by omega)
        · exact .inl found
        · exact .inr (by omega)

theorem remaining_lt (target state : UInt64) : remaining target state < UInt64.size :=
  UInt64.toNat_lt_size _

/-- The face that the word of a state stands for is found, if the word is not passed over. -/
theorem finds_of_fair {sides : Number} (real : 1 ≤ sides) (target : UInt64)
    (isFair : fair sides.toInt.toNat (scramble target).toUInt32 = true) :
    Source.Finds roll sides
      (Number.clamp (faceOf sides.toInt.toNat (scramble target).toUInt32)) := by
  refine ⟨remaining target, fun state => ?_⟩
  simp only [roll, if_neg (Number.not_lt.2 real)]
  exact (search_of_fair isFair (remaining_lt target state)).imp_left fun found => by rw [found]

/-! ## The lowest and the highest face -/

section Ends

variable {n : Nat}

theorem fair_one (positive : 0 < n) (small : n < UInt32.size) : fair n 1 = true := by
  have word : (1 : UInt32).toNat * n % UInt32.size = n := by
    rw [UInt32.toNat_one, Nat.one_mul, Nat.mod_eq_of_lt small]
  rw [fair, word]
  exact decide_eq_true (Nat.le_of_lt (Nat.mod_lt _ positive))

theorem faceOf_one (small : n < UInt32.size) : faceOf n 1 = 1 := by
  rw [faceOf, UInt32.toNat_one, Nat.one_mul, Nat.div_eq_of_lt small]

/-- The last word there is. -/
def lastWord : UInt32 := 4294967295

theorem lastWord_mul (positive : 0 < n) (small : n < UInt32.size) :
    lastWord.toNat * n = UInt32.size * (n - 1) + (UInt32.size - n) := by
  rw [show lastWord.toNat = 4294967295 from rfl]
  simp only [UInt32.size] at small ⊢
  omega

theorem fair_lastWord (positive : 0 < n) (small : 2 * n ≤ UInt32.size) :
    fair n lastWord = true := by
  have passed := Nat.mod_lt UInt32.size positive
  have rest : UInt32.size - n < UInt32.size := by omega
  rw [fair, lastWord_mul positive (by omega), Nat.mul_add_mod, Nat.mod_eq_of_lt rest]
  exact decide_eq_true (by omega)

theorem faceOf_lastWord (positive : 0 < n) (small : n < UInt32.size) : faceOf n lastWord = n := by
  rw [faceOf, lastWord_mul positive small, Nat.mul_add_div (by decide),
    Nat.div_eq_of_lt (by omega)]
  omega

end Ends

/-- A state whose word is 1. -/
def lowest : UInt64 := 2713328213

/-- A state whose word is the last one. -/
def highest : UInt64 := 7866185462

theorem scramble_lowest : (scramble lowest).toUInt32 = 1 := by decide

theorem scramble_highest : (scramble highest).toUInt32 = lastWord := by decide

theorem toNat_sides {sides : Number} (real : 1 ≤ sides) :
    0 < sides.toInt.toNat ∧ 2 * sides.toInt.toNat ≤ UInt32.size ∧
      (sides.toInt.toNat : Int) = sides.toInt := by
  have high := sides.upper
  rw [Number.le_iff, Number.toInt_one] at real
  simp only [UInt32.size]
  omega

theorem finds_one {sides : Number} (real : 1 ≤ sides) : Source.Finds roll sides 1 := by
  obtain ⟨positive, small, -⟩ := toNat_sides real
  have found := finds_of_fair real lowest
    (by rw [scramble_lowest]; exact fair_one positive (by omega))
  rwa [scramble_lowest, faceOf_one (by omega)] at found

theorem finds_highest {sides : Number} (real : 1 ≤ sides) : Source.Finds roll sides sides := by
  obtain ⟨positive, small, same⟩ := toNat_sides real
  have found := finds_of_fair real highest
    (by rw [scramble_highest]; exact fair_lastWord positive small)
  rwa [scramble_highest, faceOf_lastWord positive (by omega), same, Number.clamp_toInt] at found

theorem canShow_roll (state : UInt64) (sides : Number) :
    Die.CanShow sides (roll state sides).1 := by
  unfold Die.CanShow
  split
  · rename_i sideless
    rw [roll_of_lt_one state sideless]
  · rename_i real
    exact roll_mem state (Number.not_lt.1 real)

/-- **The generator covers the dice**, whatever its seed. -/
theorem covers : Source.Covers roll := ⟨canShow_roll, finds_one, finds_highest⟩

end Generator

end TabletopDice
