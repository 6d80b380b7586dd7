import TabletopDice.Generator
import TabletopDice.Proofs.Rolling.Completion

/-!
# Expressions that come out the same every time

`Expr.isDeterministic` looks at how many dice there are and how many sides they have, and at none of
their modifiers. That is enough. A die with one side shows a 1 whatever the source makes of it, and
dice that show nothing but one face settle in one way only (`Dice.Settled.eq_of_forall_eq`): either
the face is rolled once more or it stands, and if it stands, it must not explode. So all that is
left of the source is whether the evaluation comes to an end, and not what it comes to.

Of a source this asks no more than that it keeps to the sides of the dice from some state on
(`Source.KeepsToSides`), which the generator of random faces does from every state, and so does a
source that always gives the highest face.
-/

set_option autoImplicit false

namespace TabletopDice

/-- The face is one of the sides, if there are any. -/
def Die.WithinSides (sides face : Number) : Prop := 1 ≤ sides → 1 ≤ face ∧ face ≤ sides

namespace Source

variable {σ : Type}

/-- Whatever dice are drawn from the state on, each of them shows one of its sides. -/
def KeepsToSides (src : Source σ) (s : σ) : Prop :=
  ∀ dice t, src.Draws s dice t → ∀ die ∈ dice, Die.WithinSides die.sides die.face

theorem keepsToSides_limited {next : σ → (sides : Number) → Number × σ}
    (real : ∀ s sides, Die.WithinSides sides (next s sides).1)
    (s : Nat × σ) : (limited next).KeepsToSides s :=
  fun _ _ drawn => forall_mem_of_draws_limited real drawn

theorem keepsToSides_generator (s : Nat × UInt64) : Generator.source.KeepsToSides s :=
  keepsToSides_limited (fun state _ => Generator.roll_mem state) s

theorem keepsToSides_highest (s : Nat × Unit) : highest.KeepsToSides s :=
  keepsToSides_limited (fun _ sides real => ⟨real, Int.le_refl sides.toInt⟩) s

end Source

namespace Dice

/-- A die that shows nothing but one face has settled in the only way it can. -/
theorem Settled.eq_of_forall_eq {d : Dice} {v : Number} {faces : List Number}
    (settled : d.Settled faces) (all : ∀ face ∈ faces, face = v) :
    faces = if d.rerolls v then [v, v] else [v] := by
  cases faces with
  | nil => exact settled.elim
  | cons first more =>
    obtain ⟨rfl, all⟩ := List.forall_mem_cons.1 all
    cases again : d.rerolls first with
    | true =>
      obtain ⟨second, rfl⟩ : ∃ w, more = [w] := by simpa [Settled, again] using settled
      rw [if_pos rfl, List.forall_mem_singleton.1 all]
    | false =>
      have chain : d.Chain (first :: more) := by simpa [Settled, again] using settled
      rw [Chain] at chain
      cases explodes : d.explodes first with
      | false => simpa [explodes] using chain
      | true =>
        -- the chain goes on, and it ends with the same face as it began
        rw [explodes, if_pos rfl, chain_iff] at chain
        obtain ⟨earlier, last, rfl, -, calm⟩ := chain
        rw [all last (by simp), explodes] at calm
        cases calm

theorem eq_replicate_of_forall_eq {d : Dice} {v : Number} {groups : List (List Number)}
    (length : groups.length = d.count.toNat) (settled : ∀ faces ∈ groups, d.Settled faces)
    (all : ∀ face ∈ groups.flatten, face = v) :
    groups = List.replicate d.count.toNat (if d.rerolls v then [v, v] else [v]) := by
  refine List.eq_replicate_iff.2 ⟨length, ?_⟩
  intro faces mem
  refine (settled faces mem).eq_of_forall_eq ?_
  intro face within
  exact all face (List.mem_flatten.2 ⟨faces, mem, within⟩)

end Dice

namespace Expr

/-- The dice of an outcome of such a term show nothing but ones, or there are none. -/
theorem forall_eq_one_of_isDeterministic {d : Dice} {groups : List (List Number)}
    (fixed : isDeterministic (.dice d) = true) (length : groups.length = d.count.toNat)
    (real : ∀ face ∈ groups.flatten, Die.WithinSides d.sides face) :
    ∀ face ∈ groups.flatten, face = 1 := by
  intro face mem
  obtain diceless | one : d.count = 0 ∨ d.sides = 1 := by simpa [isDeterministic] using fixed
  · have empty : groups = [] := List.eq_nil_of_length_eq_zero (by rw [length, diceless]; rfl)
    rw [empty] at mem
    cases mem
  · rw [one] at real
    obtain ⟨above, below⟩ := real face mem (Int.le_refl 1)
    exact Number.ext (Int.le_antisymm below above)

theorem Allows.unique_of_isDeterministic {e : Expr} {o p : Outcome}
    (fixed : e.isDeterministic = true) (first : e.Allows o) (second : e.Allows p)
    (realFirst : ∀ die ∈ o.dice, Die.WithinSides die.sides die.face)
    (realSecond : ∀ die ∈ p.dice, Die.WithinSides die.sides die.face) : o = p := by
  induction e generalizing o p with
  | number n =>
    cases first
    cases second
    rfl
  | dice d =>
    obtain ⟨groups, length, settled, rfl⟩ := allows_dice_iff.1 first
    obtain ⟨others, lengthOthers, settledOthers, rfl⟩ := allows_dice_iff.1 second
    have ones := forall_eq_one_of_isDeterministic fixed length
      (Dice.forall_mem_settle.1 realFirst)
    have onesOthers := forall_eq_one_of_isDeterministic fixed lengthOthers
      (Dice.forall_mem_settle.1 realSecond)
    rw [Dice.eq_replicate_of_forall_eq length settled ones,
      Dice.eq_replicate_of_forall_eq lengthOthers settledOthers onesOthers]
  | join op left right ihl ihr =>
    obtain ⟨fixedLeft, fixedRight⟩ := Bool.and_eq_true_iff.1 fixed
    cases first with
    | join a b =>
    cases second with
    | join c d =>
    obtain ⟨realA, realB⟩ := List.forall_mem_append.1 realFirst
    obtain ⟨realC, realD⟩ := List.forall_mem_append.1 realSecond
    rw [ihl fixedLeft a c realA realC, ihr fixedRight b d realB realD]

end Expr

namespace Source

variable {σ τ : Type}

/-- Two evaluations of a deterministic expression that come to an end have the same outcome, whatever
sources they draw from. -/
theorem evaluate_eq_of_isDeterministic (src : Source σ) (other : Source τ) (e : Expr) (s s' : σ)
    (t t' : τ) (o p : Outcome) (fixed : e.isDeterministic = true) (real : src.KeepsToSides s)
    (realOther : other.KeepsToSides t) (done : (src.evaluate e).Completes s o s')
    (doneOther : (other.evaluate e).Completes t p t') : o = p := by
  obtain ⟨first, draws⟩ := src.completes_evaluate_iff.1 done
  obtain ⟨second, drawsOther⟩ := other.completes_evaluate_iff.1 doneOther
  exact first.unique_of_isDeterministic fixed second (real _ _ draws) (realOther _ _ drawsOther)

/-- Three dice with one side, of which every one is rolled once more, would explode if it were not, and
is a success. -/
def coins : Dice :=
  { count := ⟨3, by decide⟩, sides := 1, reroll := some ⟨.equal, 1⟩, explode := some ⟨.equal, 1⟩,
    successes := some ⟨.equal, 1⟩ }

/-- What the successes of the coins and one more come to. -/
def tossed : Outcome :=
  { dice := [⟨1, 1, true⟩, ⟨1, 1, false⟩, ⟨1, 1, true⟩, ⟨1, 1, false⟩, ⟨1, 1, true⟩, ⟨1, 1, false⟩]
    result := Number.clamp 4 }

/-- Random ones, where the dice have nothing else. -/
theorem draws_generator_ones {dice : List Die} (ones : ∀ die ∈ dice, die.sides = 1 ∧ die.face = 1)
    (state : UInt64) :
    ∃ after, Generator.source.Draws (dice.length, state) dice (0, after) := by
  induction dice generalizing state with
  | nil => exact ⟨state, rfl⟩
  | cons die dice ih =>
    obtain ⟨⟨sides, face⟩, ones⟩ := List.forall_mem_cons.1 ones
    obtain ⟨above, below⟩ := Generator.roll_mem state (show (1 : Number) ≤ 1 from Int.le_refl 1)
    have one : (Generator.roll state 1).1 = 1 := Number.ext (Int.le_antisymm below above)
    obtain ⟨after, rest⟩ := ih ones (Generator.roll state 1).2
    refine ⟨after, (dice.length, (Generator.roll state 1).2), ?_, rest⟩
    simp [Generator.source, limited, sides, face, one]

theorem evaluate_eq_of_isDeterministic_coins :
    (Generator.source.evaluate (.join .plus (.dice coins) (.number 1)) (6, 42)).value? =
        (highest.evaluate (.join .plus (.dice coins) (.number 1)) (6, ())).value? ∧
      (highest.evaluate (.join .plus (.dice coins) (.number 1)) (6, ())).value? = some tossed := by
  have settled : ∀ faces ∈ List.replicate 3 [1, 1], coins.Settled faces := by
    intro faces mem
    obtain rfl := List.eq_of_mem_replicate mem
    exact ⟨1, rfl⟩
  have allowed : Expr.Allows (.join .plus (.dice coins) (.number 1)) tossed :=
    .join (.dice ⟨_, rfl, settled, rfl⟩) (.number 1)
  have top : highest.Draws (6, ()) tossed.dice (0, ()) :=
    ⟨(5, ()), rfl, (4, ()), rfl, (3, ()), rfl, (2, ()), rfl, (1, ()), rfl, (0, ()), rfl, rfl⟩
  have ones : ∀ die ∈ tossed.dice, die.sides = 1 ∧ die.face = 1 := by decide
  obtain ⟨after, random⟩ := draws_generator_ones ones 42
  have doneTop := highest.completes_evaluate_iff.2 ⟨allowed, top⟩
  have doneRandom := Generator.source.completes_evaluate_iff.2 ⟨allowed, random⟩
  have same := evaluate_eq_of_isDeterministic Generator.source highest _ (6, 42) (0, after)
    (6, ()) (0, ()) tossed tossed (by decide) (keepsToSides_generator _) (keepsToSides_highest _)
    doneRandom doneTop
  exact ⟨doneRandom.1.trans (same ▸ doneTop.1.symm), doneTop.1⟩

end Source

end TabletopDice
