import TabletopDice.Proofs.Rolling.Completion

/-!
# Rolling, one event at a time

A run has its record from the faces of each throw, read off them once the throw is over. At a table
it is the other way round: each face is called out when it falls, and only what has been called out
so far is known if the dice give out. This file rolls a dice term in that manner. A face is drawn,
goes on record, and is put on the table, and then the next question is asked; a die that is rolled
once more loses its mark only when its second face is there.

Both come to the same (`Source.roll_eq_narratedRoll`): value, state and record, whether or not the
source runs out. So what is on record at any point of a roll is what has happened up to there, and a
statement about the record can follow the events instead of the finished throws.
-/

set_option autoImplicit false

namespace TabletopDice

namespace Rolling

variable {σ α : Type}

theorem record_bind_apply {entries : List Record} {f : Unit → Rolling σ α} {s : σ} :
    (record entries >>= f) s = ⟨(f () s).value?, (f () s).state, entries ++ (f () s).log⟩ := rfl

theorem bind_pure_apply {m : Rolling σ α} {β : Type} {g : α → β} {s : σ} :
    (do let a ← m; pure (g a)) s = ⟨(m s).value?.map g, (m s).state, (m s).log⟩ := by
  show Rolling.bind m (fun a => pure (g a)) s = _
  rw [Rolling.bind]
  rcases m s with ⟨_ | a, t, log⟩ <;> simp

end Rolling

namespace Source

variable {σ : Type}

/-! ## Events -/

/-- Draws one face and puts nothing on record. -/
def drawFace (src : Source σ) (sides : Number) : Rolling σ Number := fun s =>
  match src.draw s sides with
  | none => ⟨none, s, []⟩
  | some (face, t) => ⟨some face, t, []⟩

/-- Draws faces after an exploding one, each of which goes on record and then on the table, until
one brings no further die with it. -/
def narratedChain (src : Source σ) (d : Dice) : Rolling σ (List Die) := fun s =>
  match _drawn : src.draw s d.sides with
  | none => ⟨none, s, []⟩
  | some (face, t) =>
    if d.explodes face then
      let more := narratedChain src d t
      ⟨more.value?.map ({ face, sides := d.sides } :: ·), more.state, .exploded face :: more.log⟩
    else ⟨some [{ face, sides := d.sides }], t, [.exploded face]⟩
termination_by s => src.supply s
decreasing_by exact src.supply_draw ‹_›

/-- Rolls one die of a term. -/
def narratedThrow (src : Source σ) (d : Dice) : Rolling σ (List Die) := do
  let face ← src.drawFace d.sides
  Rolling.record [.rolled face d.sides]
  if d.rerolls face then do
    let again ← src.drawFace d.sides
    Rolling.record [.rerolled face again]
    pure [{ face, sides := d.sides, discarded := true }, { face := again, sides := d.sides }]
  else if d.explodes face then do
    let more ← src.narratedChain d
    pure ({ face, sides := d.sides } :: more)
  else pure [{ face, sides := d.sides }]

/-- Rolls so many dice of a term. -/
def narratedThrows (src : Source σ) (d : Dice) : Nat → Rolling σ (List Die)
  | 0 => pure []
  | n + 1 => do
    let first ← src.narratedThrow d
    let others ← src.narratedThrows d n
    pure (first ++ others)

/-- Rolls a dice term. -/
def narratedRoll (src : Source σ) (d : Dice) : Rolling σ Roll := do
  let dice ← src.narratedThrows d d.count.toNat
  let rolled : Roll := { term := d, dice := d.select.elim dice (·.apply dice) }
  Rolling.record (d.closing rolled)
  pure rolled

/-! ## The events of a throw are its faces -/

variable (src : Source σ) (d : Dice)

theorem drawFace_bind_apply_none {α : Type} {sides : Number} {s : σ} (f : Number → Rolling σ α)
    (dry : src.draw s sides = none) : (src.drawFace sides >>= f) s = ⟨none, s, []⟩ := by
  show Rolling.bind (src.drawFace sides) f s = _
  simp only [Rolling.bind, drawFace, dry]

theorem drawFace_bind_apply_some {α : Type} {sides face : Number} {s t : σ}
    (f : Number → Rolling σ α) (drawn : src.draw s sides = some (face, t)) :
    (src.drawFace sides >>= f) s = f face t := by
  show Rolling.bind (src.drawFace sides) f s = _
  simp only [Rolling.bind, drawFace, drawn, List.nil_append]

/-- What a chain comes to, event by event. -/
theorem narratedChain_apply (s : σ) :
    src.narratedChain d s =
      ⟨if (src.chain d s).settled then some (d.showing (src.chain d s).faces) else none,
        (src.chain d s).state, (src.chain d s).faces.map .exploded⟩ := by
  induction s using src.inductionOn with
  | step s ih =>
    rw [narratedChain, chain_eq]
    split
    case h_1 dry => simp [dry]
    case h_2 face t drawn =>
      rw [drawn]
      by_cases explodes : d.explodes face = true
      · -- one face more, in front of what the rest of the chain comes to
        simp only [explodes, if_true, Throw.after, ih _ _ _ drawn]
        split <;> simp
      · simp [explodes]

theorem narratedThrow_apply (s : σ) :
    src.narratedThrow d s =
      ⟨if (src.throw d s).settled then some (d.fallen (src.throw d s).faces) else none,
        (src.throw d s).state, d.recorded (src.throw d s).faces⟩ := by
  rw [narratedThrow]
  cases drawn : src.draw s d.sides with
  | none =>
    rw [drawFace_bind_apply_none src _ drawn, throw, drawn]
    rfl
  | some next =>
    obtain ⟨face, t⟩ := next
    rw [drawFace_bind_apply_some src _ drawn, Rolling.record_bind_apply]
    cases again : d.rerolls face with
    | true =>
      rw [throw_eq_pair src d drawn again, if_pos rfl]
      cases second : src.draw t d.sides with
      | none =>
        rw [drawFace_bind_apply_none src _ second]
        rfl
      | some last =>
        rw [drawFace_bind_apply_some src _ second, Rolling.record_bind_apply]
        simp [Dice.fallen, Dice.recorded, again]
    | false =>
      rw [throw_eq_chain src d drawn again, chain_eq, drawn, if_neg Bool.false_ne_true]
      by_cases explodes : d.explodes face = true
      · simp only [if_pos explodes, Throw.after]
        rw [Rolling.bind_pure_apply, narratedChain_apply]
        split <;> simp [Dice.fallen, Dice.recorded, Dice.showing, again]
      · simp only [if_neg explodes]
        simp [Dice.fallen, Dice.recorded, again]

theorem narratedThrows_apply (n : Nat) (s : σ) :
    src.narratedThrows d n s =
      ⟨if (src.throws d n s).settled then some ((src.throws d n s).groups.flatMap d.fallen)
        else none, (src.throws d n s).state, (src.throws d n s).groups.flatMap d.recorded⟩ := by
  induction n generalizing s with
  | zero => rfl
  | succ n ih =>
    rw [narratedThrows, throws_succ]
    show Rolling.bind _ _ s = _
    rw [Rolling.bind, narratedThrow_apply]
    by_cases first : (src.throw d s).settled = true
    · simp only [first, if_true, Rolling.bind_pure_apply, ih, Throws.after]
      split <;> simp
    · simp [first]

/-- A dice term is rolled the same whether its record is made as the faces fall or from the faces of
each throw. -/
theorem roll_eq_narratedRoll : src.roll d = src.narratedRoll d := by
  funext s
  show Rolling.bind (src.throwAll d) _ s = Rolling.bind (src.narratedThrows d d.count.toNat) _ s
  rw [Rolling.bind, Rolling.bind, narratedThrows_apply, throwAll]
  by_cases settled : (src.throws d d.count.toNat s).settled = true
  · rw [if_pos settled, if_pos settled]
    rfl
  · rw [if_neg settled, if_neg settled]

end Source

end TabletopDice
