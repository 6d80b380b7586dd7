import TabletopDice.Parser.Basic

/-!
# How far a parser reaches

Two facts hold of every parser of this library, and both are about the text around it.

**It takes from the front.** What a parser leaves is the end of what it was given
(`TakesFront`), so what it took is a text of its own, and nothing was skipped or put back.

**It looks no farther than its text.** A parser made from another one asks that one about ends of its
own text only. So if two parsers agree on all texts up to some length (`AgreeUpTo`), then whatever is
made from the one agrees with what is made from the other up to that length; and what reads a
character first, before it asks them, agrees on texts one character longer
(`AgreeUpTo.literal_then`). That last step is what makes a grammar that refers to itself behind an
opening parenthesis well defined.
-/

set_option autoImplicit false

namespace TabletopDice.Parser

variable {α β : Type}

/-! ## Taking from the front -/

/-- What the parser leaves is the end of what it was given. -/
def TakesFront (p : Parser α) : Prop := ∀ ⦃s a r⦄, Yields p s a r → r <:+ s

theorem TakesFront.pure (a : α) : TakesFront (Pure.pure a : Parser α) := by
  intro s b r h
  obtain ⟨-, rfl⟩ := yields_pure.1 h
  exact List.suffix_rfl

theorem TakesFront.bind {p : Parser α} {f : α → Parser β} (hp : TakesFront p)
    (hf : ∀ a, TakesFront (f a)) : TakesFront (p >>= f) := by
  intro s b r h
  obtain ⟨a, t, first, second⟩ := yields_bind.1 h
  exact (hf a second).trans (hp first)

theorem TakesFront.fail : TakesFront (fail : Parser α) := by
  intro s a r h
  exact (not_yields_fail h).elim

theorem TakesFront.orElse {p q : Parser α} (hp : TakesFront p) (hq : TakesFront q) :
    TakesFront (p.orElse q) := by
  intro s a r h
  rcases yields_orElse.1 h with h | ⟨-, h⟩
  · exact hp h
  · exact hq h

theorem TakesFront.choice {ps : List (Parser α)} (h : ∀ p ∈ ps, TakesFront p) :
    TakesFront (choice ps) := by
  induction ps with
  | nil => exact TakesFront.fail
  | cons p ps ih =>
    exact TakesFront.orElse (h p (by simp)) (ih fun q hq => h q (by simp [hq]))

theorem TakesFront.optional {p : Parser α} (hp : TakesFront p) : TakesFront (optional p) :=
  TakesFront.orElse (hp.bind fun _ => TakesFront.pure _) (TakesFront.pure _)

theorem TakesFront.check {p : Parser α} {f : α → Except Fault β} (hp : TakesFront p) :
    TakesFront (check p f) := by
  intro s b r h
  obtain ⟨a, read, -⟩ := yields_check.1 h
  exact hp read

theorem TakesFront.many {p : Parser α} (hp : TakesFront p) : TakesFront (many p) := by
  suffices ∀ s : Text, ∀ as r, (Parser.many p s).result? = some (as, r) → r <:+ s from
    fun s as r h => this s as r h
  intro s
  fun_induction Parser.many p s with
  | case1 s notes rejected =>
    intro as r h
    obtain ⟨-, rfl⟩ : [] = as ∧ s = r := by simpa using h
    exact List.suffix_rfl
  | case2 s a t notes read shorter next ih =>
    intro as r h
    obtain ⟨⟨bs, u⟩, more, same⟩ := Option.map_eq_some_iff.1 h
    obtain ⟨-, rfl⟩ := Prod.mk.inj same
    exact (ih bs u more).trans (hp (show Yields p s a t by rw [Yields, read]))
  | case3 s a t notes read longer =>
    intro as r h
    obtain ⟨-, rfl⟩ : [] = as ∧ s = r := by simpa using h
    exact List.suffix_rfl

theorem TakesFront.literal (x : Text) : TakesFront (literal x) := by
  intro s u r h
  exact ⟨x, (yields_literal.1 h).symm⟩

theorem TakesFront.oneOf (cs : List Char) : TakesFront (oneOf cs) := by
  intro s c r h
  exact ⟨[c], (yields_oneOf.1 h).2.symm⟩

theorem TakesFront.blank : TakesFront blank := by
  intro s u r h
  obtain rfl := yields_blank.1 h
  exact List.dropWhile_suffix _

theorem TakesFront.endOfText : TakesFront endOfText := by
  intro s u r h
  obtain ⟨rfl, rfl⟩ := yields_endOfText.1 h
  exact List.suffix_rfl

/-! ## Looking no farther -/

/-- The parsers do the same on every text up to a length, notes included. -/
def AgreeUpTo (n : Nat) (p q : Parser α) : Prop := ∀ s : Text, s.length ≤ n → p s = q s

theorem AgreeUpTo.refl (n : Nat) (p : Parser α) : AgreeUpTo n p p := fun _ _ => rfl

theorem AgreeUpTo.bind {n : Nat} {p q : Parser α} {f g : α → Parser β} (h : AgreeUpTo n p q)
    (hp : TakesFront p) (k : ∀ a, AgreeUpTo n (f a) (g a)) : AgreeUpTo n (p >>= f) (q >>= g) := by
  intro s small
  show Parser.bind p f s = Parser.bind q g s
  simp only [Parser.bind, ← h s small]
  rcases read : p s with ⟨_ | ⟨a, r⟩, notes⟩
  · rfl
  · have tail : r <:+ s := hp (show Yields p s a r by rw [Yields, read])
    simp only [k a r (Nat.le_trans tail.length_le small)]

theorem AgreeUpTo.orElse {n : Nat} {p q p' q' : Parser α} (h : AgreeUpTo n p p')
    (k : AgreeUpTo n q q') : AgreeUpTo n (p.orElse q) (p'.orElse q') := by
  intro s small
  simp only [Parser.orElse, h s small, k s small]

theorem AgreeUpTo.many {n : Nat} {p q : Parser α} (h : AgreeUpTo n p q) :
    AgreeUpTo n (many p) (many q) := by
  intro s small
  fun_induction Parser.many p s with
  | case1 s notes rejected =>
    rw [Parser.many, ← h s small, rejected]
  | case2 s a r notes read shorter next ih =>
    rw [Parser.many, ← h s small, read]
    simp only [shorter, if_pos, ← ih (by omega)]
    rfl
  | case3 s a r notes read longer =>
    rw [Parser.many, ← h s small, read]
    simp only [longer, if_false]

/-- Behind a character of its own, a parser asks about shorter texts only. -/
theorem AgreeUpTo.literal_then {n : Nat} {c : Char} {f g : Unit → Parser β}
    (h : ∀ m < n, AgreeUpTo m (f ()) (g ())) :
    AgreeUpTo n (literal [c] >>= f) (literal [c] >>= g) := by
  intro s small
  show Parser.bind (literal [c]) f s = Parser.bind (literal [c]) g s
  simp only [Parser.bind]
  rcases read : literal [c] s with ⟨_ | ⟨u, r⟩, notes⟩
  · rfl
  · obtain rfl := yields_literal.1 (show Yields (literal [c]) s u r by rw [Yields, read])
    have less : r.length < n := by simpa [Nat.succ_le_iff] using small
    simp only [h r.length less r (Nat.le_refl _)]

end TabletopDice.Parser
