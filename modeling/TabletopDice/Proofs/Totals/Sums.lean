import TabletopDice.Roll

/-!
# Sums that stay in range

The sum of a roll is held inside the range of `Number` after every die, and so in general it is not
the exact sum held inside the range once, at the end: a sum that was cut off at one end can come back
from there. With faces of one sign there is no coming back. Once the end has been reached, the exact
sum lies beyond it as well and stays there (`Roll.sum_eq_clamp`), so for such faces neither the order
of the dice nor the moment of the cut makes a difference.

Where no running sum reaches an end, nothing is cut off in the first place, and faces of both signs
are added exactly (`Roll.toInt_sum`).
-/

set_option autoImplicit false

namespace TabletopDice

/-- Whether an integer is in the range of the numbers. -/
def Number.InRange (x : Int) : Prop := -2147483648 ≤ x ∧ x ≤ 2147483647

instance (x : Int) : Decidable (Number.InRange x) := inferInstanceAs (Decidable (_ ∧ _))

/-- The exact sum of faces. -/
def exactSum : List Number → Int
  | [] => 0
  | face :: faces => face.toInt + exactSum faces

theorem exactSum_append (faces others : List Number) :
    exactSum (faces ++ others) = exactSum faces + exactSum others := by
  induction faces with
  | nil => rw [List.nil_append, exactSum, Int.zero_add]
  | cons face faces ih => rw [List.cons_append, exactSum, ih, exactSum, Int.add_assoc]

theorem exactSum_replicate (n : Nat) (face : Number) :
    exactSum (List.replicate n face) = n * face.toInt := by
  induction n with
  | zero => simp [exactSum]
  | succ n ih =>
    rw [List.replicate_succ, exactSum, ih, Int.natCast_succ, Int.add_mul, Int.one_mul, Int.add_comm]

/-- So many faces between two bounds come to that many times something between them. -/
theorem le_exactSum {faces : List Number} {low : Int} (bound : ∀ face ∈ faces, low ≤ face.toInt) :
    faces.length * low ≤ exactSum faces := by
  induction faces with
  | nil => simp [exactSum]
  | cons face faces ih =>
    obtain ⟨first, rest⟩ := List.forall_mem_cons.1 bound
    rw [List.length_cons, exactSum, Int.natCast_succ, Int.add_mul, Int.one_mul, Int.add_comm]
    exact Int.add_le_add first (ih rest)

theorem exactSum_le {faces : List Number} {high : Int}
    (bound : ∀ face ∈ faces, face.toInt ≤ high) : exactSum faces ≤ faces.length * high := by
  induction faces with
  | nil => simp [exactSum]
  | cons face faces ih =>
    obtain ⟨first, rest⟩ := List.forall_mem_cons.1 bound
    rw [List.length_cons, exactSum, Int.natCast_succ, Int.add_mul, Int.one_mul, Int.add_comm]
    exact Int.add_le_add (ih rest) first

/-- The exact sum does not depend on the order of the faces. -/
theorem exactSum_perm {faces others : List Number} (same : faces.Perm others) :
    exactSum faces = exactSum others := by
  induction same with
  | nil => rfl
  | cons face same ih => rw [exactSum, exactSum, ih]
  | swap first second rest =>
    simp only [exactSum]
    omega
  | trans first second ihf ihs => exact ihf.trans ihs

namespace Roll

/-- Faces of one sign: none below zero, or none above it. -/
def OneSign (faces : List Number) : Prop :=
  (∀ face ∈ faces, 0 ≤ face.toInt) ∨ ∀ face ∈ faces, face.toInt ≤ 0

theorem OneSign.tail {face : Number} {faces : List Number} (h : OneSign (face :: faces)) :
    OneSign faces :=
  h.imp (fun all => (List.forall_mem_cons.1 all).2) fun all => (List.forall_mem_cons.1 all).2

theorem OneSign.head {face : Number} {faces : List Number} (h : OneSign (face :: faces)) :
    (0 ≤ face.toInt ∧ 0 ≤ exactSum faces) ∨ (face.toInt ≤ 0 ∧ exactSum faces ≤ 0) := by
  obtain all | all := h
  · obtain ⟨first, rest⟩ := List.forall_mem_cons.1 all
    exact .inl ⟨first, by simpa using le_exactSum rest⟩
  · obtain ⟨first, rest⟩ := List.forall_mem_cons.1 all
    exact .inr ⟨first, by simpa using exactSum_le rest⟩

theorem OneSign.perm {faces others : List Number} (h : OneSign faces) (same : others.Perm faces) :
    OneSign others :=
  h.imp (fun all face mem => all face (same.mem_iff.1 mem))
    fun all face mem => all face (same.mem_iff.1 mem)

theorem OneSign.append {faces others : List Number} (h : OneSign (faces ++ others)) :
    OneSign faces ∧ OneSign others := by
  obtain all | all := h
  · obtain ⟨first, second⟩ := List.forall_mem_append.1 all
    exact ⟨.inl first, .inl second⟩
  · obtain ⟨first, second⟩ := List.forall_mem_append.1 all
    exact ⟨.inr first, .inr second⟩

/-- Sums of faces that have one sign together have that sign, too. -/
theorem OneSign.sums {faces others : List Number} (h : OneSign (faces ++ others)) :
    (0 ≤ exactSum faces ∧ 0 ≤ exactSum others) ∨ (exactSum faces ≤ 0 ∧ exactSum others ≤ 0) := by
  obtain all | all := h
  · obtain ⟨first, second⟩ := List.forall_mem_append.1 all
    exact .inl ⟨by simpa using le_exactSum first, by simpa using le_exactSum second⟩
  · obtain ⟨first, second⟩ := List.forall_mem_append.1 all
    exact .inr ⟨by simpa using exactSum_le first, by simpa using exactSum_le second⟩

theorem OneSign.replicate (n : Nat) (face : Number) : OneSign (List.replicate n face) := by
  have all : ∀ other ∈ List.replicate n face, other = face := fun _ => List.eq_of_mem_replicate
  obtain sign | sign := Int.le_total 0 face.toInt
  · exact .inl fun other mem => all other mem ▸ sign
  · exact .inr fun other mem => all other mem ▸ sign

/-- From any number on, adding faces of one sign one by one is adding them all at once. -/
theorem foldl_add_eq_clamp {faces : List Number} (h : OneSign faces) (start : Number) :
    faces.foldl (fun total face => Number.clamp (total.toInt + face.toInt)) start =
      Number.clamp (start.toInt + exactSum faces) := by
  induction faces generalizing start with
  | nil => simp [exactSum]
  | cons face faces ih =>
    have sign := h.head
    have low := start.lower
    have high := start.upper
    rw [List.foldl_cons, ih h.tail, exactSum, Number.ext_iff]
    simp only [Number.toInt_clamp]
    omega

/-- The sum of faces of one sign is their exact sum, held inside the range at the end. -/
theorem sum_eq_clamp {faces : List Number} (h : OneSign faces) :
    sum faces = Number.clamp (exactSum faces) := by
  rw [sum, foldl_add_eq_clamp h, Number.toInt_zero, Int.zero_add]

end Roll

end TabletopDice
