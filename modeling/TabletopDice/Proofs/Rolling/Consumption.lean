import TabletopDice.Proofs.Rolling.Exhaustion

/-!
# What an evaluation takes from a list

A list of faces is a source whose every face can be accounted for. An evaluation that comes to an
end has taken the faces of its dice from the front of the list, and what stands behind them has no
part in it: it is left as it was and could have been anything. So the faces of an outcome are just
enough for it, and with any of the last ones missing there is no outcome.

An evaluation that does not come to an end has taken the whole list, and a part of the list would
not have served it better.
-/

set_option autoImplicit false

namespace TabletopDice

namespace Source

theorem completes_evaluate_ofList_iff {e : Expr} {faces rest : List Number} {o : Outcome} :
    (ofList.evaluate e).Completes faces o rest ↔
      e.Allows o ∧ faces = o.dice.map Die.face ++ rest := by
  rw [completes_evaluate_iff, draws_ofList]

/-- Faces behind those that were enough are left over. -/
theorem completes_evaluate_ofList_append {e : Expr} {faces rest : List Number} {o : Outcome}
    (done : (ofList.evaluate e).Completes faces o rest) (more : List Number) :
    (ofList.evaluate e).Completes (faces ++ more) o (rest ++ more) := by
  rw [completes_evaluate_ofList_iff] at done ⊢
  obtain ⟨allowed, taken⟩ := done
  exact ⟨allowed, by rw [taken, List.append_assoc]⟩

theorem eq_nil_of_runsOut_ofList {e : Expr} {faces rest : List Number}
    (out : (ofList.evaluate e).RunsOut faces rest) : rest = [] := by
  obtain ⟨_, sides, _, dry⟩ := exists_draws_of_runsOut out
  cases rest with
  | nil => rfl
  | cons face rest => cases dry

theorem completes_or_runsOut_ofList (e : Expr) (faces : List Number) :
    (∃ o rest, (ofList.evaluate e).Completes faces o rest) ∨
      (ofList.evaluate e).RunsOut faces [] := by
  obtain done | ⟨rest, out⟩ := (ofList.evaluate e).completes_or_runsOut faces
  · exact .inl done
  · obtain rfl := eq_nil_of_runsOut_ofList out
    exact .inr out

/-- Where a list is too short, so is each part at its front. -/
theorem runsOut_ofList_of_prefix {e : Expr} {short faces rest : List Number}
    (out : (ofList.evaluate e).RunsOut faces rest) (front : short <+: faces) :
    (ofList.evaluate e).RunsOut short [] := by
  obtain ⟨o, left, done⟩ | shortOut := completes_or_runsOut_ofList e short
  · obtain ⟨more, rfl⟩ := front
    exact absurd out (completes_evaluate_ofList_append done more).not_runsOut
  · exact shortOut

/-- Without the last of its faces an outcome does not come about. -/
theorem runsOut_ofList_of_short {e : Expr} {short rest faces : List Number} {o : Outcome}
    (done : (ofList.evaluate e).Completes faces o rest) (front : short <+: o.dice.map Die.face)
    (missing : short ≠ o.dice.map Die.face) : (ofList.evaluate e).RunsOut short [] := by
  obtain ⟨p, left, shortDone⟩ | out := completes_or_runsOut_ofList e short
  · exfalso
    obtain ⟨more, whole⟩ := front
    have enough : (ofList.evaluate e).Completes (short ++ more) o [] := by
      rw [whole, completes_evaluate_ofList_iff]
      exact ⟨(completes_evaluate_ofList_iff.1 done).1, (List.append_nil _).symm⟩
    have nothing := ((completes_evaluate_ofList_append shortDone more).unique enough).2
    obtain ⟨-, rfl⟩ := List.append_eq_nil_iff.1 nothing
    exact missing (by simpa using whole)
  · exact out

/-- Over a list an evaluation ends, with an outcome or without one. With an outcome, it has taken
the faces of the dice and nothing behind them, any other faces there are left in the same way, and
fewer faces are not enough. Without one, it has taken the whole list, and fewer faces are not enough
either. -/
theorem evaluate_ofList_consumes (e : Expr) (faces : List Number) :
    ((∃ o rest, (ofList.evaluate e).Completes faces o rest) ∨
        (ofList.evaluate e).RunsOut faces []) ∧
      (∀ o rest, (ofList.evaluate e).Completes faces o rest →
        faces = o.dice.map Die.face ++ rest ∧
          (∀ other, (ofList.evaluate e).Completes (o.dice.map Die.face ++ other) o other) ∧
          ∀ short, short <+: o.dice.map Die.face → short ≠ o.dice.map Die.face →
            (ofList.evaluate e).RunsOut short []) ∧
      ∀ rest, (ofList.evaluate e).RunsOut faces rest →
        rest = [] ∧ ∀ short, short <+: faces → (ofList.evaluate e).RunsOut short [] := by
  refine ⟨completes_or_runsOut_ofList e faces, ?completed, ?cutShort⟩
  case completed =>
    intro o rest done
    obtain ⟨allowed, taken⟩ := completes_evaluate_ofList_iff.1 done
    refine ⟨taken, fun other => completes_evaluate_ofList_iff.2 ⟨allowed, rfl⟩, ?_⟩
    intro short front missing
    exact runsOut_ofList_of_short done front missing
  case cutShort =>
    intro rest out
    exact ⟨eq_nil_of_runsOut_ofList out, fun short front => runsOut_ofList_of_prefix out front⟩

end Source

end TabletopDice
