import Nak.Library.Outcome

/-! Loops without a condition of their own: the body goes on with a new state, breaks or
panics. `none` stands for a break. -/
namespace Nak.Library
variable {σ : Type}

/-- The loop is left, by a break or a panic, in the last of so many turns. -/
inductive Leaves (body : σ → Outcome (Option σ)) : Nat → σ → σ → Prop
  | breaks {state} (leaves : body state = .ok none) : Leaves body 1 state state
  | panics {state panic} (leaves : body state = .error panic) : Leaves body 1 state state
  | goes {turns state next last} (on : body state = .ok (some next)) (later : Leaves body turns next last) :
      Leaves body (turns + 1) state last

namespace Leaves
variable {body : σ → Outcome (Option σ)} {state next last : σ}

theorem goes_iff (on : body state = .ok (some next)) :
    (∃ turns, Leaves body turns state last) ↔ ∃ turns, Leaves body turns next last := by
  constructor
  · rintro ⟨turns,left⟩
    cases left with
    | breaks leaves => simp [on] at leaves
    | panics leaves => simp [on] at leaves
    | goes again later =>
      obtain rfl : next = _ := by simpa [on] using again
      exact ⟨_,later⟩
  · rintro ⟨turns,later⟩
    exact ⟨turns + 1,.goes on later⟩

theorem panics_iff {panic : Panic} (leaves : body state = .error panic) :
    (∃ turns, Leaves body turns state last) ↔ last = state := by
  constructor
  · rintro ⟨turns,left⟩
    cases left with
    | breaks => rfl
    | panics => rfl
    | goes on => simp [leaves] at on
  · rintro rfl
    exact ⟨1,.panics leaves⟩

theorem stuck (same : body state = .ok (some state)) : ¬∃ turns, Leaves body turns state last := by
  rintro ⟨turns,left⟩
  generalize start : state = first at left
  induction left with
  | breaks leaves => simp [← start,same] at leaves
  | panics leaves => simp [← start,same] at leaves
  | goes on later ih =>
    subst start
    exact ih (by simpa [same] using on)

/-- Where every turn that goes on makes the state smaller, the loop is left. -/
theorem shrinking (size : σ → Nat) (shrinks : ∀ state next, body state = .ok (some next) → size next < size state)
    (state : σ) : ∃ turns last, turns ≤ size state + 1 ∧ Leaves body turns state last := by
  induction bound : size state using Nat.strong_induction_on generalizing state with
  | _ bound' ih =>
    subst bound
    cases turn : body state with
    | error panic => exact ⟨1,state,by omega,.panics turn⟩
    | ok next =>
      cases next with
      | none => exact ⟨1,state,by omega,.breaks turn⟩
      | some next =>
        have smaller := shrinks state next turn
        obtain ⟨turns,last,few,later⟩ := ih _ smaller next rfl
        exact ⟨turns + 1,last,by omega,.goes turn later⟩

end Leaves
end Nak.Library
