import Nak.Library.Action

/-! Pre- and postconditions of computations that can panic. -/
namespace Nak.Library.Action
variable {ε σ α β : Type} {barred : Panic → Prop} {pre : σ → Prop}

/-- From a state with the precondition the computation panics in no barred way, and a value
it returns comes with the postcondition. Of a returned error nothing is said. -/
structure Triple (barred : Panic → Prop) (pre : σ → Prop) (act : Action ε σ α) (post : α → σ → Prop) : Prop where
  panics : ∀ {state panic}, pre state → act state = .error panic → ¬barred panic
  returns : ∀ {state value final}, pre state → act state = .ok (.ok value,final) → post value final

namespace Triple
variable {act : Action ε σ α} {next : α → Action ε σ β} {post : α → σ → Prop} {last : β → σ → Prop}

theorem bind {middle : α → σ → Prop} (first : Triple barred pre act middle)
    (rest : ∀ value, Triple barred (middle value) (next value) last) : Triple barred pre (act >>= next) last where
  panics := by
    intro state panic holds panics
    change Action.bind act next state = _ at panics
    unfold Action.bind at panics
    split at panics
    · rename_i raised early
      obtain rfl := Except.error.inj panics
      exact first.panics holds early
    · cases panics
    · rename_i value middle passed
      exact (rest value).panics (first.returns holds passed) panics
  returns := by
    intro state value final holds ok
    obtain ⟨done,middle,passed,rest'⟩ := bind_ok.mp ok
    exact (rest done).returns (first.returns holds passed) rest'

theorem weaken {stronger : σ → Prop} (triple : Triple barred pre act post)
    (implies : ∀ state, stronger state → pre state) : Triple barred stronger act post where
  panics holds := triple.panics (implies _ holds)
  returns holds := triple.returns (implies _ holds)

theorem conclude {weaker : α → σ → Prop} (triple : Triple barred pre act post)
    (implies : ∀ value state, post value state → weaker value state) : Triple barred pre act weaker where
  panics := triple.panics
  returns holds ok := implies _ _ (triple.returns holds ok)

theorem pointwise (each : ∀ state, pre state → Triple barred (· = state) act post) : Triple barred pre act post where
  panics holds := (each _ holds).panics rfl
  returns holds := (each _ holds).returns rfl

theorem pure {value : α} (holds : ∀ state, pre state → post value state) :
    Triple barred pre (Pure.pure value : Action ε σ α) post where
  panics := nofun
  returns := by
    intro state other final given ok
    obtain ⟨rfl,rfl⟩ := pure_ok.mp ok
    exact holds _ given

theorem get : Triple barred pre (Action.get : Action ε σ σ) (fun value state => value = state ∧ pre state) where
  panics := nofun
  returns := by
    intro state value final holds ok
    obtain ⟨same,rfl⟩ := Prod.mk.inj (Except.ok.inj ok)
    exact ⟨(Except.ok.inj same).symm,holds⟩

theorem modify {change : σ → σ} {post : Unit → σ → Prop} (holds : ∀ state, pre state → post () (change state)) :
    Triple barred pre (Action.modify change : Action ε σ Unit) post where
  panics := nofun
  returns := by
    intro state value final given ok
    obtain ⟨_,rfl⟩ := Prod.mk.inj (Except.ok.inj ok)
    exact holds _ given

theorem propagate {result : Except ε α} (holds : ∀ state value, pre state → result = .ok value → post value state) :
    Triple barred pre (Action.propagate result : Action ε σ α) post where
  panics := nofun
  returns := by
    intro state value final given ok
    obtain ⟨same,rfl⟩ := Prod.mk.inj (Except.ok.inj ok)
    exact holds _ _ given same

theorem lift {outcome : Outcome α} (panics : ∀ state panic, pre state → outcome = .error panic → ¬barred panic)
    (returns : ∀ state value, pre state → outcome = .ok value → post value state) :
    Triple barred pre (Action.lift outcome : Action ε σ α) post where
  panics := by
    intro state panic holds raised
    cases outcome with
    | error other =>
      obtain rfl := Except.error.inj raised
      exact panics state other holds rfl
    | ok value => cases raised
  returns := by
    intro state value final holds ok
    obtain ⟨inner,done,same,rfl⟩ := lift_ok.mp ok
    obtain rfl := Except.ok.inj same
    exact returns _ _ holds done

theorem assert {condition : Prop} [Decidable condition] (holds : ∀ state, pre state → condition) :
    Triple barred pre (Action.lift (Outcome.assert condition) : Action ε σ Unit) (fun _ => pre) :=
  .lift (fun state _ given raised => absurd (holds state given) ((Outcome.assert_error _ _).mp raised).1)
    (fun _ _ given _ => given)

theorem panic {message : Panic} (free : ¬barred message) :
    Triple barred pre (Action.panic message : Action ε σ α) post where
  panics := by
    intro state panic _ raised
    obtain rfl := Except.error.inj raised
    exact free
  returns := nofun

def Free (barred : Panic → Prop) (act : Action ε σ α) : Prop := Triple barred (fun _ => True) act fun _ _ => True

theorem Free.bind (first : Free barred act) (rest : ∀ value, Free barred (next value)) : Free barred (act >>= next) :=
  Triple.bind first rest

theorem Free.modify (change : σ → σ) : Free barred (Action.modify change : Action ε σ Unit) :=
  Triple.modify fun _ _ => trivial

theorem Free.propagate (result : Except ε α) : Free barred (Action.propagate result : Action ε σ α) :=
  Triple.propagate fun _ _ _ _ => trivial

theorem Free.get : Free barred (Action.get : Action ε σ σ) := Triple.get.conclude fun _ _ _ => trivial

theorem Free.pure (value : α) : Free barred (Pure.pure value : Action ε σ α) := Triple.pure fun _ _ => trivial

theorem Free.panic {message : Panic} (free : ¬barred message) : Free barred (Action.panic message : Action ε σ α) :=
  Triple.panic free

theorem Free.lift {outcome : Outcome α} (free : ∀ panic, outcome = .error panic → ¬barred panic) :
    Free barred (Action.lift outcome : Action ε σ α) :=
  Triple.lift (fun _ panic _ => free panic) fun _ _ _ _ => trivial

theorem Free.assert {condition : Prop} [Decidable condition] (free : ¬barred .assertion) :
    Free barred (Action.lift (Outcome.assert condition) : Action ε σ Unit) :=
  Free.lift fun _ raised => ((Outcome.assert_error _ _).mp raised).2 ▸ free

theorem Free.expect {message : String} {option : Option α} (free : ¬barred (.expect message)) :
    Free barred (Action.lift (Outcome.expect message option) : Action ε σ α) :=
  Free.lift fun _ raised => ((Outcome.expect_error _ _ _).mp raised).2 ▸ free

end Triple

/-- From a state with the precondition the computation returns a value, neither an error nor a
panic, and the value comes with the postcondition. -/
structure Total (pre : σ → Prop) (act : Action ε σ α) (post : α → σ → Prop) : Prop where
  returns : ∀ {state}, pre state → ∃ value final, act state = .ok (.ok value,final) ∧ post value final

namespace Total
variable {act : Action ε σ α} {next : α → Action ε σ β} {post : α → σ → Prop} {last : β → σ → Prop}

theorem bind {middle : α → σ → Prop} (first : Total pre act middle)
    (rest : ∀ value, Total (middle value) (next value) last) : Total pre (act >>= next) last where
  returns := by
    intro state holds
    obtain ⟨value,between,ok,reached⟩ := first.returns holds
    obtain ⟨result,final,ok',ends⟩ := (rest value).returns reached
    refine ⟨result,final,?_,ends⟩
    rw [ok_bind ok]
    exact ok'

/-- What is known of a value does not depend on the state. -/
theorem given {fact : Prop} (each : fact → Total pre act post) : Total (fun state => fact ∧ pre state) act post where
  returns holds := (each holds.1).returns holds.2

theorem pure {value : α} (holds : ∀ state, pre state → post value state) :
    Total pre (Pure.pure value : Action ε σ α) post where
  returns given := ⟨_,_,rfl,holds _ given⟩

theorem get : Total pre (Action.get : Action ε σ σ) (fun value state => value = state ∧ pre state) where
  returns given := ⟨_,_,rfl,rfl,given⟩

theorem modify {change : σ → σ} {post : Unit → σ → Prop} (holds : ∀ state, pre state → post () (change state)) :
    Total pre (Action.modify change : Action ε σ Unit) post where
  returns given := ⟨_,_,rfl,holds _ given⟩

theorem known {outcome : Outcome α} {value : α} (ok : outcome = .ok value) (rest : Total pre (next value) last) :
    Total pre (Action.lift outcome >>= next) last where
  returns holds := by
    rw [lift_continues ok]
    exact rest.returns holds

theorem lift {outcome : Outcome α} (holds : ∀ state, pre state → ∃ value, outcome = .ok value ∧ post value state) :
    Total pre (Action.lift outcome : Action ε σ α) post where
  returns := by
    intro state given
    obtain ⟨value,rfl,ends⟩ := holds state given
    exact ⟨value,state,rfl,ends⟩

theorem assert {condition : Prop} [Decidable condition] (holds : ∀ state, pre state → condition) :
    Total pre (Action.lift (Outcome.assert condition) : Action ε σ Unit) (fun _ => pre) :=
  .lift fun state given => ⟨(),Outcome.assert_true (holds state given),given⟩

end Total
end Nak.Library.Action
