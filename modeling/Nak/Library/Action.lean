import Mathlib.Order.Defs.Unbundled
import Nak.Library.Outcome

/-! Computations on a state that return a value, return an error or panic. An error
leaves the changed state behind, as an early return does; a panic leaves none. -/
namespace Nak.Library

def Action (ε σ α : Type) := σ → Outcome (Except ε α × σ)

namespace Action
variable {ε σ α β : Type}

def bind (act : Action ε σ α) (next : α → Action ε σ β) : Action ε σ β := fun state =>
  match act state with
  | .error panic => .error panic
  | .ok (.error raised,state) => .ok (.error raised,state)
  | .ok (.ok value,state) => next value state

instance : Monad (Action ε σ) where
  pure value := fun state => .ok (.ok value,state)
  bind := bind

def get : Action ε σ σ := fun state => .ok (.ok state,state)

def modify (change : σ → σ) : Action ε σ Unit := fun state => .ok (.ok (),change state)

def raise (error : ε) : Action ε σ α := fun state => .ok (.error error,state)

def panic (message : Panic) : Action ε σ α := fun _ => .error message

/-- A computation on no state: its panics are kept. -/
def lift (outcome : Outcome α) : Action ε σ α := fun state => outcome.map fun value => (.ok value,state)

/-- A result with the `?` operator. -/
def propagate (result : Except ε α) : Action ε σ α := fun state => .ok (result,state)

/-- A result that is looked at, not propagated. -/
def result (act : Action ε σ α) : Action ε σ (Except ε α) := fun state =>
  (act state).map fun done => (.ok done.1,done.2)

/-- A result with `unwrap`. -/
def unwrap (act : Action ε σ α) : Action ε σ α := fun state =>
  match act state with
  | .ok (.error _,_) => .error .unwrap
  | other => other

section Inversion
variable {act : Action ε σ α} {next : α → Action ε σ β} {state final : σ}

theorem bind_ok {value : β} : (act >>= next) state = .ok (.ok value,final) ↔
    ∃ first middle, act state = .ok (.ok first,middle) ∧ next first middle = .ok (.ok value,final) := by
  change bind act next state = _ ↔ _
  unfold bind
  split <;> simp_all

theorem bind_raised {error : ε} : (act >>= next) state = .ok (.error error,final) ↔
    act state = .ok (.error error,final) ∨
      ∃ first middle, act state = .ok (.ok first,middle) ∧ next first middle = .ok (.error error,final) := by
  change bind act next state = _ ↔ _
  unfold bind
  split <;> simp_all

theorem bind_panicked {message : Panic} : (act >>= next) state = .error message ↔
    act state = .error message ∨ ∃ first middle, act state = .ok (.ok first,middle) ∧
      next first middle = .error message := by
  change bind act next state = _ ↔ _
  unfold bind
  split <;> simp_all

@[simp] theorem pure_apply (value : α) : (pure value : Action ε σ α) state = .ok (.ok value,state) := rfl

theorem pure_ok {value other : α} :
    (pure value : Action ε σ α) state = .ok (.ok other,final) ↔ value = other ∧ state = final := by
  simp

@[simp] theorem get_bind (cont : σ → Action ε σ β) : (get >>= cont) state = cont state state := rfl

@[simp] theorem modify_bind (change : σ → σ) (cont : Unit → Action ε σ β) :
    (modify change >>= cont) state = cont () (change state) := rfl

theorem ok_bind {first : α} {middle : σ} (ok : act state = .ok (.ok first,middle)) :
    (act >>= next) state = next first middle := by
  change bind act next state = _
  rw [bind,ok]

theorem raised_bind {error : ε} {middle : σ} (raised : act state = .ok (.error error,middle)) :
    (act >>= next) state = .ok (.error error,middle) := by
  change bind act next state = _
  rw [bind,raised]

theorem panic_bind {message : Panic} (panics : act state = .error message) :
    (act >>= next) state = .error message := by
  change bind act next state = _
  rw [bind,panics]

@[simp] theorem lift_ok {outcome : Outcome α} {value : Except ε α} :
    lift outcome state = .ok (value,final) ↔ ∃ inner, outcome = .ok inner ∧ value = .ok inner ∧ final = state := by
  cases outcome with
  | error panic => simp [lift,Except.map]
  | ok inner => simp [lift,Except.map,eq_comm]

theorem lift_bind_ok {outcome : Outcome α} {value : Except ε β} :
    (lift outcome >>= next) state = .ok (value,final) ↔
      ∃ inner, outcome = .ok inner ∧ next inner state = .ok (value,final) := by
  cases outcome with
  | error panic =>
    rw [panic_bind (by rfl)]
    simp
  | ok inner =>
    rw [ok_bind (by rfl)]
    simp

theorem lift_continues {outcome : Outcome α} {cont : α → Action ε σ β} {value : α} (ok : outcome = .ok value) :
    (lift outcome >>= cont) state = cont value state := by
  subst ok
  rfl

theorem lift_panics {outcome : Outcome α} {cont : α → Action ε σ β} {message : Panic}
    (panics : outcome = .error message) : (lift outcome >>= cont) state = .error message := by
  subst panics
  rfl

@[simp] theorem result_ok {done : Except ε (Except ε α)} :
    act.result state = .ok (done,final) ↔ ∃ inner, done = .ok inner ∧ act state = .ok (inner,final) := by
  unfold result
  cases act state with
  | error panic => simp [Except.map]
  | ok pair =>
    obtain ⟨value,after⟩ := pair
    simp only [Except.map,Except.ok.injEq,Prod.mk.injEq]
    grind

@[simp] theorem unwrap_ok {value : Except ε α} :
    act.unwrap state = .ok (value,final) ↔ ∃ inner, value = .ok inner ∧ act state = .ok (.ok inner,final) := by
  unfold unwrap
  split
  · simp_all
  · rename_i other
    constructor
    · intro ok
      cases value with
      | error raised => exact absurd ok (other raised final)
      | ok inner => exact ⟨inner,rfl,ok⟩
    · intro given
      obtain ⟨inner,rfl,ok⟩ := given
      exact ok

end Inversion

def Returns (act : Action ε σ α) (state : σ) : Prop := ∃ value final, act state = .ok (.ok value,final)

section Returns
variable {act : Action ε σ α} {next : α → Action ε σ β} {state : σ}

theorem returns_bind : Returns (act >>= next) state ↔
    ∃ value middle, act state = .ok (.ok value,middle) ∧ Returns (next value) middle := by
  constructor
  · intro given
    obtain ⟨value,final,ok⟩ := given
    obtain ⟨first,middle,one,rest⟩ := bind_ok.mp ok
    exact ⟨first,middle,one,value,final,rest⟩
  · intro given
    obtain ⟨first,middle,one,value,final,rest⟩ := given
    exact ⟨value,final,bind_ok.mpr ⟨first,middle,one,rest⟩⟩

theorem returns_get {next : σ → Action ε σ β} : Returns (get >>= next) state ↔ Returns (next state) state := Iff.rfl

theorem returns_modify {change : σ → σ} {next : Unit → Action ε σ β} :
    Returns (modify change >>= next) state ↔ Returns (next ()) (change state) := Iff.rfl

theorem returns_lift {outcome : Outcome α} :
    Returns (lift outcome >>= next) state ↔ ∃ value, outcome = .ok value ∧ Returns (next value) state := by
  simp only [Returns,lift_bind_ok]
  exact ⟨fun ⟨value,final,inner,ok,rest⟩ => ⟨inner,ok,value,final,rest⟩,
    fun ⟨inner,ok,value,final,rest⟩ => ⟨value,final,inner,ok,rest⟩⟩

theorem returns_propagate {result : Except ε α} :
    Returns (propagate result >>= next) state ↔ ∃ value, result = .ok value ∧ Returns (next value) state := by
  cases result with
  | error raised =>
    simp [Returns,raised_bind (show propagate (.error raised) state = .ok (.error raised,state) from rfl)]
  | ok value => simp [Returns,ok_bind (show propagate (.ok value) state = .ok (.ok value,state) from rfl)]

end Returns

/-- The computation returns a value or panics. -/
structure Errorless (act : Action ε σ α) : Prop where
  never : ∀ {state error final}, act state ≠ .ok (.error error,final)

namespace Errorless
variable {act : Action ε σ α} {next : α → Action ε σ β}

theorem pure (value : α) : Errorless (Pure.pure value : Action ε σ α) where
  never := nofun

theorem get : Errorless (Action.get : Action ε σ σ) where
  never := nofun

theorem modify (change : σ → σ) : Errorless (Action.modify change : Action ε σ Unit) where
  never := nofun

theorem panic (message : Panic) : Errorless (Action.panic message : Action ε σ α) where
  never := nofun

theorem propagate (value : α) : Errorless (Action.propagate (.ok value) : Action ε σ α) where
  never := nofun

theorem lift (outcome : Outcome α) : Errorless (Action.lift outcome : Action ε σ α) where
  never := by
    intro state error final raised
    obtain ⟨_,_,same,_⟩ := lift_ok.mp raised
    cases same

theorem bind (first : Errorless act) (rest : ∀ value, Errorless (next value)) : Errorless (act >>= next) where
  never := by
    intro state error final raised
    rcases bind_raised.mp raised with early | ⟨_,_,_,late⟩
    · exact first.never early
    · exact (rest _).never late

theorem continues (first : Errorless act) {state final : σ} {value : Except ε β}
    (ok : (act >>= next) state = .ok (value,final)) :
    ∃ done middle, act state = .ok (.ok done,middle) ∧ next done middle = .ok (value,final) := by
  cases value with
  | error raised =>
    rcases bind_raised.mp ok with early | late
    · exact absurd early first.never
    · exact late
  | ok value => exact bind_ok.mp ok

end Errorless

/-- The computation never panics with the message. -/
structure Avoids (message : Panic) (act : Action ε σ α) : Prop where
  never : ∀ {state}, act state ≠ .error message

namespace Avoids
variable {message : Panic} {act : Action ε σ α} {rest : α → Action ε σ β}

theorem pure (value : α) : Avoids message (Pure.pure value : Action ε σ α) where
  never := nofun

theorem get : Avoids message (Action.get : Action ε σ σ) where
  never := nofun

theorem modify (change : σ → σ) : Avoids message (Action.modify change : Action ε σ Unit) where
  never := nofun

theorem raise (error : ε) : Avoids message (Action.raise error : Action ε σ α) where
  never := nofun

theorem propagate (result : Except ε α) : Avoids message (Action.propagate result : Action ε σ α) where
  never := nofun

theorem panic {other : Panic} (different : other ≠ message) : Avoids message (Action.panic other : Action ε σ α) where
  never same := different (Except.error.inj same)

theorem lift {outcome : Outcome α} (never : outcome ≠ .error message) :
    Avoids message (Action.lift outcome : Action ε σ α) where
  never := by
    intro state panics
    cases outcome with
    | error other => exact never (congrArg _ (Except.error.inj panics))
    | ok value => cases panics

theorem bind (first : Avoids message act) (second : ∀ value, Avoids message (rest value)) :
    Avoids message (act >>= rest) where
  never := by
    intro state panics
    change Action.bind act rest state = _ at panics
    unfold Action.bind at panics
    split at panics
    · rename_i early
      exact first.never (early.trans (congrArg _ (Except.error.inj panics)))
    · cases panics
    · exact (second _).never panics

theorem result (avoids : Avoids message act) : Avoids message act.result where
  never := by
    intro state panics
    unfold Action.result at panics
    cases done : act state with
    | error other =>
      rw [done] at panics
      exact avoids.never (done.trans (congrArg _ (Except.error.inj panics)))
    | ok pair =>
      rw [done] at panics
      cases panics

theorem unwrap (avoids : Avoids message act) (different : message ≠ .unwrap) : Avoids message act.unwrap where
  never := by
    intro state panics
    unfold Action.unwrap at panics
    split at panics
    · exact different (Except.error.inj panics).symm
    · exact avoids.never panics

end Avoids

structure Keeps (relates : σ → σ → Prop) (act : Action ε σ α) : Prop where
  after : ∀ {state value final}, act state = .ok (value,final) → relates state final

namespace Keeps
variable {relates : σ → σ → Prop} [IsPreorder σ relates] {act : Action ε σ α} {next : α → Action ε σ β}

theorem pure (value : α) : Keeps relates (Pure.pure value : Action ε σ α) where
  after := by
    intro state _ _ shape
    cases shape
    exact Std.Refl.refl state

theorem raise (error : ε) : Keeps relates (Action.raise error : Action ε σ α) where
  after := by
    intro state _ _ shape
    cases shape
    exact Std.Refl.refl state

theorem propagate (result : Except ε α) : Keeps relates (Action.propagate result : Action ε σ α) where
  after := by
    intro state _ _ shape
    cases shape
    exact Std.Refl.refl state

theorem get : Keeps relates (Action.get : Action ε σ σ) where
  after := by
    intro state _ _ shape
    cases shape
    exact Std.Refl.refl state

theorem lift (outcome : Outcome α) : Keeps relates (Action.lift outcome : Action ε σ α) where
  after := by
    intro state value final ok
    obtain ⟨_,_,_,rfl⟩ := lift_ok.mp ok
    exact Std.Refl.refl _

theorem bind (first : Keeps relates act) (rest : ∀ value, Keeps relates (next value)) :
    Keeps relates (act >>= next) where
  after := by
    intro state value final ok
    change Action.bind act next state = _ at ok
    unfold Action.bind at ok
    split at ok
    · cases ok
    · rename_i middle raised
      cases ok
      exact first.after raised
    · rename_i middle passed
      exact IsTrans.trans _ _ _ (first.after passed) ((rest _).after ok)

omit [IsPreorder σ relates]

theorem panic (message : Panic) : Keeps relates (Action.panic message : Action ε σ α) where
  after := by rintro state _ _ ⟨⟩

theorem modify (change : σ → σ) (keeps : ∀ state, relates state (change state)) :
    Keeps relates (Action.modify change : Action ε σ Unit) where
  after := by
    intro state _ _ shape
    cases shape
    exact keeps state

theorem result (keeps : Keeps relates act) : Keeps relates act.result where
  after := by
    intro state value final ok
    obtain ⟨inner,_,done⟩ := result_ok.mp ok
    exact keeps.after done

theorem unwrap (keeps : Keeps relates act) : Keeps relates act.unwrap where
  after := by
    intro state value final ok
    obtain ⟨inner,_,done⟩ := unwrap_ok.mp ok
    exact keeps.after done

end Keeps
end Action
end Nak.Library
