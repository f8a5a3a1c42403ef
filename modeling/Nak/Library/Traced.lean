import Mathlib.Data.List.Basic

/-! Computations that note what they do and can fail. What was noted before a failure is kept;
without the notes a computation is its outcome. -/
namespace Nak.Library

structure Traced (ω ε α : Type) where
  outcome : Except ε α
  log : List ω

namespace Traced
variable {ω ε ε' α β : Type}

def bind (act : Traced ω ε α) (next : α → Traced ω ε β) : Traced ω ε β :=
  match act.outcome with
  | .error e => ⟨.error e,act.log⟩
  | .ok value => ⟨(next value).outcome,act.log ++ (next value).log⟩

instance : Monad (Traced ω ε) where
  pure value := ⟨.ok value,[]⟩
  bind := bind

def note (event : ω) : Traced ω ε Unit := ⟨.ok (),[event]⟩

def fail (failure : ε) : Traced ω ε α := ⟨.error failure,[]⟩

def assert (condition : Prop) [Decidable condition] (failure : ε) : Traced ω ε Unit :=
  if condition then pure () else fail failure

theorem assert_bind {condition : Prop} [Decidable condition] {failure : ε} (holds : condition)
    (next : Unit → Traced ω ε β) : (assert condition failure >>= next) = next () := by
  rw [assert,if_pos holds]
  rfl

/-- The outcome alone, with other names for the failures. -/
def erase (name : ε → ε') (act : Traced ω ε α) : Except ε' α := act.outcome.mapError name

section Erasing
variable {name : ε → ε'} {act : Traced ω ε α} {next : α → Traced ω ε β}

theorem erase_bind : (act >>= next).erase name = act.erase name >>= fun value => (next value).erase name := by
  change (bind act next).erase name = _
  unfold bind erase
  cases act.outcome with
  | error e => rfl
  | ok value => rfl

@[simp] theorem erase_pure (value : α) : (pure value : Traced ω ε α).erase name = .ok value := rfl

@[simp] theorem erase_fail (failure : ε) : (fail failure : Traced ω ε α).erase name = .error (name failure) := rfl

theorem erase_note (event : ω) (cont : Unit → Traced ω ε β) :
    (note event >>= cont).erase name = (cont ()).erase name := rfl

theorem erase_ok {value : α} {plain : Except ε' α} (erased : act.erase name = plain) (came : act.outcome = .ok value) :
    plain = .ok value := by
  rw [← erased,erase,came]
  rfl

theorem erase_error {raised : ε} {plain : Except ε' α} (erased : act.erase name = plain)
    (came : act.outcome = .error raised) : plain = .error (name raised) := by
  rw [← erased,erase,came]
  rfl

end Erasing

/-- Every note is as it should be, and so is what the computation comes to. -/
structure Meets (event : ω → Prop) (failure : ε → Prop) (result : α → Prop) (act : Traced ω ε α) : Prop where
  notes : ∀ item ∈ act.log, event item
  fails : ∀ raised, act.outcome = .error raised → failure raised
  returns : ∀ value, act.outcome = .ok value → result value

namespace Meets
variable {event : ω → Prop} {failure weaker : ε → Prop} {result : α → Prop} {final : β → Prop}
variable {act : Traced ω ε α} {next : α → Traced ω ε β}

theorem pure {value : α} (holds : result value) : Meets event failure result (pure value : Traced ω ε α) where
  notes _ listed := absurd listed List.not_mem_nil
  fails _ raised := by cases raised
  returns _ same := by
    cases same
    exact holds

theorem fail {raised : ε} (holds : failure raised) :
    Meets event failure result (Traced.fail raised : Traced ω ε α) where
  notes _ listed := absurd listed List.not_mem_nil
  fails _ same := by
    cases same
    exact holds
  returns _ same := by cases same

theorem bind (first : Meets event failure result act)
    (later : ∀ value, result value → Meets event failure final (next value)) :
    Meets event failure final (act >>= next) := by
  change Meets event failure final (Traced.bind act next)
  unfold Traced.bind
  cases came : act.outcome with
  | error e =>
    refine ⟨first.notes,?_,by simp⟩
    rintro _ ⟨⟩
    exact first.fails e came
  | ok value =>
    have rest := later value (first.returns value came)
    refine ⟨?_,rest.fails,rest.returns⟩
    intro item listed
    rcases List.mem_append.mp listed with early | late
    · exact first.notes item early
    · exact rest.notes item late

theorem note {item : ω} (holds : event item) {cont : Unit → Traced ω ε β}
    (later : Meets event failure final (cont ())) :
    Meets event failure final (Traced.note item >>= cont) := by
  have noted : Meets event failure (fun _ => True) (Traced.note item) := by
    refine ⟨?_,by simp [Traced.note],by simp⟩
    intro other listed
    obtain rfl := List.mem_singleton.mp listed
    exact holds
  exact bind noted fun _ _ => later

theorem weaken {stronger : α → Prop} (first : Meets event failure stronger act)
    (fails : ∀ raised, act.outcome = .error raised → failure raised → weaker raised)
    (returns : ∀ value, act.outcome = .ok value → stronger value → result value) : Meets event weaker result act where
  notes := first.notes
  fails raised came := fails raised came (first.fails raised came)
  returns value came := returns value came (first.returns value came)

end Meets
end Traced
end Nak.Library
