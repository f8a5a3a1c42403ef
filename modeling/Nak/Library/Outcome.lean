import Mathlib.Data.Finset.Basic

/-! Computations that can panic. A panic carries the text the program gives it;
`exhausted` is the fuel of a recursive definition running out. -/
namespace Nak.Library

inductive Panic where
  | assertion
  | expect (message : String)
  | unwrap
  | explicit
  | bounds
  | exhausted
  deriving DecidableEq, Repr

abbrev Outcome (α : Type) := Except Panic α

namespace Outcome
variable {α β : Type}

def assert (condition : Prop) [Decidable condition] : Outcome Unit :=
  if condition then .ok () else .error .assertion

def expect (message : String) : Option α → Outcome α
  | some value => .ok value
  | none => .error (.expect message)

def unwrap : Option α → Outcome α
  | some value => .ok value
  | none => .error .unwrap

theorem bind_ok {first : Outcome α} {next : α → Outcome β} {result : β} :
    (first >>= next) = .ok result ↔ ∃ value, first = .ok value ∧ next value = .ok result := by
  cases first with
  | error panic => simp [bind,Except.bind]
  | ok value => simp [bind,Except.bind]

theorem bind_error {first : Outcome α} {next : α → Outcome β} {panic : Panic} :
    (first >>= next) = .error panic ↔
      first = .error panic ∨ ∃ value, first = .ok value ∧ next value = .error panic := by
  cases first with
  | error raised => simp [bind,Except.bind]
  | ok value => simp [bind,Except.bind]

@[simp] theorem ok_bind (value : α) (next : α → Outcome β) :
    ((Except.ok value : Outcome α) >>= next) = next value := rfl

@[simp] theorem error_bind (panic : Panic) (next : α → Outcome β) :
    ((Except.error panic : Outcome α) >>= next) = .error panic := rfl

@[simp] theorem pure_ok (value : α) : (pure value : Outcome α) = .ok value := rfl

@[simp] theorem assert_ok (condition : Prop) [Decidable condition] (done : Unit) :
    assert condition = .ok done ↔ condition := by
  unfold assert
  split <;> simp_all

@[simp] theorem assert_error (condition : Prop) [Decidable condition] (panic : Panic) :
    assert condition = .error panic ↔ ¬condition ∧ panic = .assertion := by
  unfold assert
  split <;> simp_all [eq_comm]

@[simp] theorem expect_error (message : String) (option : Option α) (panic : Panic) :
    expect message option = .error panic ↔ option = none ∧ panic = .expect message := by
  cases option <;> simp [expect,eq_comm]

@[simp] theorem expect_ok (message : String) (option : Option α) (value : α) :
    expect message option = .ok value ↔ option = some value := by
  cases option <;> simp [expect]

@[simp] theorem unwrap_ok (option : Option α) (value : α) :
    unwrap option = .ok value ↔ option = some value := by
  cases option <;> simp [unwrap]

theorem assert_true {condition : Prop} [Decidable condition] (holds : condition) :
    assert condition = .ok () := if_pos holds

theorem assert_false {condition : Prop} [Decidable condition] (fails : ¬condition) :
    assert condition = .error .assertion := if_neg fails

def panic? : Outcome α → Option Panic
  | .error panic => some panic
  | .ok _ => none

theorem panic?_eq_some {outcome : Outcome α} {panic : Panic} :
    outcome.panic? = some panic ↔ outcome = .error panic := by
  cases outcome <;> simp [panic?]

def Returns (outcome : Outcome α) : Prop := ∃ value, outcome = .ok value

end Outcome
end Nak.Library
