import Mathlib.Data.List.Basic
import Nak.Library.Outcome

/-! Programs that are generic in the sink they hand their items to. What such a program hands
over does not depend on the sink, so it is known from a run with a sink that keeps a list. -/
namespace Nak.Library

def push {ι : Type} (items : List ι) (item : ι) : Outcome (List ι) := .ok (items ++ [item])

theorem foldlM_push {ι : Type} (front items : List ι) : items.foldlM push front = .ok (front ++ items) := by
  induction items generalizing front with
  | nil => simp
  | cons item items ih => simp [push,ih]

/-- The program is given a sink of any type and returns it. -/
abbrev Feeding (ι β : Type) := (σ : Type) → (σ → ι → Outcome σ) → σ → Outcome (β × σ)

namespace Feeding
variable {ι β γ : Type}

def Gives (program : Feeding ι β) (value : β) (items : List ι) : Prop :=
  program (List ι) push [] = .ok (value,items)

/-- With any sink the program returns what it returns with a list, where the sink takes the items. -/
def Uniform (program : Feeding ι β) : Prop :=
  ∀ (σ : Type) (accept : σ → ι → Outcome σ) (sink : σ) (value : β) (after : σ),
    program σ accept sink = .ok (value,after) ↔
      ∃ items, program.Gives value items ∧ items.foldlM accept sink = .ok after

def give (item : ι) (next : Feeding ι β) : Feeding ι β := fun σ accept sink =>
  accept sink item >>= fun taken => next σ accept taken

def andThen (first : Feeding ι β) (next : β → Feeding ι γ) : Feeding ι γ := fun σ accept sink =>
  first σ accept sink >>= fun result => next result.1 σ accept result.2

theorem value_uniform (value : β) : Feeding.Uniform fun (_ : Type) (_ : _ → ι → _) sink => .ok (value,sink) := by
  intro σ accept sink result after
  simp only [Gives,Except.ok.injEq,Prod.mk.injEq]
  constructor
  · rintro ⟨rfl,rfl⟩
    exact ⟨[],⟨rfl,rfl⟩,rfl⟩
  · rintro ⟨items,⟨rfl,rfl⟩,taken⟩
    exact ⟨rfl,Except.ok.inj taken⟩

theorem panic_uniform (panic : Panic) : Feeding.Uniform fun (σ : Type) (_ : σ → ι → Outcome σ) _ =>
    (.error panic : Outcome (β × σ)) := by
  intro σ accept sink result after
  simp [Gives]

theorem bind_uniform {part : Outcome β} {next : β → Feeding ι γ}
    (uniform : ∀ value, part = .ok value → (next value).Uniform) :
    Feeding.Uniform fun σ accept sink => part >>= fun value => next value σ accept sink := by
  cases part with
  | error panic => exact panic_uniform panic
  | ok value => exact uniform value rfl

theorem ite_uniform {condition : Prop} [Decidable condition] {yes no : Feeding ι β} (yes_uniform : yes.Uniform)
    (no_uniform : no.Uniform) :
    Feeding.Uniform fun σ accept sink => if condition then yes σ accept sink else no σ accept sink := by
  split
  · exact yes_uniform
  · exact no_uniform

theorem Uniform.continues {program : Feeding ι β} (uniform : program.Uniform) {front after : List ι} {value : β} :
    program (List ι) push front = .ok (value,after) ↔ ∃ items, program.Gives value items ∧ after = front ++ items := by
  rw [uniform]
  simp only [foldlM_push,Except.ok.injEq,eq_comm]

theorem give_gives (item : ι) {next : Feeding ι β} (uniform : next.Uniform) {value : β} {items : List ι} :
    (give item next).Gives value items ↔ ∃ rest, next.Gives value rest ∧ items = item :: rest := uniform.continues

theorem give_uniform (item : ι) {next : Feeding ι β} (uniform : next.Uniform) : (give item next).Uniform := by
  intro σ accept sink value after
  simp only [give_gives item uniform]
  unfold give
  rw [Outcome.bind_ok]
  constructor
  · rintro ⟨taken,first,later⟩
    obtain ⟨rest,gives,takes⟩ := (uniform ..).mp later
    refine ⟨_,⟨rest,gives,rfl⟩,?_⟩
    rw [List.foldlM_cons,first]
    exact takes
  · rintro ⟨_,⟨rest,gives,rfl⟩,takes⟩
    rw [List.foldlM_cons] at takes
    obtain ⟨taken,first,later⟩ := Outcome.bind_ok.mp takes
    exact ⟨taken,first,(uniform ..).mpr ⟨rest,gives,later⟩⟩

theorem andThen_gives (first : Feeding ι β) {next : β → Feeding ι γ} (then_uniform : ∀ value, (next value).Uniform)
    {value : γ} {items : List ι} : (first.andThen next).Gives value items ↔
      ∃ middle front back, first.Gives middle front ∧ (next middle).Gives value back ∧ items = front ++ back := by
  unfold Gives andThen
  rw [Outcome.bind_ok]
  constructor
  · rintro ⟨⟨middle,front⟩,early,late⟩
    obtain ⟨back,gives,shape⟩ := (then_uniform middle).continues.mp late
    exact ⟨middle,front,back,early,gives,shape⟩
  · rintro ⟨middle,front,back,early,late,shape⟩
    exact ⟨(middle,front),early,(then_uniform middle).continues.mpr ⟨back,late,shape⟩⟩

theorem andThen_uniform {first : Feeding ι β} (next : β → Feeding ι γ) (first_uniform : first.Uniform)
    (then_uniform : ∀ value, (next value).Uniform) : (first.andThen next).Uniform := by
  intro σ accept sink value after
  simp only [andThen_gives first then_uniform]
  unfold andThen
  rw [Outcome.bind_ok]
  constructor
  · rintro ⟨⟨middle,taken⟩,early,late⟩
    obtain ⟨front,gives,first_taken⟩ := (first_uniform ..).mp early
    obtain ⟨back,later,then_taken⟩ := (then_uniform middle ..).mp late
    refine ⟨_,⟨middle,front,back,gives,later,rfl⟩,?_⟩
    rw [List.foldlM_append,first_taken]
    exact then_taken
  · rintro ⟨_,⟨middle,front,back,early,late,rfl⟩,takes⟩
    rw [List.foldlM_append] at takes
    obtain ⟨taken,first_taken,then_taken⟩ := Outcome.bind_ok.mp takes
    exact ⟨(middle,taken),(first_uniform ..).mpr ⟨front,early,first_taken⟩,
      (then_uniform middle ..).mpr ⟨back,late,then_taken⟩⟩

end Feeding
end Nak.Library
