import Mathlib.Order.Defs.Unbundled
import Nak.Library.Outcome

/-! Labelled transition systems, their runs and the induction rule for invariants.
A run keeps the whole list of its labels, so a property may speak of the history. In a
simulation a step of one system is seen as a step of the other or not at all, so what the
second never does the first is never seen to do. -/
namespace Nak.Library
universe u v w x

structure System (σ : Type u) (α : Type v) where
  initial : σ → Prop
  step : σ → α → σ → Prop

namespace System
variable {σ : Type u} {α : Type v}

inductive Run (system : System σ α) : List α → σ → Prop
  | initial {state} (start : system.initial state) : Run system [] state
  | step {trace state label next} (before : Run system trace state)
      (taken : system.step state label next) : Run system (trace ++ [label]) next

def Reachable (system : System σ α) (state : σ) : Prop := ∃ trace, system.Run trace state

/-- What holds at the start and is kept by every step holds after every run. -/
theorem Run.invariant {system : System σ α} (holds : List α → σ → Prop)
    (start : ∀ state, system.initial state → holds [] state)
    (keeps : ∀ trace state label next, system.Run trace state → holds trace state →
      system.step state label next → holds (trace ++ [label]) next)
    {trace : List α} {state : σ} (run : system.Run trace state) : holds trace state := by
  induction run with
  | initial first => exact start _ first
  | step before taken ih => exact keeps _ _ _ _ before ih taken

theorem Reachable.invariant {system : System σ α} (holds : σ → Prop)
    (start : ∀ state, system.initial state → holds state)
    (keeps : ∀ state label next, holds state → system.step state label next → holds next)
    {state : σ} (reachable : system.Reachable state) : holds state := by
  obtain ⟨trace,run⟩ := reachable
  exact run.invariant (fun _ => holds) start (fun _ state label next _ => keeps state label next)

theorem Run.reachable {system : System σ α} {trace : List α} {state : σ}
    (run : system.Run trace state) : system.Reachable state := ⟨trace,run⟩

theorem Run.cut {system : System σ α} {before after : List α} {label : α} {final : σ}
    (run : system.Run (before ++ label :: after) final) :
    ∃ state next, system.Run before state ∧ system.step state label next ∧
      system.Run (before ++ [label]) next := by
  induction after using List.reverseRecOn generalizing final with
  | nil =>
    generalize shape : before ++ [label] = trace at run
    cases run with
    | initial => simp at shape
    | step earlier taken =>
      obtain ⟨rfl,same⟩ := List.append_inj' shape rfl
      obtain rfl : label = _ := by simpa using same
      exact ⟨_,_,earlier,taken,.step earlier taken⟩
  | append_singleton after last ih =>
    generalize shape : before ++ label :: (after ++ [last]) = trace at run
    cases run with
    | initial => simp at shape
    | step earlier taken =>
      rw [← List.cons_append,← List.append_assoc] at shape
      obtain ⟨rfl,_⟩ := List.append_inj' shape rfl
      exact ih earlier

theorem Run.earlier {system : System σ α} {before after : List α} {final : σ}
    (run : system.Run (before ++ after) final) : ∃ state, system.Run before state := by
  cases after with
  | nil => exact ⟨final,by simpa using run⟩
  | cons label after =>
    obtain ⟨state,_,earlier,_⟩ := run.cut
    exact ⟨state,earlier⟩

structure Deterministic (system : System σ α) : Prop where
  initial : ∀ state other, system.initial state → system.initial other → state = other
  step : ∀ state label next other, system.step state label next → system.step state label other → next = other

theorem Run.unique {system : System σ α} (deterministic : system.Deterministic) {trace : List α} {state other : σ}
    (run : system.Run trace state) (again : system.Run trace other) : state = other := by
  induction run generalizing other with
  | initial start =>
    generalize shape : ([] : List α) = trace at again
    cases again with
    | initial start' => exact deterministic.initial _ _ start start'
    | step => simp at shape
  | step before taken ih =>
    rename_i trace state label next
    generalize shape : trace ++ [label] = whole at again
    cases again with
    | initial => simp at shape
    | step earlier taken' =>
      obtain ⟨rfl,same⟩ := List.append_inj' shape rfl
      obtain rfl : label = _ := by simpa using same
      obtain rfl := ih earlier
      exact deterministic.step _ _ _ _ taken taken'

/-- What every step relates, the states before and after the rest of a run are related by. -/
theorem Run.onward {system : System σ α} (deterministic : system.Deterministic) {relates : σ → σ → Prop}
    [IsPreorder σ relates]
    (steps : ∀ trace state label next, system.Run trace state → system.step state label next → relates state next)
    {trace more : List α} {state final : σ} (run : system.Run trace state)
    (later : system.Run (trace ++ more) final) : relates state final := by
  induction more using List.reverseRecOn generalizing final with
  | nil =>
    rw [List.append_nil] at later
    obtain rfl := later.unique deterministic run
    exact Std.Refl.refl _
  | append_singleton more label ih =>
    rw [← List.append_assoc] at later
    obtain ⟨middle,last,before,taken,whole⟩ := later.cut
    obtain rfl := whole.unique deterministic later
    exact IsTrans.trans _ _ _ (ih before) (steps _ _ _ _ before taken)

/-- The system of a function that answers an input or panics. -/
def ofFunction {ω : Type} {ι σ : Type} (start : σ) (answer : σ → ι → Outcome (ω × σ)) :
    System σ (ι × ω) where
  initial state := state = start
  step state label next := answer state label.1 = .ok (label.2,next)

theorem ofFunction_deterministic {ω : Type} {ι σ : Type} (start : σ) (answer : σ → ι → Outcome (ω × σ)) :
    (ofFunction start answer).Deterministic where
  initial _ _ first second := first.trans second.symm
  step _ _ _ _ first second := (Prod.mk.inj (Except.ok.inj (first.symm.trans second))).2

def restrict (system : System σ α) (allowed : σ → α → Prop) : System σ α where
  initial := system.initial
  step state label next := system.step state label next ∧ allowed state label

theorem Run.unrestricted {system : System σ α} {allowed : σ → α → Prop} {trace : List α} {state : σ}
    (run : (system.restrict allowed).Run trace state) : system.Run trace state := by
  induction run with
  | initial start => exact .initial start
  | step before taken ih => exact .step ih taken.1

theorem Deterministic.restrict {system : System σ α} (deterministic : system.Deterministic) (allowed : σ → α → Prop) :
    (system.restrict allowed).Deterministic where
  initial := deterministic.initial
  step _ _ _ _ first second := deterministic.step _ _ _ _ first.1 second.1

theorem Run.restricted {system : System σ α} {allowed permitted : σ → α → Prop} {trace : List α} {state : σ}
    (run : (system.restrict fun state label => allowed state label ∧ permitted state label).Run trace state) :
    ((system.restrict allowed).restrict permitted).Run trace state := by
  induction run with
  | initial start => exact .initial start
  | step before taken ih => exact .step ih ⟨⟨taken.1,taken.2.1⟩,taken.2.2⟩

theorem Run.permitted {system : System σ α} {allowed permitted : σ → α → Prop} {trace : List α} {state : σ}
    (run : (system.restrict allowed).Run trace state)
    (implies : ∀ label ∈ trace, ∀ state, allowed state label → permitted state label) :
    (system.restrict permitted).Run trace state := by
  induction run with
  | initial start => exact .initial start
  | step before taken ih =>
    refine .step (ih fun label member => implies label (List.mem_append_left _ member)) ⟨taken.1,?_⟩
    exact implies _ (List.mem_append_right _ (List.mem_singleton.mpr rfl)) _ taken.2

/-- Where a property starts out true and each step decides whether it stays, the runs whose
states all have it are those of the restricted system. -/
theorem Run.holds_iff {system : System σ α} (deterministic : system.Deterministic) {holds : List α → σ → Prop}
    {allowed : σ → α → Prop} (start : ∀ state, system.initial state → holds [] state)
    (decides : ∀ trace state label next, system.Run trace state → holds trace state →
      system.step state label next → (holds (trace ++ [label]) next ↔ allowed state label))
    {trace : List α} {state : σ} (run : system.Run trace state) :
    (∀ before after middle, trace = before ++ after → system.Run before middle → holds before middle) ↔
      (system.restrict allowed).Run trace state := by
  induction run with
  | initial first =>
    refine ⟨fun _ => .initial first,fun _ before after middle shape earlier => ?_⟩
    obtain ⟨rfl,_⟩ := List.append_eq_nil_iff.mp shape.symm
    exact start middle (earlier.unique deterministic (.initial first) ▸ first)
  | step earlier taken ih =>
    rename_i trace state label next
    constructor
    · intro all
      have before (front back middle) (shape : trace = front ++ back) (run : system.Run front middle) :
          holds front middle :=
        all front (back ++ [label]) middle (by rw [shape,List.append_assoc]) run
      have now := before trace [] state (by simp) earlier
      have later := all (trace ++ [label]) [] next (by simp) (.step earlier taken)
      exact .step (ih.mp before) ⟨taken,(decides trace state label next earlier now taken).mp later⟩
    · intro restricted
      generalize whole : trace ++ [label] = labels at restricted
      cases restricted with
      | initial => simp at whole
      | step front last =>
        obtain ⟨rfl,same⟩ := List.append_inj' whole rfl
        obtain rfl : label = _ := by simpa using same
        obtain rfl := earlier.unique deterministic front.unrestricted
        have before := ih.mpr front
        have now := before trace [] state (by simp) earlier
        intro prefixed after middle shape run
        rcases List.eq_nil_or_concat after with rfl | ⟨init,other,rfl⟩
        · rw [List.append_nil] at shape
          subst shape
          obtain rfl := run.unique deterministic (.step earlier taken)
          exact (decides trace state label middle earlier now taken).mpr last.2
        · rw [List.concat_eq_append,← List.append_assoc] at shape
          obtain ⟨rfl,_⟩ := List.append_inj' shape rfl
          exact before prefixed init middle rfl run

section Function
variable {σ ι ω : Type} (start : σ) (answer : σ → ι → Outcome (ω × σ))

def replay : List ι → Outcome (List (ι × ω) × σ)
  | inputs => inputs.foldlM (fun (done : List (ι × ω) × σ) input => do
      let (output,next) ← answer done.2 input
      pure (done.1 ++ [(input,output)],next)) ([],start)

private theorem foldlM_run (inputs : List ι) (done result : List (ι × ω) × σ)
    (before : (ofFunction start answer).Run done.1 done.2)
    (ok : (inputs.foldlM (fun (done : List (ι × ω) × σ) input => do
      let (output,next) ← answer done.2 input
      pure (done.1 ++ [(input,output)],next)) done : Outcome _) = .ok result) :
    (ofFunction start answer).Run result.1 result.2 := by
  induction inputs generalizing done with
  | nil =>
    obtain rfl : done = result := by simpa using ok
    exact before
  | cons input inputs ih =>
    rw [List.foldlM_cons] at ok
    obtain ⟨next,first,rest⟩ := Outcome.bind_ok.mp ok
    obtain ⟨⟨output,state⟩,answered,last⟩ := Outcome.bind_ok.mp first
    obtain rfl : _ = next := by simpa using last
    have taken : (ofFunction start answer).step done.2 (input,output) state := answered
    exact ih _ (.step before taken) rest

theorem replay_run (inputs : List ι) (trace : List (ι × ω)) (state : σ)
    (ok : replay start answer inputs = .ok (trace,state)) :
    (ofFunction start answer).Run trace state :=
  foldlM_run start answer inputs ([],start) (trace,state) (.initial rfl) ok

end Function

private theorem fold_from {σ ι : Type} {system : System σ ι} {take : σ → ι → Outcome σ}
    (steps : ∀ state label after, take state label = .ok after → system.step state label after)
    {labels done : List ι} {state final : σ} (before : system.Run done state)
    (ok : labels.foldlM take state = .ok final) : system.Run (done ++ labels) final := by
  induction labels generalizing done state with
  | nil =>
    obtain rfl := Except.ok.inj ok
    rwa [List.append_nil]
  | cons label labels ih =>
    rw [List.foldlM_cons] at ok
    obtain ⟨middle,taken,rest⟩ := Outcome.bind_ok.mp ok
    have after := ih (.step before (steps _ _ _ taken)) rest
    rwa [List.append_assoc] at after

section Partial
variable {σ ι : Type} (start : σ) (next : σ → ι → Outcome σ)

def ofPartial : System σ ι where
  initial state := state = start
  step state label after := next state label = .ok after

theorem ofPartial_deterministic : (ofPartial start next).Deterministic where
  initial _ _ first second := first.trans second.symm
  step _ _ _ _ first second := Except.ok.inj (first.symm.trans second)

theorem feed_run {labels : List ι} {final : σ} (ok : labels.foldlM next start = .ok final) :
    (ofPartial start next).Run labels final :=
  fold_from (fun _ _ _ taken => taken) (.initial rfl) ok

end Partial

section Restricted
variable {σ ι : Type} (start : σ) (next : σ → ι → Outcome σ) (allowed : σ → ι → Prop)
variable [∀ state label, Decidable (allowed state label)]

def allow (state : σ) (label : ι) : Outcome σ := do
  Outcome.assert (allowed state label)
  next state label

theorem allowed_run {labels : List ι} {final : σ} (ok : labels.foldlM (allow next allowed) start = .ok final) :
    ((ofPartial start next).restrict allowed).Run labels final := by
  refine fold_from ?_ (.initial rfl) ok
  intro state label after taken
  obtain ⟨_,held,step⟩ := Outcome.bind_ok.mp taken
  exact ⟨step,(Outcome.assert_ok _ _).mp held⟩

variable (holds : σ → Prop) [DecidablePred holds]

def ends (labels : List ι) : Bool :=
  match labels.foldlM (allow next allowed) start with
  | .ok state => decide (holds state)
  | .error _ => false

theorem ends_run {labels : List ι} (ended : ends start next allowed holds labels = true) :
    ∃ state, ((ofPartial start next).restrict allowed).Run labels state ∧ holds state := by
  unfold ends at ended
  split at ended
  · rename_i state ok
    exact ⟨state,allowed_run start next allowed ok,of_decide_eq_true ended⟩
  · cases ended

end Restricted

end System

/-- Of a state of the concrete system `observe` keeps what the abstract one is about. -/
structure Simulates {σ : Type u} {α : Type v} {τ : Type w} {β : Type x} (concrete : System σ α) (abstract : System τ β)
    (observe : σ → τ) : Prop where
  initial : ∀ state, concrete.initial state → abstract.initial (observe state)
  step : ∀ trace state label next, concrete.Run trace state → concrete.step state label next →
    observe next = observe state ∨ ∃ seen, abstract.step (observe state) seen (observe next)

namespace Simulates
variable {σ : Type u} {α : Type v} {τ : Type w} {β : Type x} {concrete : System σ α} {abstract : System τ β}
variable {observe : σ → τ}

theorem run (simulates : Simulates concrete abstract observe) {trace : List α} {state : σ}
    (run : concrete.Run trace state) : ∃ seen, abstract.Run seen (observe state) := by
  induction run with
  | initial start => exact ⟨[],.initial (simulates.initial _ start)⟩
  | step before taken ih =>
    obtain ⟨seen,earlier⟩ := ih
    rcases simulates.step _ _ _ _ before taken with same | ⟨label,step⟩
    · exact ⟨seen,same.symm ▸ earlier⟩
    · exact ⟨seen ++ [label],.step earlier step⟩

theorem reachable (simulates : Simulates concrete abstract observe) {state : σ} (reachable : concrete.Reachable state) :
    abstract.Reachable (observe state) := by
  obtain ⟨trace,run⟩ := reachable
  exact simulates.run run

end Simulates
end Nak.Library
