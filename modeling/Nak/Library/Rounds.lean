import Nak.Library.Action

/-! Loops that work off a list. A round deals with the tasks of one list and collects those
that they bring up, which are dealt with in the next round; the loop ends with a round that
brings up none. -/
namespace Nak.Library.Action
variable {ε σ τ : Type} (deal : τ → Action ε σ (List τ))

def workRound : List τ → Action ε σ (List τ)
  | [] => pure []
  | task :: tasks => do
    let new ← deal task
    let more ← workRound tasks
    pure (new ++ more)

/-- The loop ends after so many rounds with the outcome. -/
inductive Rounds : Nat → List τ → σ → Outcome (Except ε Unit × σ) → Prop
  | panics {tasks state message} (panics : workRound deal tasks state = .error message) :
      Rounds 1 tasks state (.error message)
  | raises {tasks state error next} (raises : workRound deal tasks state = .ok (.error error,next)) :
      Rounds 1 tasks state (.ok (.error error,next))
  | done {tasks state next} (done : workRound deal tasks state = .ok (.ok [],next)) :
      Rounds 1 tasks state (.ok (.ok (),next))
  | again {count tasks state new middle outcome} (some : new ≠ [])
      (round : workRound deal tasks state = .ok (.ok new,middle))
      (rest : Rounds count new middle outcome) : Rounds (count + 1) tasks state outcome

/-- Tasks that bring up others make the state smaller. -/
structure Drops (size : σ → Nat) : Prop where
  drops : ∀ {task state new next}, deal task state = .ok (.ok new,next) →
    size next ≤ size state ∧ (new ≠ [] → size next < size state)

variable {deal} {tasks new : List τ} {state next : σ}

theorem Drops.round {size : σ → Nat} (drops : Drops deal size) (ok : workRound deal tasks state = .ok (.ok new,next)) :
    size next ≤ size state ∧ (new ≠ [] → size next < size state) := by
  induction tasks generalizing state new with
  | nil =>
    obtain ⟨rfl,rfl⟩ := pure_ok.mp ok
    exact ⟨le_rfl,by simp⟩
  | cons task tasks ih =>
    obtain ⟨first,middle,one,ok⟩ := bind_ok.mp ok
    obtain ⟨more,last,rest,ok⟩ := bind_ok.mp ok
    obtain ⟨rfl,rfl⟩ := pure_ok.mp ok
    obtain ⟨oneLe,oneLt⟩ := drops.drops one
    obtain ⟨restLe,restLt⟩ := ih rest
    refine ⟨restLe.trans oneLe,fun some => ?_⟩
    rcases first with _ | ⟨task,first⟩
    · have later := restLt some
      omega
    · have earlier := oneLt (by simp)
      omega

/-- Every round but the last makes the state smaller, so the loop ends. -/
theorem Drops.rounds {size : σ → Nat} (drops : Drops deal size) (tasks : List τ) (state : σ) :
    ∃ count outcome, count ≤ size state + 1 ∧ Rounds deal count tasks state outcome := by
  induction bound : size state using Nat.strong_induction_on generalizing tasks state with
  | _ bound' ih =>
    subst bound
    cases ended : workRound deal tasks state with
    | error message => exact ⟨1,_,by omega,.panics ended⟩
    | ok done =>
      obtain ⟨value,middle⟩ := done
      cases value with
      | error e => exact ⟨1,_,by omega,.raises ended⟩
      | ok new =>
        by_cases none : new = []
        · subst none
          exact ⟨1,_,by omega,.done ended⟩
        · have fewer := (drops.round ended).2 none
          obtain ⟨count,outcome,few,rest⟩ := ih (size middle) fewer new middle rfl
          exact ⟨count + 1,outcome,by omega,.again none ended rest⟩

/-- As the tasks of a round are handled after those that were there before, the rounds
together work through one queue. -/
private theorem round_queue (holds : List τ → σ → Prop)
    (keeps : ∀ task rest state new next, holds (task :: rest) state →
      deal task state = .ok (.ok new,next) → holds (rest ++ new) next)
    (later : List τ) (before : holds (tasks ++ later) state)
    (ok : workRound deal tasks state = .ok (.ok new,next)) : holds (later ++ new) next := by
  induction tasks generalizing state later new with
  | nil =>
    obtain ⟨rfl,rfl⟩ := pure_ok.mp ok
    simpa using before
  | cons task tasks ih =>
    obtain ⟨first,middle,one,ok⟩ := bind_ok.mp ok
    obtain ⟨more,last,rest,ok⟩ := bind_ok.mp ok
    obtain ⟨rfl,rfl⟩ := pure_ok.mp ok
    have queued := keeps task (tasks ++ later) state first middle before one
    rw [List.append_assoc] at queued
    have done := ih _ queued rest
    rwa [List.append_assoc] at done

theorem Rounds.queue (holds : List τ → σ → Prop)
    (keeps : ∀ task rest state new next, holds (task :: rest) state →
      deal task state = .ok (.ok new,next) → holds (rest ++ new) next)
    {count : Nat} (rounds : Rounds deal count tasks state (.ok (.ok (),next))) (before : holds tasks state) :
    holds [] next := by
  generalize shape : (.ok (.ok (),next) : Outcome (Except ε Unit × σ)) = outcome at rounds
  induction rounds with
  | panics => cases shape
  | raises => cases shape
  | done done =>
    obtain ⟨_,rfl⟩ := Prod.mk.inj (Except.ok.inj shape)
    exact round_queue holds keeps [] (by rwa [List.append_nil]) done
  | again some round rest ih =>
    have after := round_queue holds keeps [] (by rwa [List.append_nil]) round
    exact ih after shape

inductive Reaches (deal : τ → Action ε σ (List τ)) (tasks : List τ) (state : σ) : List τ → σ → Prop
  | start : Reaches deal tasks state tasks state
  | step {task rest new middle next} (before : Reaches deal tasks state (task :: rest) middle)
      (dealt : deal task middle = .ok (.ok new,next)) : Reaches deal tasks state (rest ++ new) next

namespace Reaches
variable {queue other : List τ} {middle final : σ}

theorem trans (first : Reaches deal tasks state queue middle) (second : Reaches deal queue middle other final) :
    Reaches deal tasks state other final := by
  induction second with
  | start => exact first
  | step _ dealt ih => exact .step ih dealt

theorem cases_head (reaches : Reaches deal tasks state queue middle) : (queue = tasks ∧ middle = state) ∨
    ∃ task rest new next, tasks = task :: rest ∧ deal task state = .ok (.ok new,next) ∧
      Reaches deal (rest ++ new) next queue middle := by
  induction reaches with
  | start => exact Or.inl ⟨rfl,rfl⟩
  | step before dealt ih =>
    rename_i task rest new middle next
    right
    rcases ih with ⟨rfl,rfl⟩ | ⟨task',rest',new',next',shape,first,later⟩
    · exact ⟨task,rest,new,next,rfl,dealt,.start⟩
    · exact ⟨task',rest',new',next',shape,first,.step later dealt⟩

theorem comparable (first : Reaches deal tasks state queue middle) (second : Reaches deal tasks state other final) :
    Reaches deal queue middle other final ∨ Reaches deal other final queue middle := by
  induction first with
  | start => exact Or.inl second
  | step before dealt ih =>
    rcases ih with later | earlier
    · rcases later.cases_head with ⟨rfl,rfl⟩ | ⟨task,rest,new,next,shape,first,later⟩
      · exact Or.inr (.step .start dealt)
      · obtain ⟨rfl,rfl⟩ := List.cons.inj shape
        obtain ⟨same,rfl⟩ := Prod.mk.inj (Except.ok.inj (first.symm.trans dealt))
        obtain rfl := Except.ok.inj same
        exact Or.inl later
    · exact Or.inr (.step earlier dealt)

theorem dealt (ends : Reaches deal tasks state [] final) {task : τ}
    (reaches : Reaches deal tasks state (task :: queue) middle) :
    ∃ new next, deal task middle = .ok (.ok new,next) := by
  rcases reaches.comparable ends with later | earlier
  · rcases later.cases_head with ⟨shape,_⟩ | ⟨task,rest,new,next,shape,first,_⟩
    · cases shape
    · obtain ⟨rfl,rfl⟩ := List.cons.inj shape
      exact ⟨new,next,first⟩
  · rcases earlier.cases_head with ⟨shape,_⟩ | ⟨task,rest,new,next,shape,_⟩
    · cases shape
    · cases shape

end Reaches

def Dealt (deal : τ → Action ε σ (List τ)) (tasks : List τ) (state : σ) : Prop :=
  ∀ task rest middle, Reaches deal tasks state (task :: rest) middle → ∃ new next, deal task middle = .ok (.ok new,next)

private theorem Dealt.round {later : List τ} (dealt : Dealt deal (tasks ++ later) state) :
    ∃ new next, workRound deal tasks state = .ok (.ok new,next) ∧
      Reaches deal (tasks ++ later) state (later ++ new) next := by
  induction tasks generalizing state later with
  | nil => exact ⟨[],state,rfl,by simpa using Reaches.start⟩
  | cons task tasks ih =>
    obtain ⟨first,middle,one⟩ := dealt task _ state .start
    have step : Reaches deal (task :: tasks ++ later) state (tasks ++ (later ++ first)) middle := by
      rw [← List.append_assoc]
      exact .step .start one
    obtain ⟨more,next,rest,reaches⟩ := ih fun task rest state reaches => dealt task rest state (step.trans reaches)
    refine ⟨first ++ more,next,?_,?_⟩
    · rw [workRound,ok_bind one,ok_bind rest]
      rfl
    · rw [← List.append_assoc]
      exact step.trans reaches

private theorem Dealt.whole (dealt : Dealt deal tasks state) :
    ∃ new next, workRound deal tasks state = .ok (.ok new,next) ∧ Reaches deal tasks state new next := by
  have all : Dealt deal (tasks ++ []) state := by rwa [List.append_nil]
  obtain ⟨new,next,ok,reaches⟩ := all.round
  rw [List.append_nil,List.nil_append] at reaches
  exact ⟨new,next,ok,reaches⟩

/-- The loop returns exactly when every task that it reaches can be dealt with. -/
theorem Rounds.returns_iff {count : Nat} {outcome : Outcome (Except ε Unit × σ)}
    (rounds : Rounds deal count tasks state outcome) :
    (∃ next, outcome = .ok (.ok (),next)) ↔ Dealt deal tasks state := by
  constructor
  · intro given task rest middle reaches
    obtain ⟨next,rfl⟩ := given
    have ends : Reaches deal tasks state [] next :=
      rounds.queue (Reaches deal tasks state) (fun _ _ _ _ _ before dealt => .step before dealt) .start
    exact ends.dealt reaches
  · intro dealt
    induction rounds with
    | panics panics =>
      obtain ⟨_,_,ok,_⟩ := dealt.whole
      rw [panics] at ok
      cases ok
    | raises raises =>
      obtain ⟨_,_,ok,_⟩ := dealt.whole
      rw [raises] at ok
      cases ok
    | done => exact ⟨_,rfl⟩
    | again some round rest ih =>
      obtain ⟨_,_,ok,reaches⟩ := dealt.whole
      rw [round] at ok
      obtain ⟨same,rfl⟩ := Prod.mk.inj (Except.ok.inj ok)
      obtain rfl := Except.ok.inj same
      exact ih fun task rest state later => dealt task rest state (reaches.trans later)

namespace Avoids
variable {message : Panic}

theorem round (avoids : ∀ task, Avoids message (deal task)) : Avoids message (workRound deal tasks) := by
  induction tasks with
  | nil => exact .pure _
  | cons task tasks ih => exact .bind (avoids task) fun _ => .bind ih fun _ => .pure _

theorem rounds (avoids : ∀ task, Avoids message (deal task)) {count : Nat} {outcome : Outcome (Except ε Unit × σ)}
    (rounds : Rounds deal count tasks state outcome) : outcome ≠ .error message := by
  induction rounds with
  | panics panics =>
    intro same
    exact (round avoids).never (panics.trans (congrArg _ (Except.error.inj same)))
  | raises => simp
  | done => simp
  | again some round rest ih => exact ih

end Avoids
end Nak.Library.Action
