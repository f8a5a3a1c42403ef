import Nak.MachineGating
import Nak.MachineAccount

/-! The stages a pid goes through. A pid that no longer waits never waits again, and a pid
that was enqueued to wait for another gets ready only when that one has finished. -/
namespace Nak.Machine
open Library
variable {Id Cmd State : Type} [DecidableEq Id] {machine next : Machine Id Cmd State}
variable {call : Call Id Cmd State} {tasks : List (Task Id Cmd)}

def Ready (machine : Machine Id Cmd State) (pid : Id) : Prop :=
  pid ∈ machine.toRun ∨ pid ∈ machine.running ∨ pid ∈ machine.finished

/-- The waiter cannot get ready before the pid has finished. -/
structure Gated (machine : Machine Id Cmd State) (pid waiter : Id) : Prop where
  ready : machine.Ready waiter → pid ∈ machine.finished
  waiting : ∀ waiting, machine.waitingOn.lookup waiter = some waiting →
    pid ∈ waiting.conditions ∨ pid ∈ machine.finished

theorem Gated.of_unknown {pid waiter : Id} (unknown : ¬machine.Known waiter) : machine.Gated pid waiter where
  ready := by
    intro ready
    refine absurd ?_ unknown
    rcases ready with toRun | running | finished
    · exact Or.inr (Or.inl toRun)
    · exact Or.inr (Or.inr (Or.inl running))
    · exact Or.inl finished
  waiting := by
    intro waiting found
    exact absurd (Or.inr (Or.inr (Or.inr (FiniteMap.mem_of_lookup found)))) unknown

theorem CallCases.finished_kept (inv : Inv machine) (cases : CallCases machine call tasks next) {pid : Id}
    (finished : pid ∈ machine.finished) : pid ∈ next.finished := by
  obtain ⟨status,found⟩ := Finmap.mem_iff.mp finished
  exact FiniteMap.mem_of_lookup (cases.finished inv found)

namespace Finishes
variable {pid other waiter : Id} {status : ExitStatus}

theorem kept (finishes : Finishes machine pid status tasks next) (finished : other ∈ machine.finished) :
    other ∈ next.finished := by
  rw [finishes.finished]
  exact Finmap.mem_insert.mpr (Or.inr finished)

theorem done (finishes : Finishes machine pid status tasks next) : pid ∈ next.finished := by
  rw [finishes.finished]
  exact Finmap.mem_insert.mpr (Or.inl rfl)

theorem ready (finishes : Finishes machine pid status tasks next) (ready : machine.Ready other) :
    next.Ready other := by
  by_cases same : other = pid
  · exact Or.inr (Or.inr (same ▸ finishes.done))
  · rcases ready with toRun | running | finished
    · exact Or.inl ((finishes.toRun other).mpr (Or.inl ⟨toRun,same⟩))
    · rw [Ready,finishes.running]
      exact Or.inr (Or.inl (Finmap.mem_erase.mpr ⟨same,running⟩))
    · exact Or.inr (Or.inr (finishes.kept finished))

theorem gated (finishes : Finishes machine pid status tasks next)
    (ready : pid ∈ machine.toRun ∨ pid ∈ machine.running) (gated : machine.Gated other waiter) :
    next.Gated other waiter where
  ready := by
    have settled (was : machine.Ready waiter) : other ∈ next.finished := finishes.kept (gated.ready was)
    intro either
    rcases either with toRun | running | finished
    · rcases (finishes.toRun waiter).mp toRun with ⟨old,_⟩ | released
      · exact settled (Or.inl old)
      · obtain ⟨task,some⟩ := Option.isSome_iff_exists.mp released
        obtain ⟨waiting,found,last⟩ := Option.bind_eq_some_iff.mp some
        rcases gated.waiting waiting found with listed | done
        · split at last
          · rename_i empty
            -- Nothing but the pid that has finished was left to wait for.
            have absent := (FiniteMap.len_eq_zero _).mp empty other
            by_cases same : other = pid
            · exact same ▸ finishes.done
            · rw [Finmap.lookup_erase_ne same] at absent
              exact absurd listed (Finmap.lookup_eq_none.mp absent)
          · cases last
        · exact finishes.kept done
    · rw [finishes.running] at running
      exact settled (Or.inr (Or.inl (Finmap.mem_erase.mp running).2))
    · rw [finishes.finished] at finished
      rcases Finmap.mem_insert.mp finished with same | old
      · rw [same] at settled
        exact settled (ready.elim Or.inl fun running => Or.inr (Or.inl running))
      · exact settled (Or.inr (Or.inr old))
  waiting := by
    intro waiting found
    obtain ⟨before,old,_,conditions,_⟩ := finishes.waiting found
    rcases gated.waiting before old with listed | done
    · by_cases same : other = pid
      · exact Or.inr (same ▸ finishes.done)
      · exact Or.inl (by rw [conditions]; exact Finmap.mem_erase.mpr ⟨same,listed⟩)
    · exact Or.inr (finishes.kept done)

end Finishes

theorem CallCases.ready (cases : CallCases machine call tasks next) {pid : Id} (ready : machine.Ready pid) :
    next.Ready pid := by
  cases cases with
  | enqueue newPid cmd blockFor tasks next fresh enqueued =>
    cases enqueued with
    | refused => exact ready
    | ready passed all =>
      exact ready.imp (fun toRun => Finset.mem_insert_of_mem toRun) id
    | blocked next passed some after =>
      unfold Ready
      rw [after.toRun,after.running,after.finished]
      exact ready
  | start started state toRun =>
    rcases ready with member | running | finished
    · by_cases same : pid = started
      · exact Or.inr (Or.inl (Finmap.mem_insert.mpr (Or.inl same)))
      · exact Or.inl (Finset.mem_erase.mpr ⟨same,member⟩)
    · exact Or.inr (Or.inl (Finmap.mem_insert.mpr (Or.inr running)))
    · exact Or.inr (Or.inr finished)
  | startCompleted done status tasks next toRun undisputed finishes => exact finishes.ready ready
  | completed done status tasks next running undisputed finishes => exact finishes.ready ready

theorem CallCases.gated (cases : CallCases machine call tasks next) {pid waiter : Id}
    (gated : machine.Gated pid waiter)
    (blocks : ∀ cmd blockFor, call = .enqueue waiter cmd blockFor → pid ∈ blockFor) : next.Gated pid waiter := by
  cases cases with
  | enqueue newPid cmd blockFor tasks next fresh enqueued =>
    cases enqueued with
    | refused => exact gated
    | ready passed all =>
      refine ⟨?_,gated.waiting⟩
      intro either
      rcases either with toRun | later
      · rcases Finset.mem_insert.mp toRun with same | old
        · subst same
          have listed := AList.lookup_isSome.mpr (blocks cmd blockFor rfl)
          have settled := all pid
          unfold residual at settled
          split at settled
          · assumption
          · simp [settled] at listed
        · exact gated.ready (Or.inl old)
      · exact gated.ready (Or.inr later)
    | blocked next passed some after =>
      obtain ⟨conditions,left,shape⟩ := after.waitingOn
      constructor
      · unfold Ready
        rw [after.toRun,after.running,after.finished]
        exact gated.ready
      · intro waiting found
        rw [after.finished]
        rw [shape,FiniteMap.lookup_insert_if] at found
        split at found
        · rename_i same
          subst same
          obtain rfl := Option.some.inj found
          by_cases done : pid ∈ machine.finished
          · exact Or.inr done
          · have listed := AList.lookup_isSome.mpr (blocks cmd blockFor rfl)
            refine Or.inl (Finmap.lookup_isSome.mp ?_)
            rw [left,residual,if_neg done]
            exact listed
        · exact gated.waiting waiting found
  | start started state toRun =>
    refine ⟨fun ready => gated.ready ?_,gated.waiting⟩
    rcases ready with member | running | finished
    · exact Or.inl (Finset.mem_of_mem_erase member)
    · rcases Finmap.mem_insert.mp running with same | old
      · exact Or.inl (same ▸ toRun)
      · exact Or.inr (Or.inl old)
    · exact Or.inr (Or.inr finished)
  | startCompleted done status tasks next toRun undisputed finishes => exact finishes.gated (Or.inl toRun) gated
  | completed done status tasks next running undisputed finishes => exact finishes.gated (Or.inr running) gated

/-- What starting and finishing commands does to the pids. -/
structure Onward (machine next : Machine Id Cmd State) : Prop where
  finished : ∀ pid ∈ machine.finished, pid ∈ next.finished
  ready : ∀ pid, machine.Ready pid → next.Ready pid
  known : ∀ pid, next.Known pid → machine.Known pid
  gated : ∀ pid waiter, machine.Gated pid waiter → next.Gated pid waiter
  waiting : ∀ pid waiting, next.waitingOn.lookup pid = some waiting →
    ∃ before, machine.waitingOn.lookup pid = some before ∧ waiting.cmd = before.cmd

theorem Onward.refl : Onward machine machine where
  finished _ := id
  ready _ := id
  known _ := id
  gated _ _ := id
  waiting _ waiting found := ⟨waiting,found,rfl⟩

theorem Onward.trans {last : Machine Id Cmd State} (first : Onward machine next) (second : Onward next last) :
    Onward machine last where
  finished pid member := second.finished pid (first.finished pid member)
  ready pid ready := second.ready pid (first.ready pid ready)
  known pid known := first.known pid (second.known pid known)
  gated pid waiter gated := second.gated pid waiter (first.gated pid waiter gated)
  waiting := by
    intro pid waiting found
    obtain ⟨middle,lookup,same⟩ := second.waiting pid waiting found
    obtain ⟨before,old,same'⟩ := first.waiting pid middle lookup
    exact ⟨before,old,same.trans same'⟩

theorem CallCases.onward (inv : Inv machine) (cases : CallCases machine call tasks next)
    (other : enqueuedPid call = none) : Onward machine next where
  finished _ := cases.finished_kept inv
  ready _ := cases.ready
  known pid known := (cases.known_before known).resolve_right (by simp [other])
  gated pid waiter gated := cases.gated gated (by rintro cmd blockFor rfl; simp [enqueuedPid] at other)
  waiting := by
    intro pid waiting found
    rcases cases.waiting_before found with old | ⟨blockFor,same,_⟩
    · exact old
    · rw [same] at other
      simp [enqueuedPid] at other

end Nak.Machine
