import Nak.ExecEvents

/-! Cancelling. `cancel` knows the running and the finished pids only: it panics for one that
waits or was refused, for one whose edit is open, and when the kill is answered with an error. -/
namespace Nak.ExecInternal
open Library Action
variable {os : Os} {exec next : ExecInternal}

/-- The event is handled without a panic and the machine stays as it is. -/
def CancelsSafely (os : Os) (exec : ExecInternal) (pid : ProcessId) : Prop :=
  ∃ next, handle os (.cancelExec pid) exec = .ok next ∧ next.machine = exec.machine

private theorem handle_cancel {pid : ProcessId} {status : Status ProcessState}
    (found : exec.machine.status pid = .ok status) :
    handle os (.cancelExec pid) exec = .ok next ↔ (match status with
      | .running (.running handle) => (do
          (Action.propagate os.lock).unwrap
          .propagate os.kill
          cause (.killed handle) : Exec Unit)
      | .running .awaitingEdit => .panic .explicit
      | .exited _ => pure ()) exec = .ok (.ok (),next) := by
  rw [handle_ok]
  change cancel os pid exec = _ ↔ _
  unfold cancel
  rw [get_bind,lift_bind_ok,found]
  constructor
  · intro given
    obtain ⟨_,same,ok⟩ := given
    obtain rfl := Except.ok.inj same
    exact ok
  · exact fun ok => ⟨status,rfl,ok⟩

private theorem status_running {pid : ProcessId} {state : ProcessState}
    (running : exec.machine.running.lookup pid = some state) : exec.machine.status pid = .ok (.running state) := by
  rw [Machine.status,running]

private theorem kill_safely {pid : ProcessId} {child : Child}
    (running : exec.machine.running.lookup pid = some (.running child)) :
    CancelsSafely os exec pid ↔ os.lock = .ok () ∧ os.kill = .ok () := by
  have found := status_running running
  constructor
  · intro given
    obtain ⟨next,ok,_⟩ := given
    have ok := (handle_cancel found).mp ok
    obtain ⟨_,_,locked,ok⟩ := bind_ok.mp ok
    obtain ⟨_,_,locked⟩ := unwrap_ok.mp locked
    obtain ⟨_,_,killed,_⟩ := bind_ok.mp ok
    exact ⟨(Prod.mk.inj (Except.ok.inj locked)).1,(Prod.mk.inj (Except.ok.inj killed)).1⟩
  · intro given
    obtain ⟨locked,killed⟩ := given
    refine ⟨{ exec with effects := exec.effects ++ [.killed child] },(handle_cancel found).mpr ?_,rfl⟩
    rw [locked,killed]
    rfl

/-- Of all the places a pid can be in, cancelling is safe in two: among the finished pids,
and among the running ones as a process that can be killed. -/
theorem cancels_safely_iff (os : Os) (exec : ExecInternal) (reachable : system.Reachable exec) (pid : ProcessId) :
    CancelsSafely os exec pid ↔ pid ∈ exec.machine.finished ∨
      ∃ child, exec.machine.running.lookup pid = some (.running child) ∧ os.lock = .ok () ∧ os.kill = .ok () := by
  have inv := reachable_machine reachable
  cases running : exec.machine.running.lookup pid with
  | some state =>
    have member := FiniteMap.mem_of_lookup running
    have unfinished : pid ∉ exec.machine.finished :=
      fun finished => inv.finished_apart pid finished (Or.inr (Or.inl member))
    cases state with
    | running child =>
      rw [kill_safely running]
      constructor
      · exact fun killed => Or.inr ⟨child,rfl,killed⟩
      · intro either
        rcases either with finished | ⟨_,_,killed⟩
        · exact absurd finished unfinished
        · exact killed
    | awaitingEdit =>
      constructor
      · intro given
        obtain ⟨next,ok,_⟩ := given
        have ok := (handle_cancel (status_running running)).mp ok
        cases ok
      · intro either
        rcases either with finished | ⟨_,same,_⟩
        · exact absurd finished unfinished
        · cases same
  | none =>
    cases finished : exec.machine.finished.lookup pid with
    | some exit =>
      have found : exec.machine.status pid = .ok (.exited exit) := by rw [Machine.status,running,finished]
      constructor
      · exact fun _ => Or.inl (FiniteMap.mem_of_lookup finished)
      · exact fun _ => ⟨exec,(handle_cancel found).mpr rfl,rfl⟩
    | none =>
      have lost : exec.machine.status pid = .error .explicit := by rw [Machine.status,running,finished]
      constructor
      · intro given
        obtain ⟨next,ok,_⟩ := given
        have ok := handle_ok.mp ok
        change cancel os pid exec = _ at ok
        unfold cancel at ok
        rw [get_bind,lift_bind_ok,lost] at ok
        obtain ⟨_,⟨⟩,_⟩ := ok
      · intro either
        rcases either with member | ⟨_,same,_⟩
        · exact absurd member (Finmap.lookup_eq_none.mp finished)
        · cases same

private def sleeper : RunCmd := ⟨.unknown "sleep" ["9"],⟨1⟩,⟨2⟩,⟨3⟩⟩

private def prompt : RunCmd := ⟨.getDirectory,⟨4⟩,⟨5⟩,⟨6⟩⟩

private def line : List (Os × ExecEvent) :=
  [(.working,.enqueue ⟨0⟩ sleeper ∅),(.working,.enqueue ⟨1⟩ prompt (AList.insert ⟨0⟩ none ∅))]

private theorem line_handled : ∃ exec, line.foldlM (fun exec label => handle label.1 label.2 exec) new = .ok exec ∧
    exec.machine.running.lookup ⟨0⟩ = some (.running ⟨0⟩) ∧
    handle .working (.cancelExec ⟨1⟩) exec = .error .explicit :=
  ⟨_,rfl,rfl,rfl⟩

theorem cancels_safely_sleeper : ∃ exec, CancelsSafely .working exec ⟨0⟩ := by
  obtain ⟨exec,handled,running,_⟩ := line_handled
  have reachable := (System.feed_run new _ handled).reachable
  exact ⟨exec,(cancels_safely_iff .working exec reachable ⟨0⟩).mpr (Or.inr ⟨⟨0⟩,running,rfl,rfl⟩)⟩

/-- Ctrl-C while a line runs: the command that reads the directory waits for the others, and
cancelling it ends the event loop. -/
theorem cancel_waiting_fatal : ∃ exec, system.Run line exec ∧
    handle .working (.cancelExec ⟨1⟩) exec = .error .explicit := by
  obtain ⟨exec,handled,_,fatal⟩ := line_handled
  exact ⟨exec,System.feed_run new _ handled,fatal⟩

end Nak.ExecInternal
