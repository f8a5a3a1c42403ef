import Nak.MachineCascade

/-! Where the enqueued pids are. A command whose condition is already contradicted when it
is enqueued is reported as failed but put into none of the four collections; in every
other case the pid is from then on in exactly one of them. -/
namespace Nak.Machine
open Library
variable {Id Cmd State : Type} [DecidableEq Id] {machine next : Machine Id Cmd State}

def occurrences (machine : Machine Id Cmd State) (pid : Id) : Nat :=
  [decide (pid ∈ machine.finished),decide (pid ∈ machine.toRun),decide (pid ∈ machine.running),
    decide (pid ∈ machine.waitingOn)].count true

def enqueuedPid : Call Id Cmd State → Option Id
  | .enqueue pid _ _ => some pid
  | _ => none

def enqueuedPids (trace : List (Call Id Cmd State × List (Task Id Cmd))) : List Id :=
  trace.filterMap fun label => enqueuedPid label.1

theorem Inv.occurrences_known (inv : Inv machine) (pid : Id) :
    machine.occurrences pid = if machine.Known pid then 1 else 0 := by
  have apart := inv.finished_apart pid
  have toRun := inv.toRun_apart pid
  have running := inv.running_apart pid
  unfold occurrences Known
  unfold Unfinished at *
  by_cases isFinished : pid ∈ machine.finished
  · simp_all
  · by_cases isToRun : pid ∈ machine.toRun
    · simp_all
    · by_cases isRunning : pid ∈ machine.running
      · simp_all
      · by_cases isWaiting : pid ∈ machine.waitingOn <;> simp_all

theorem Finishes.known {pid other : Id} {status : ExitStatus} {tasks : List (Task Id Cmd)}
    (finishes : Finishes machine pid status tasks next) (known : machine.Known other) : next.Known other := by
  by_cases same : other = pid
  · exact Or.inl (by rw [finishes.finished]; exact Finmap.mem_insert.mpr (Or.inl same))
  · rcases known with finished | unfinished
    · exact Or.inl (by rw [finishes.finished]; exact Finmap.mem_insert.mpr (Or.inr finished))
    · exact Or.inr (finishes.unfinished unfinished same)

theorem CallCases.known {call : Call Id Cmd State} {tasks : List (Task Id Cmd)}
    (cases : CallCases machine call tasks next) {pid : Id} (known : machine.Known pid) : next.Known pid := by
  cases cases with
  | enqueue newPid cmd blockFor tasks next fresh enqueued =>
    cases enqueued with
    | refused => exact known
    | ready passed all =>
      rcases known with finished | toRun | other
      · exact Or.inl finished
      · exact Or.inr (Or.inl (Finset.mem_insert_of_mem toRun))
      · exact Or.inr (Or.inr other)
    | blocked next passed some after =>
      rcases known with finished | unfinished
      · exact Or.inl (by rw [after.finished]; exact finished)
      · exact Or.inr ((after.unfinished_iff pid).mpr (Or.inr unfinished))
  | start other state toRun =>
    rcases known with finished | isToRun | running | waiting
    · exact Or.inl finished
    · by_cases same : pid = other
      · exact Or.inr (Or.inr (Or.inl (Finmap.mem_insert.mpr (Or.inl same))))
      · exact Or.inr (Or.inl (Finset.mem_erase.mpr ⟨same,isToRun⟩))
    · exact Or.inr (Or.inr (Or.inl (Finmap.mem_insert.mpr (Or.inr running))))
    · exact Or.inr (Or.inr (Or.inr waiting))
  | startCompleted other status tasks next toRun undisputed finishes => exact finishes.known known
  | completed other status tasks next running undisputed finishes => exact finishes.known known

theorem Enqueued.known {newPid : Id} {cmd : Cmd} {blockFor : OrderedMap Id Condition} {tasks : List (Task Id Cmd)}
    (enqueued : Enqueued machine newPid cmd blockFor tasks next)
    (accepted : ∀ entry ∈ blockFor.entries, ¬machine.Refuses entry) : next.Known newPid := by
  cases enqueued with
  | refused before entry after shape passed refuses => exact absurd refuses (accepted entry (by simp [shape]))
  | ready => exact Or.inr (Or.inl (Finset.mem_insert_self _ _))
  | blocked next passed some after => exact Or.inr ((after.unfinished_iff newPid).mpr (Or.inl rfl))

theorem Enqueued.refused_of {newPid : Id} {cmd : Cmd} {blockFor : OrderedMap Id Condition}
    {tasks : List (Task Id Cmd)} (enqueued : Enqueued machine newPid cmd blockFor tasks next)
    {entry : Σ _ : Id, Condition} (member : entry ∈ blockFor.entries) (refuses : machine.Refuses entry) :
    tasks = [.conditionFailed newPid cmd] ∧ next = machine := by
  cases enqueued with
  | refused => exact ⟨rfl,rfl⟩
  | ready passed => exact absurd (passed entry member) (refuses_not_passes refuses)
  | blocked next passed => exact absurd (passed entry member) (refuses_not_passes refuses)

/-- After these calls no enqueued pid is forgotten. -/
structure Accounted (trace : List (Call Id Cmd State × List (Task Id Cmd))) (machine : Machine Id Cmd State) :
    Prop where
  once : ∀ pid ∈ enqueuedPids trace, machine.occurrences pid = 1
  blockable : ∀ pid cmd blockFor, pid ∉ enqueuedPids trace → (∀ earlier ∈ blockFor, earlier ∈ enqueuedPids trace) →
    (machine.enqueue pid cmd blockFor).Returns
  single : ∀ pid cmd blockFor, pid ∈ enqueuedPids trace → ¬(machine.enqueue pid cmd blockFor).Returns

/-- No condition of an enqueued command was contradicted by a pid finished before. -/
def Accepting (trace : List (Call Id Cmd State × List (Task Id Cmd))) : Prop :=
  ∀ before pid cmd blockFor tasks after machine,
    trace = before ++ (.enqueue pid cmd blockFor,tasks) :: after → system.Run before machine →
    ∀ entry ∈ blockFor.entries, ¬machine.Refuses entry

theorem deterministic : (system : System (Machine Id Cmd State) _).Deterministic :=
  System.ofFunction_deterministic new call

omit [DecidableEq Id] in
theorem enqueuedPids_append (trace : List (Call Id Cmd State × List (Task Id Cmd)))
    (label : Call Id Cmd State × List (Task Id Cmd)) :
    enqueuedPids (trace ++ [label]) = enqueuedPids trace ++ (enqueuedPid label.1).toList := by
  rw [enqueuedPids,enqueuedPids,List.filterMap_append]
  cases found : enqueuedPid label.1 <;> simp [found]

theorem CallCases.known_before {call : Call Id Cmd State} {tasks : List (Task Id Cmd)}
    (cases : CallCases machine call tasks next) {pid : Id} (known : next.Known pid) :
    machine.Known pid ∨ enqueuedPid call = some pid := by
  have finishing {other : Id} {status : ExitStatus} {tasks : List (Task Id Cmd)} {next : Machine Id Cmd State}
      (finishes : Finishes machine other status tasks next) (old : machine.Known other) (known : next.Known pid) :
      machine.Known pid := by
    rcases known with finished | unfinished
    · rw [finishes.finished] at finished
      rcases Finmap.mem_insert.mp finished with rfl | finished
      · exact old
      · exact Or.inl finished
    · exact Or.inr (finishes.unfinished_before unfinished)
  cases cases with
  | enqueue newPid cmd blockFor tasks next fresh enqueued =>
    cases enqueued with
    | refused => exact Or.inl known
    | ready passed all =>
      rcases known with finished | toRun | other
      · exact Or.inl (Or.inl finished)
      · rcases Finset.mem_insert.mp toRun with rfl | toRun
        · exact Or.inr rfl
        · exact Or.inl (Or.inr (Or.inl toRun))
      · exact Or.inl (Or.inr (Or.inr other))
    | blocked next passed some after =>
      rcases known with finished | unfinished
      · rw [after.finished] at finished
        exact Or.inl (Or.inl finished)
      · rcases (after.unfinished_iff pid).mp unfinished with rfl | old
        · exact Or.inr rfl
        · exact Or.inl (Or.inr old)
  | start other state toRun =>
    refine Or.inl ?_
    rcases known with finished | isToRun | running | waiting
    · exact Or.inl finished
    · exact Or.inr (Or.inl (Finset.mem_of_mem_erase isToRun))
    · rcases Finmap.mem_insert.mp running with rfl | running
      · exact Or.inr (Or.inl toRun)
      · exact Or.inr (Or.inr (Or.inl running))
    · exact Or.inr (Or.inr (Or.inr waiting))
  | startCompleted other status tasks next toRun undisputed finishes =>
    exact Or.inl (finishing finishes (Or.inr (Or.inl toRun)) known)
  | completed other status tasks next running undisputed finishes =>
    exact Or.inl (finishing finishes (Or.inr (Or.inr (Or.inl running))) known)

theorem known_enqueued {trace : List (Call Id Cmd State × List (Task Id Cmd))} (run : system.Run trace machine)
    {pid : Id} (known : machine.Known pid) : pid ∈ enqueuedPids trace := by
  induction run with
  | initial start =>
    obtain rfl := start
    simp [new,Known,Unfinished,Finmap.notMem_empty] at known
  | step before taken ih =>
    rw [enqueuedPids_append,List.mem_append]
    rcases ((reachable_inv before.reachable).call_cases taken).known_before known with old | new
    · exact Or.inl (ih old)
    · exact Or.inr (by simp [new])

theorem enqueued_known {trace : List (Call Id Cmd State × List (Task Id Cmd))} (run : system.Run trace machine)
    (accepting : Accepting trace) (pid : Id) (member : pid ∈ enqueuedPids trace) : machine.Known pid := by
  induction run with
  | initial => simp [enqueuedPids] at member
  | step before taken ih =>
    rename_i trace state label next
    have inv := reachable_inv before.reachable
    have cases := inv.call_cases taken
    rw [enqueuedPids_append,List.mem_append] at member
    rcases member with old | new
    · refine cases.known (ih ?_ old)
      intro first pid cmd blockFor tasks after machine shape
      exact accepting first pid cmd blockFor tasks (after ++ [label]) machine (by simp [shape])
    · obtain ⟨call,tasks⟩ := label
      cases call with
      | enqueue newPid cmd blockFor =>
        obtain rfl : pid = newPid := by simpa [enqueuedPid] using new
        cases cases with
        | enqueue _ _ _ _ _ fresh enqueued =>
          exact enqueued.known (accepting trace pid cmd blockFor tasks [] state rfl before)
      | start => simp [enqueuedPid] at new
      | startCompleted => simp [enqueuedPid] at new
      | completed => simp [enqueuedPid] at new

theorem accounted_of_accepting {trace : List (Call Id Cmd State × List (Task Id Cmd))}
    (run : system.Run trace machine) (accepting : Accepting trace) : Accounted trace machine := by
  have inv := reachable_inv run.reachable
  have known (pid : Id) (member : pid ∈ enqueuedPids trace) := enqueued_known run accepting pid member
  constructor
  · intro pid member
    rw [inv.occurrences_known,if_pos (known pid member)]
  · intro pid cmd blockFor new earlier
    refine (enqueue_returns_iff _ _ _ _).mpr ⟨fun old => new (known_enqueued run old),?_⟩
    refine scans_of_known machine blockFor fun entry member => known entry.1 ?_
    exact earlier entry.1 (AList.mem_keys.mpr (List.mem_keys_of_mem member))
  · intro pid cmd blockFor member returns
    exact ((enqueue_returns_iff _ _ _ _).mp returns).1 (known pid member)

/-- Every enqueued pid is in exactly one collection after every call, and stays usable as a
dependency, exactly when no command was refused for a condition contradicted already. -/
theorem accounted_iff_accepting {trace : List (Call Id Cmd State × List (Task Id Cmd))}
    (run : system.Run trace machine) :
    (∀ before after state, trace = before ++ after → system.Run before state → Accounted before state) ↔
      Accepting trace := by
  constructor
  · intro accounted before pid cmd blockFor tasks after state shape earlier entry member refuses
    subst shape
    obtain ⟨same,next,again,taken,upTo⟩ := run.cut
    obtain rfl := earlier.unique deterministic again
    have cases := (reachable_inv earlier.reachable).call_cases taken
    cases cases with
    | enqueue _ _ _ _ _ fresh enqueued =>
      obtain ⟨_,rfl⟩ := enqueued.refused_of member refuses
      have once := (accounted (before ++ [_]) after next (by simp) upTo).once pid (by
        rw [enqueuedPids_append]
        simp [enqueuedPid])
      rw [(reachable_inv earlier.reachable).occurrences_known,if_neg fresh] at once
      cases once
  · intro accepting before after state shape earlier
    refine accounted_of_accepting earlier ?_
    intro first pid cmd blockFor tasks rest other same
    exact accepting first pid cmd blockFor tasks (rest ++ after) other (by simp [shape,same])

theorem accepting_of_none (trace : List (Call Id Cmd State × List (Task Id Cmd)))
    (none : ∀ label ∈ trace, match label.1 with
      | .enqueue _ _ blockFor => ∀ entry ∈ blockFor.entries, entry.2 = none
      | _ => True) : Accepting trace := by
  intro before pid cmd blockFor tasks after machine same _ entry member given
  obtain rfl := same
  obtain ⟨status,_,against⟩ := given
  have accepts := none (.enqueue pid cmd blockFor,tasks) (by simp) entry member
  rw [accepts] at against
  exact against

theorem accounted_sequential : ∃ machine : Machine Nat String String,
    system.Run [(.enqueue 0 "make" ∅,[.start 0 "make"]),(.enqueue 1 "ls" (AList.singleton 0 none),[]),
      (.start 0 "child",[]),(.completed 0 .failure,[.start 1 "ls"])] machine ∧
    Accounted [(.enqueue 0 "make" ∅,[.start 0 "make"]),(.enqueue 1 "ls" (AList.singleton 0 none),[]),
      (.start 0 "child",[]),(.completed 0 .failure,[.start 1 "ls"])] machine := by
  have run := System.replay_run (new : Machine Nat String String) call [.enqueue 0 "make" ∅,
    .enqueue 1 "ls" (AList.singleton 0 none),.start 0 "child",.completed 0 .failure] _ _ rfl
  refine ⟨_,run,(accounted_iff_accepting run).mpr ?_ _ [] _ (by simp) run⟩
  exact accepting_of_none _ (by simp)

/-- A command refused at once is in none of the collections, and a later one cannot wait for it. -/
theorem accounted_fails : ∃ trace, ∃ machine : Machine Nat String String,
    System.replay new call [.enqueue 0 "false" ∅,.startCompleted 0 .failure,
      .enqueue 1 "make" (AList.singleton 0 (some .success))] = .ok (trace,machine) ∧
    1 ∈ enqueuedPids trace ∧ machine.occurrences 1 = 0 ∧
    machine.enqueue 2 "ls" (AList.singleton 1 none) = .error .assertion ∧
    ¬(∀ before after state, trace = before ++ after → system.Run before state → Accounted before state) := by
  refine ⟨_,_,rfl,by decide,by decide,by rfl,?_⟩
  intro accounted
  have run := System.replay_run (new : Machine Nat String String) call [.enqueue 0 "false" ∅,.startCompleted 0 .failure,
    .enqueue 1 "make" (AList.singleton 0 (some .success))] _ _ rfl
  have once := (accounted _ [] _ (by simp) run).once 1 (by decide)
  revert once
  decide

end Nak.Machine
