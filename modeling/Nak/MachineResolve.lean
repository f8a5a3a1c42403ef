import Nak.MachineRecursion
import Nak.MachineEnqueue

/-! What resolving the waiters of a finished pid does. As long as no waiter's condition is
contradicted, the loop takes the finished pid out of the conditions of each waiter and
starts those left with none; at the first contradicted waiter it panics, because that
waiter is among the waiting pids and not among the running ones. -/
namespace Nak.Machine
open Library
variable {Id Cmd State : Type} [DecidableEq Id]

/-- A waiter without the finished pid; `none` when nothing is left to wait for. -/
def settle (pid : Id) (waiting : Waiting Id Cmd) : Option (Waiting Id Cmd) :=
  if FiniteMap.len (waiting.conditions.erase pid) = 0 then none
  else some ⟨waiting.cmd,waiting.conditions.erase pid⟩

def released (machine : Machine Id Cmd State) (pid waiter : Id) : Option (Task Id Cmd) :=
  (machine.waitingOn.lookup waiter).bind fun waiting =>
    if FiniteMap.len (waiting.conditions.erase pid) = 0 then some (.start waiter waiting.cmd) else none

/-- The machine once the waiters `waiters` of `pid` have been settled. -/
structure Settled (machine : Machine Id Cmd State) (pid : Id) (waiters : List Id) (tasks : List (Task Id Cmd))
    (next : Machine Id Cmd State) : Prop where
  finished : next.finished = machine.finished
  running : next.running = machine.running
  checkOnCompleted : next.checkOnCompleted = machine.checkOnCompleted
  toRun : ∀ waiter, waiter ∈ next.toRun ↔
    waiter ∈ machine.toRun ∨ waiter ∈ waiters ∧ (machine.released pid waiter).isSome
  waitingOn : ∀ waiter, next.waitingOn.lookup waiter =
    if waiter ∈ waiters then (machine.waitingOn.lookup waiter).bind (settle pid)
    else machine.waitingOn.lookup waiter
  tasks : tasks = waiters.filterMap (machine.released pid)

theorem completed_not_running (machine : Machine Id Cmd State) (pid : Id) (status : ExitStatus)
    (absent : pid ∉ machine.running) : machine.completed pid status = .error .assertion := by
  rw [completed_eq,Outcome.assert_false absent]
  rfl

theorem resolveWaiter_contradicted (machine : Machine Id Cmd State) (pid waiter : Id) (status : ExitStatus)
    (cond : Condition) (waiting : Waiting Id Cmd) (found : machine.waitingOn.lookup waiter = some waiting)
    (idle : waiter ∉ machine.running) (against : Contradicted cond status) :
    resolveWaiter completed pid status machine cond waiter = .error .assertion := by
  simp only [resolveWaiter,found,Outcome.expect,Outcome.ok_bind,against,if_true]
  rw [completed_not_running _ _ _ (by exact idle)]
  rfl

theorem resolveWaiter_settles (machine : Machine Id Cmd State) (pid waiter : Id) (status : ExitStatus)
    (cond : Condition) (waiting : Waiting Id Cmd) (found : machine.waitingOn.lookup waiter = some waiting)
    (listed : waiting.conditions.lookup pid = some cond) (agrees : ¬Contradicted cond status) :
    ∃ tasks next, resolveWaiter completed pid status machine cond waiter = .ok (tasks,next) ∧
      Settled machine pid [waiter] tasks next := by
  simp only [resolveWaiter,found,Outcome.expect,Outcome.ok_bind,agrees,if_false,listed,
    Outcome.assert_true]
  split
  · rename_i last
    refine ⟨_,_,rfl,rfl,rfl,rfl,fun other => ?_,fun other => ?_,?_⟩
    · by_cases same : other = waiter
      · subst other
        simp [released,found,last]
      · simp [same]
    · by_cases same : other = waiter
      · subst other
        simp [found,settle,last]
      · simp [same]
    · simp [released,found,last]
  · rename_i more
    refine ⟨_,_,rfl,rfl,rfl,rfl,fun other => ?_,fun other => ?_,?_⟩
    · by_cases same : other = waiter
      · subst other
        simp [released,found,more]
      · simp [same]
    · by_cases same : other = waiter
      · subst other
        simp [found,settle,more]
      · simp [same]
    · simp [released,found,more]

theorem Settled.cons {machine middle next : Machine Id Cmd State} {pid waiter : Id} {waiters : List Id}
    {tasks more : List (Task Id Cmd)} (first : Settled machine pid [waiter] tasks middle)
    (rest : Settled middle pid waiters more next) (absent : waiter ∉ waiters) :
    Settled machine pid (waiter :: waiters) (tasks ++ more) next := by
  have kept (other : Id) (member : other ∈ waiters) :
      middle.waitingOn.lookup other = machine.waitingOn.lookup other := by
    rw [first.waitingOn,if_neg]
    intro inside
    obtain rfl := List.mem_singleton.mp inside
    exact absent member
  have same (other : Id) (member : other ∈ waiters) :
      middle.released pid other = machine.released pid other := by
    rw [released,released,kept other member]
  refine ⟨rest.finished.trans first.finished,rest.running.trans first.running,
    rest.checkOnCompleted.trans first.checkOnCompleted,fun other => ?_,fun other => ?_,?_⟩
  · rw [rest.toRun,first.toRun]
    constructor
    · intro either
      rcases either with (old | ⟨isFirst,some⟩) | ⟨member,some⟩
      · exact Or.inl old
      · exact Or.inr ⟨by simp [List.mem_singleton.mp isFirst],some⟩
      · exact Or.inr ⟨by simp [member],same other member ▸ some⟩
    · intro either
      rcases either with old | ⟨member,some⟩
      · exact Or.inl (Or.inl old)
      · rcases List.mem_cons.mp member with rfl | member
        · exact Or.inl (Or.inr ⟨by simp,some⟩)
        · exact Or.inr ⟨member,(same other member).symm ▸ some⟩
  · rw [rest.waitingOn]
    by_cases member : other ∈ waiters
    · simp [member,kept other member]
    · rw [if_neg member,first.waitingOn]
      simp [member]
  · rw [first.tasks,rest.tasks,List.filterMap_congr same,← List.filterMap_append,List.singleton_append]

/-- The entries of the index that the loop is about to visit mirror the waiters. -/
def Listed (machine : Machine Id Cmd State) (pid : Id) (blocked : List (Condition × Id)) : Prop :=
  ∀ entry ∈ blocked, entry.2 ∉ machine.running ∧ ∃ waiting,
    machine.waitingOn.lookup entry.2 = some waiting ∧ waiting.conditions.lookup pid = some entry.1

theorem Listed.settled {machine middle : Machine Id Cmd State} {pid waiter : Id} {blocked : List (Condition × Id)}
    {tasks : List (Task Id Cmd)} (listed : Listed machine pid blocked)
    (absent : waiter ∉ blocked.map Prod.snd) (settled : Settled machine pid [waiter] tasks middle) :
    Listed middle pid blocked := by
  intro entry member
  obtain ⟨idle,waiting,found,cond⟩ := listed entry member
  refine ⟨by rw [settled.running]; exact idle,waiting,?_,cond⟩
  rw [settled.waitingOn,if_neg,found]
  intro inside
  obtain rfl := List.mem_singleton.mp inside
  exact absent (List.mem_map_of_mem member)

theorem resolveBlocked_settles (pid : Id) (status : ExitStatus) (blocked : List (Condition × Id))
    (machine : Machine Id Cmd State) (listed : Listed machine pid blocked)
    (distinct : (blocked.map Prod.snd).Nodup) (agrees : ∀ entry ∈ blocked, ¬Contradicted entry.1 status) :
    ∃ tasks next, resolveBlocked completed pid status blocked machine = .ok (tasks,next) ∧
      Settled machine pid (blocked.map Prod.snd) tasks next := by
  induction blocked generalizing machine with
  | nil => exact ⟨[],machine,rfl,rfl,rfl,rfl,by simp,by simp,rfl⟩
  | cons entry blocked ih =>
    obtain ⟨absent,distinct⟩ := List.nodup_cons.mp distinct
    obtain ⟨_,waiting,found,cond⟩ := listed entry (by simp)
    obtain ⟨tasks,middle,one,first⟩ := resolveWaiter_settles machine pid entry.2 status entry.1 waiting
      found cond (agrees entry (by simp))
    have remaining : Listed middle pid blocked :=
      Listed.settled (fun other member => listed other (by simp [member])) absent first
    obtain ⟨more,next,loop,rest⟩ := ih middle remaining distinct
      (fun other member => agrees other (by simp [member]))
    refine ⟨tasks ++ more,next,?_,first.cons rest absent⟩
    simp only [resolveBlocked,one,Outcome.ok_bind,loop,Outcome.pure_ok]

theorem resolveBlocked_contradicted (pid : Id) (status : ExitStatus) (blocked : List (Condition × Id))
    (machine : Machine Id Cmd State) (listed : Listed machine pid blocked)
    (distinct : (blocked.map Prod.snd).Nodup) (against : ∃ entry ∈ blocked, Contradicted entry.1 status) :
    resolveBlocked completed pid status blocked machine = .error .assertion := by
  induction blocked generalizing machine with
  | nil => simp at against
  | cons entry blocked ih =>
    obtain ⟨absent,distinct⟩ := List.nodup_cons.mp distinct
    obtain ⟨idle,waiting,found,cond⟩ := listed entry (by simp)
    by_cases now : Contradicted entry.1 status
    · rw [resolveBlocked,resolveWaiter_contradicted _ _ _ _ _ _ found idle now]
      rfl
    · obtain ⟨tasks,middle,one,first⟩ := resolveWaiter_settles machine pid entry.2 status entry.1 waiting
        found cond now
      have remaining : Listed middle pid blocked :=
        Listed.settled (fun other member => listed other (by simp [member])) absent first
      have later : ∃ other ∈ blocked, Contradicted other.1 status := by
        obtain ⟨other,member,contradicted⟩ := against
        rcases List.mem_cons.mp member with rfl | member
        · exact absurd contradicted now
        · exact ⟨other,member,contradicted⟩
      simp only [resolveBlocked,one,Outcome.ok_bind,ih middle remaining distinct later,Outcome.error_bind]

end Nak.Machine
