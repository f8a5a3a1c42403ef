import Nak.MachineAgreement

/-! When commands start. The residual conditions of a waiter are those of its enqueue less
the finished pids, so it is released by the very call that finishes the last of them; the
index lists waiters in the order of their enqueues and is resolved in that order. -/
namespace Nak.Machine
open Library
variable {Id Cmd State : Type}

abbrev Trace (Id Cmd State : Type) := List (Call Id Cmd State × List (Task Id Cmd))

def startPid : Task Id Cmd → Option Id
  | .start pid _ => some pid
  | .conditionFailed _ _ => none

def starts (tasks : List (Task Id Cmd)) : List Id := tasks.filterMap startPid

@[simp] theorem starts_start (pid : Id) (cmd : Cmd) : starts [Task.start pid cmd] = [pid] := rfl

@[simp] theorem starts_failed (pid : Id) (cmd : Cmd) : starts [Task.conditionFailed pid cmd] = [] := rfl

@[simp] theorem starts_nil : starts ([] : List (Task Id Cmd)) = [] := rfl

def startsOf (trace : Trace Id Cmd State) : List Id := trace.flatMap fun label => starts label.2

def EnqueuedAs (trace : Trace Id Cmd State) (pid : Id) (cmd : Cmd) (blockFor : OrderedMap Id Condition) : Prop :=
  ∃ tasks, (Call.enqueue pid cmd blockFor,tasks) ∈ trace

/-- The pids that had to wait when they were enqueued, in the order of their enqueues. -/
def waiters (trace : Trace Id Cmd State) : List Id :=
  trace.filterMap fun label => if label.2.isEmpty then enqueuedPid label.1 else none

theorem EnqueuedAs.append {trace : Trace Id Cmd State} {pid : Id} {cmd : Cmd}
    {blockFor : OrderedMap Id Condition} (enqueued : EnqueuedAs trace pid cmd blockFor)
    (label : Call Id Cmd State × List (Task Id Cmd)) : EnqueuedAs (trace ++ [label]) pid cmd blockFor := by
  obtain ⟨tasks,member⟩ := enqueued
  exact ⟨tasks,List.mem_append_left _ member⟩

theorem mem_starts (tasks : List (Task Id Cmd)) (pid : Id) :
    pid ∈ starts tasks ↔ ∃ cmd, Task.start pid cmd ∈ tasks := by
  rw [starts,List.mem_filterMap]
  constructor
  · intro given
    obtain ⟨_ | _,member,shape⟩ := given
    · obtain rfl := Option.some.inj shape
      exact ⟨_,member⟩
    · cases shape
  · intro given
    obtain ⟨cmd,member⟩ := given
    exact ⟨_,member,rfl⟩

variable [DecidableEq Id] {machine next : Machine Id Cmd State}

/-- Every dependency has finished with a status its condition accepts. -/
def Satisfied (machine : Machine Id Cmd State) (blockFor : OrderedMap Id Condition) : Prop :=
  ∀ pid cond, blockFor.lookup pid = some cond →
    ∃ status, machine.finished.lookup pid = some status ∧ ¬Contradicted cond status

def AllFinished (machine : Machine Id Cmd State) (blockFor : OrderedMap Id Condition) : Prop :=
  ∀ pid ∈ blockFor, pid ∈ machine.finished

/-- No dependency that has finished is contradicted. -/
def Honoured (machine : Machine Id Cmd State) (blockFor : OrderedMap Id Condition) : Prop :=
  ∀ pid cond status, blockFor.lookup pid = some cond → machine.finished.lookup pid = some status →
    ¬Contradicted cond status

def Waits (machine : Machine Id Cmd State) (pid : Id) (cmd : Cmd) (blockFor : OrderedMap Id Condition) : Prop :=
  ∃ conditions, machine.waitingOn.lookup pid = some ⟨cmd,conditions⟩ ∧
    (∀ other, conditions.lookup other = machine.residual blockFor other) ∧ machine.Honoured blockFor

theorem Satisfied.allFinished {blockFor : OrderedMap Id Condition} (satisfied : machine.Satisfied blockFor) :
    machine.AllFinished blockFor := by
  intro pid member
  obtain ⟨cond,listed⟩ := Option.isSome_iff_exists.mp (AList.lookup_isSome.mpr member)
  obtain ⟨status,found,_⟩ := satisfied pid cond listed
  exact FiniteMap.mem_of_lookup found

theorem Satisfied.honoured {blockFor : OrderedMap Id Condition} (satisfied : machine.Satisfied blockFor) :
    machine.Honoured blockFor := by
  intro pid cond status listed found
  obtain ⟨same,finished,accepts⟩ := satisfied pid cond listed
  obtain rfl := Option.some.inj (finished.symm.trans found)
  exact accepts

theorem Honoured.satisfied {blockFor : OrderedMap Id Condition} (honoured : machine.Honoured blockFor)
    (all : ∀ pid, machine.residual blockFor pid = none) : machine.Satisfied blockFor := by
  intro pid cond listed
  cases found : machine.finished.lookup pid with
  | none =>
    have left := all pid
    rw [residual,if_neg (Finmap.lookup_eq_none.mp found),listed] at left
    cases left
  | some status => exact ⟨status,rfl,honoured pid cond status listed found⟩

theorem honoured_of_passes {blockFor : OrderedMap Id Condition}
    (passed : ∀ entry ∈ blockFor.entries, machine.Passes entry) : machine.Honoured blockFor :=
  fun pid cond status listed => (passed ⟨pid,cond⟩ (AList.mem_lookup_iff.mp listed)).2 status

theorem CallCases.finished {call : Call Id Cmd State} {tasks : List (Task Id Cmd)} (inv : Inv machine)
    (cases : CallCases machine call tasks next) {pid : Id} {status : ExitStatus}
    (found : machine.finished.lookup pid = some status) : next.finished.lookup pid = some status := by
  have old := inv.finished_apart pid (FiniteMap.mem_of_lookup found)
  cases cases with
  | enqueue newPid cmd blockFor tasks next fresh enqueued =>
    cases enqueued with
    | refused => exact found
    | ready => exact found
    | blocked next passed some after => rw [after.finished,found]
  | start => exact found
  | startCompleted other later tasks next toRun undisputed finishes =>
    rw [finishes.finished,FiniteMap.lookup_insert_if,if_neg,found]
    intro same
    obtain rfl := same
    exact old (Or.inl toRun)
  | completed other later tasks next running undisputed finishes =>
    rw [finishes.finished,FiniteMap.lookup_insert_if,if_neg,found]
    intro same
    obtain rfl := same
    exact old (Or.inr (Or.inl running))

theorem Finishes.honoured {pid : Id} {status : ExitStatus} {tasks : List (Task Id Cmd)}
    {blockFor : OrderedMap Id Condition} (finishes : Finishes machine pid status tasks next)
    (honoured : machine.Honoured blockFor)
    (accepts : ∀ cond, blockFor.lookup pid = some cond → ¬Contradicted cond status) : next.Honoured blockFor := by
  intro other cond later listed found
  rw [finishes.finished,FiniteMap.lookup_insert_if] at found
  split at found
  · rename_i same
    obtain rfl := Option.some.inj found
    exact accepts cond (same ▸ listed)
  · exact honoured other cond later listed found

theorem Finishes.waits {pid waiter : Id} {status : ExitStatus} {tasks : List (Task Id Cmd)} {cmd : Cmd}
    {blockFor : OrderedMap Id Condition} (finishes : Finishes machine pid status tasks next) (inv : Inv machine)
    (unfinished : machine.Unfinished pid) (undisputed : machine.Undisputed pid status)
    (waits : machine.Waits waiter cmd blockFor) :
    next.Waits waiter cmd blockFor ∨
      (next.Satisfied blockFor ∧ .start waiter cmd ∈ tasks ∧ waiter ∉ next.waitingOn) := by
  obtain ⟨conditions,found,same,honoured⟩ := waits
  have left : machine.residual blockFor pid = blockFor.lookup pid := by
    rw [Machine.residual,if_neg]
    exact fun finished => inv.finished_apart pid finished unfinished
  have kept : next.Honoured blockFor := finishes.honoured honoured fun cond listed =>
    undisputed waiter _ cond found ((same pid).trans (left.trans listed))
  have remaining (other : Id) : (conditions.erase pid).lookup other = next.residual blockFor other := by
    rw [FiniteMap.lookup_erase_if,finishes.residual,same]
  rcases finishes.waiter found with ⟨_,stays⟩ | ⟨last,gone,released⟩
  · exact Or.inl ⟨_,stays,remaining,kept⟩
  · refine Or.inr ⟨kept.satisfied fun other => ?_,(finishes.mem_tasks inv _).mpr ⟨waiter,released⟩,
      Finmap.lookup_eq_none.mp gone⟩
    exact (remaining other).symm.trans ((FiniteMap.len_eq_zero _).mp last other)

theorem CallCases.waits {call : Call Id Cmd State} {tasks : List (Task Id Cmd)} (inv : Inv machine)
    (cases : CallCases machine call tasks next) {waiter : Id} {cmd : Cmd} {blockFor : OrderedMap Id Condition}
    (waits : machine.Waits waiter cmd blockFor) :
    next.Waits waiter cmd blockFor ∨
      (next.Satisfied blockFor ∧ .start waiter cmd ∈ tasks ∧ waiter ∉ next.waitingOn) := by
  cases cases with
  | enqueue newPid other newFor tasks next fresh enqueued =>
    refine Or.inl ?_
    cases enqueued with
    | refused => exact waits
    | ready => exact waits
    | blocked next passed some after =>
      obtain ⟨conditions,found,same,honoured⟩ := waits
      obtain ⟨_,_,shape⟩ := after.lookup waiter
      refine ⟨conditions,?_,?_,?_⟩
      · rw [shape,if_neg,found]
        intro same
        obtain rfl := same
        exact fresh (Or.inr (Or.inr (Or.inr (FiniteMap.mem_of_lookup found))))
      · simpa only [residual,after.finished] using same
      · simpa only [Honoured,after.finished] using honoured
  | start => exact Or.inl waits
  | startCompleted pid status tasks next toRun undisputed finishes =>
    exact finishes.waits inv (Or.inl toRun) undisputed waits
  | completed pid status tasks next running undisputed finishes =>
    exact finishes.waits inv (Or.inr (Or.inl running)) undisputed waits

theorem CallCases.waiting_before {call : Call Id Cmd State} {tasks : List (Task Id Cmd)}
    (cases : CallCases machine call tasks next) {waiter : Id} {waiting : Waiting Id Cmd}
    (found : next.waitingOn.lookup waiter = some waiting) :
    (∃ before, machine.waitingOn.lookup waiter = some before ∧ waiting.cmd = before.cmd) ∨
      ∃ blockFor, call = .enqueue waiter waiting.cmd blockFor ∧ ¬machine.Known waiter ∧
        next.Waits waiter waiting.cmd blockFor := by
  cases cases with
  | enqueue newPid cmd blockFor tasks next fresh enqueued =>
    cases enqueued with
    | refused => exact Or.inl ⟨waiting,found,rfl⟩
    | ready => exact Or.inl ⟨waiting,found,rfl⟩
    | blocked next passed some after =>
      obtain ⟨conditions,same,shape⟩ := after.lookup waiter
      have lookup := found
      rw [shape] at found
      split at found
      · rename_i new
        subst new
        obtain rfl := Option.some.inj found
        refine Or.inr ⟨blockFor,rfl,fresh,conditions,lookup,?_,?_⟩
        · simpa only [residual,after.finished] using same
        · simpa only [Honoured,after.finished] using honoured_of_passes passed
      · exact Or.inl ⟨waiting,found,rfl⟩
  | start => exact Or.inl ⟨waiting,found,rfl⟩
  | startCompleted pid status tasks next toRun undisputed finishes =>
    obtain ⟨before,old,cmd,_⟩ := finishes.waiting found
    exact Or.inl ⟨before,old,cmd⟩
  | completed pid status tasks next running undisputed finishes =>
    obtain ⟨before,old,cmd,_⟩ := finishes.waiting found
    exact Or.inl ⟨before,old,cmd⟩

/-- How a run up to here accounts for its enqueues and its starts. -/
structure Ledger (trace : Trace Id Cmd State) (machine : Machine Id Cmd State) : Prop where
  standing : ∀ pid cmd blockFor, EnqueuedAs trace pid cmd blockFor →
    machine.Waits pid cmd blockFor ∨ machine.Satisfied blockFor ∨ ¬machine.Honoured blockFor
  origin : ∀ pid waiting, machine.waitingOn.lookup pid = some waiting →
    ∃ blockFor, EnqueuedAs trace pid waiting.cmd blockFor ∧ machine.Waits pid waiting.cmd blockFor
  started : ∀ pid ∈ startsOf trace, machine.Known pid ∧ pid ∉ machine.waitingOn
  once : (startsOf trace).Nodup
  waited : ∀ pid ∈ waiters trace, machine.Known pid
  distinct : (waiters trace).Nodup
  ordered : ∀ pid, ((machine.blockedBy pid).map Prod.snd).Sublist (waiters trace)

/-- A start task is that of a satisfied waiter or of the command just enqueued. -/
theorem Ledger.start_origin {trace : Trace Id Cmd State} (ledger : Ledger trace machine) (inv : Inv machine)
    {call : Call Id Cmd State} {tasks : List (Task Id Cmd)} (cases : CallCases machine call tasks next)
    {pid : Id} {cmd : Cmd} (started : .start pid cmd ∈ tasks) :
    ∃ blockFor, next.Satisfied blockFor ∧
      ((call = .enqueue pid cmd blockFor ∧ ¬machine.Known pid) ∨
        (EnqueuedAs trace pid cmd blockFor ∧ ¬machine.AllFinished blockFor ∧ pid ∈ machine.waitingOn)) := by
  have finishing {other : Id} {status : ExitStatus} {tasks : List (Task Id Cmd)} {next : Machine Id Cmd State}
      (finishes : Finishes machine other status tasks next) (unfinished : machine.Unfinished other)
      (undisputed : machine.Undisputed other status) (started : .start pid cmd ∈ tasks) :
      ∃ blockFor, next.Satisfied blockFor ∧ EnqueuedAs trace pid cmd blockFor ∧
        ¬machine.AllFinished blockFor ∧ pid ∈ machine.waitingOn := by
    obtain ⟨waiter,waiting,found,task,_,gone⟩ := finishes.task_starts inv started
    obtain ⟨rfl,rfl⟩ := Task.start.inj task
    obtain ⟨blockFor,enqueued,waits⟩ := ledger.origin pid waiting found
    refine ⟨blockFor,?_,enqueued,?_,FiniteMap.mem_of_lookup found⟩
    · rcases finishes.waits inv unfinished undisputed waits with ⟨conditions,stays,_⟩ | ⟨satisfied,_⟩
      · rw [gone] at stays
        cases stays
      · exact satisfied
    · intro all
      obtain ⟨conditions,lookup,same,_⟩ := waits
      have equal := congrArg Waiting.conditions (Option.some.inj (found.symm.trans lookup))
      refine inv.pending pid _ found ((FiniteMap.len_eq_zero _).mpr fun key => ?_)
      rw [equal,same,residual]
      split
      · rfl
      · rename_i unfinished
        exact AList.lookup_eq_none.mpr fun member => unfinished (all key member)
  cases cases with
  | enqueue newPid other blockFor tasks next fresh enqueued =>
    cases enqueued with
    | refused => simp at started
    | ready passed all =>
      obtain ⟨rfl,rfl⟩ : pid = newPid ∧ cmd = other := by simpa using started
      exact ⟨blockFor,(honoured_of_passes passed).satisfied all,Or.inl ⟨rfl,fresh⟩⟩
    | blocked => simp at started
  | start => simp at started
  | startCompleted other status tasks next toRun undisputed finishes =>
    obtain ⟨blockFor,satisfied,rest⟩ := finishing finishes (Or.inl toRun) undisputed started
    exact ⟨blockFor,satisfied,Or.inr rest⟩
  | completed other status tasks next running undisputed finishes =>
    obtain ⟨blockFor,satisfied,rest⟩ := finishing finishes (Or.inr (Or.inl running)) undisputed started
    exact ⟨blockFor,satisfied,Or.inr rest⟩

theorem starts_released (machine : Machine Id Cmd State) (pid : Id) (waiters : List Id) :
    (starts (waiters.filterMap (machine.released pid))).Sublist waiters := by
  induction waiters with
  | nil => exact List.Sublist.slnil
  | cons waiter waiters ih =>
    rw [List.filterMap_cons]
    cases found : machine.released pid waiter with
    | none => exact ih.cons waiter
    | some task =>
      obtain ⟨waiting,_,shape⟩ := Option.bind_eq_some_iff.mp found
      split at shape
      · obtain rfl := Option.some.inj shape
        exact ih.cons_cons waiter
      · cases shape

theorem Ledger.starts_ordered {trace : Trace Id Cmd State} (ledger : Ledger trace machine)
    {call : Call Id Cmd State} {tasks : List (Task Id Cmd)} (cases : CallCases machine call tasks next) :
    (starts tasks).Nodup ∧ ((starts tasks).filter (· ∈ waiters trace)).Sublist (waiters trace) := by
  have finishing {other : Id} {status : ExitStatus} {tasks : List (Task Id Cmd)} {next : Machine Id Cmd State}
      (finishes : Finishes machine other status tasks next) :
      (starts tasks).Nodup ∧ ((starts tasks).filter (· ∈ waiters trace)).Sublist (waiters trace) := by
    have inside := (starts_released machine other _).trans (ledger.ordered other)
    rw [finishes.tasks]
    exact ⟨ledger.distinct.sublist inside,List.filter_sublist.trans inside⟩
  cases cases with
  | enqueue newPid cmd blockFor tasks next fresh enqueued =>
    cases enqueued with
    | refused => simp
    | ready =>
      have new : newPid ∉ waiters trace := fun member => fresh (ledger.waited newPid member)
      simp [new]
    | blocked => simp
  | start => simp
  | startCompleted other status tasks next toRun undisputed finishes => exact finishing finishes
  | completed other status tasks next running undisputed finishes => exact finishing finishes

theorem ledger_new : Ledger [] (new : Machine Id Cmd State) := by
  constructor <;> simp [EnqueuedAs,startsOf,waiters,new,blockedBy]

section Step
variable {trace : Trace Id Cmd State} {call : Call Id Cmd State} {tasks : List (Task Id Cmd)}

private theorem Ledger.standing_step (ledger : Ledger trace machine) (inv : Inv machine)
    (cases : CallCases machine call tasks next) (pid : Id) (cmd : Cmd) (blockFor : OrderedMap Id Condition)
    (enqueued : EnqueuedAs (trace ++ [(call,tasks)]) pid cmd blockFor) :
    next.Waits pid cmd blockFor ∨ next.Satisfied blockFor ∨ ¬next.Honoured blockFor := by
  obtain ⟨tasks',member⟩ := enqueued
  rcases List.mem_append.mp member with old | new
  · rcases ledger.standing pid cmd blockFor ⟨tasks',old⟩ with waits | satisfied | disputed
    · rcases cases.waits inv waits with still | ⟨satisfied,_⟩
      · exact Or.inl still
      · exact Or.inr (Or.inl satisfied)
    · refine Or.inr (Or.inl fun other cond listed => ?_)
      obtain ⟨status,found,accepts⟩ := satisfied other cond listed
      exact ⟨status,cases.finished inv found,accepts⟩
    · refine Or.inr (Or.inr fun honoured => disputed fun other cond status listed found => ?_)
      exact honoured other cond status listed (cases.finished inv found)
  · obtain ⟨rfl,rfl⟩ : .enqueue pid cmd blockFor = call ∧ tasks' = tasks := by simpa using new
    cases cases with
    | enqueue _ _ _ _ _ fresh result =>
      cases result with
      | refused before entry after shape passed refuses =>
        obtain ⟨status,found,against⟩ := refuses
        refine Or.inr (Or.inr fun honoured => honoured entry.1 entry.2 status ?_ found against)
        exact AList.mem_lookup_iff.mpr (by simp [shape])
      | ready passed all => exact Or.inr (Or.inl ((honoured_of_passes passed).satisfied all))
      | blocked next passed some after =>
        obtain ⟨conditions,same,found⟩ := after.lookup pid
        rw [if_pos rfl] at found
        refine Or.inl ⟨conditions,found,?_,?_⟩
        · simpa only [residual,after.finished] using same
        · simpa only [Honoured,after.finished] using honoured_of_passes passed

private theorem Ledger.origin_step (ledger : Ledger trace machine) (inv : Inv machine)
    (cases : CallCases machine call tasks next) (pid : Id) (waiting : Waiting Id Cmd)
    (found : next.waitingOn.lookup pid = some waiting) :
    ∃ blockFor, EnqueuedAs (trace ++ [(call,tasks)]) pid waiting.cmd blockFor ∧
      next.Waits pid waiting.cmd blockFor := by
  rcases cases.waiting_before found with ⟨before,old,cmd⟩ | ⟨blockFor,rfl,_,waits⟩
  · obtain ⟨blockFor,enqueued,waits⟩ := ledger.origin pid before old
    rw [cmd]
    rcases cases.waits inv waits with still | ⟨_,_,gone⟩
    · exact ⟨blockFor,enqueued.append _,still⟩
    · exact absurd (FiniteMap.mem_of_lookup found) gone
  · exact ⟨blockFor,⟨tasks,by simp⟩,waits⟩

private theorem CallCases.started (inv : Inv machine) (cases : CallCases machine call tasks next) {pid : Id}
    {cmd : Cmd} (started : .start pid cmd ∈ tasks) : next.Known pid ∧ pid ∉ next.waitingOn := by
  have finishing {other : Id} {status : ExitStatus} {tasks : List (Task Id Cmd)} {next : Machine Id Cmd State}
      (finishes : Finishes machine other status tasks next) (started : .start pid cmd ∈ tasks) :
      next.Known pid ∧ pid ∉ next.waitingOn := by
    obtain ⟨waiter,waiting,_,task,toRun,gone⟩ := finishes.task_starts inv started
    obtain ⟨rfl,_⟩ := Task.start.inj task
    exact ⟨Or.inr (Or.inl toRun),Finmap.lookup_eq_none.mp gone⟩
  cases cases with
  | enqueue newPid other blockFor tasks next fresh enqueued =>
    cases enqueued with
    | refused => simp at started
    | ready =>
      obtain ⟨rfl,_⟩ : pid = newPid ∧ cmd = other := by simpa using started
      exact ⟨Or.inr (Or.inl (Finset.mem_insert_self _ _)),fun waiting => fresh (Or.inr (Or.inr (Or.inr waiting)))⟩
    | blocked => simp at started
  | start => simp at started
  | startCompleted other status tasks next toRun undisputed finishes => exact finishing finishes started
  | completed other status tasks next running undisputed finishes => exact finishing finishes started

omit [DecidableEq Id] in
private theorem waiters_append (trace : Trace Id Cmd State) (call : Call Id Cmd State)
    (tasks : List (Task Id Cmd)) :
    waiters (trace ++ [(call,tasks)]) =
      waiters trace ++ (if tasks.isEmpty then enqueuedPid call else none).toList := by
  simp only [waiters,List.filterMap_append,List.filterMap_cons,List.filterMap_nil]
  generalize (if tasks.isEmpty then enqueuedPid call else none) = new
  cases new <;> rfl

private theorem CallCases.new_waiter (cases : CallCases machine call tasks next) {pid : Id}
    (waits : (if tasks.isEmpty then enqueuedPid call else none) = some pid) :
    ¬machine.Known pid ∧ ∃ cmd blockFor, Blocked machine pid cmd blockFor next := by
  cases cases with
  | enqueue newPid cmd blockFor tasks next fresh enqueued =>
    cases enqueued with
    | refused => simp at waits
    | ready => simp at waits
    | blocked next passed some after =>
      obtain rfl : newPid = pid := by simpa [enqueuedPid] using waits
      exact ⟨fresh,cmd,blockFor,after⟩
  | start => simp [enqueuedPid] at waits
  | startCompleted => simp [enqueuedPid] at waits
  | completed => simp [enqueuedPid] at waits

private theorem Ledger.ordered_step (ledger : Ledger trace machine) (cases : CallCases machine call tasks next)
    (pid : Id) : ((next.blockedBy pid).map Prod.snd).Sublist (waiters (trace ++ [(call,tasks)])) := by
  have old := (ledger.ordered pid).trans (List.sublist_append_left (waiters trace)
    (if tasks.isEmpty then enqueuedPid call else none).toList)
  rw [waiters_append]
  have finishing {other : Id} {status : ExitStatus} {tasks : List (Task Id Cmd)} {next : Machine Id Cmd State}
      (finishes : Finishes machine other status tasks next) :
      ((next.blockedBy pid).map Prod.snd).Sublist ((machine.blockedBy pid).map Prod.snd) := by
    rw [finishes.blockedBy]
    split
    · exact List.nil_sublist _
    · exact List.Sublist.refl _
  cases cases with
  | enqueue newPid cmd blockFor tasks next fresh enqueued =>
    cases enqueued with
    | refused => exact old
    | ready => exact old
    | blocked next passed some after =>
      rw [after.blockedBy,List.map_append]
      refine (ledger.ordered pid).append ?_
      cases machine.residual blockFor pid <;> simp [enqueuedPid]
  | start => exact old
  | startCompleted other status tasks next toRun undisputed finishes => exact (finishing finishes).trans old
  | completed other status tasks next running undisputed finishes => exact (finishing finishes).trans old

theorem Ledger.step (ledger : Ledger trace machine) (inv : Inv machine)
    (cases : CallCases machine call tasks next) : Ledger (trace ++ [(call,tasks)]) next := by
  have split : startsOf (trace ++ [(call,tasks)]) = startsOf trace ++ starts tasks := by simp [startsOf]
  refine ⟨ledger.standing_step inv cases,ledger.origin_step inv cases,?_,?_,?_,?_,ledger.ordered_step cases⟩
  · intro pid member
    rw [split,List.mem_append] at member
    rcases member with old | new
    · obtain ⟨known,gone⟩ := ledger.started pid old
      refine ⟨cases.known known,fun waits => ?_⟩
      obtain ⟨waiting,found⟩ := Finmap.mem_iff.mp waits
      rcases cases.waiting_before found with ⟨before,old,_⟩ | ⟨_,_,fresh,_⟩
      · exact gone (FiniteMap.mem_of_lookup old)
      · exact fresh known
    · obtain ⟨cmd,started⟩ := (mem_starts tasks pid).mp new
      exact cases.started inv started
  · rw [split]
    refine List.Nodup.append ledger.once (ledger.starts_ordered cases).1 ?_
    intro pid old new
    obtain ⟨known,gone⟩ := ledger.started pid old
    obtain ⟨cmd,started⟩ := (mem_starts tasks pid).mp new
    obtain ⟨_,_,⟨_,fresh⟩ | ⟨_,_,waits⟩⟩ := ledger.start_origin inv cases started
    · exact fresh known
    · exact gone waits
  · intro pid member
    rw [waiters_append,List.mem_append,Option.mem_toList] at member
    rcases member with old | new
    · exact cases.known (ledger.waited pid old)
    · obtain ⟨_,cmd,blockFor,after⟩ := cases.new_waiter new
      exact Or.inr ((after.unfinished_iff pid).mpr (Or.inl rfl))
  · rw [waiters_append]
    refine List.Nodup.append ledger.distinct ?_ ?_
    · cases (if tasks.isEmpty then enqueuedPid call else none) <;> simp
    · intro pid old new
      exact (cases.new_waiter (Option.mem_toList.mp new)).1 (ledger.waited pid old)

end Step

theorem run_ledger {trace : Trace Id Cmd State} (run : system.Run trace machine) : Ledger trace machine := by
  refine run.invariant Ledger ?_ ?_
  · intro _ same
    obtain rfl := same
    exact ledger_new
  · intro trace state label next before ledger taken
    have inv := reachable_inv before.reachable
    exact ledger.step inv (inv.call_cases taken)

theorem Satisfied.not_waits {blockFor : OrderedMap Id Condition} (satisfied : machine.Satisfied blockFor)
    (inv : Inv machine) (pid : Id) (cmd : Cmd) : ¬machine.Waits pid cmd blockFor := by
  intro given
  obtain ⟨conditions,found,same,_⟩ := given
  refine inv.pending pid _ found ((FiniteMap.len_eq_zero _).mpr fun other => ?_)
  rw [same,residual]
  split
  · rfl
  · rename_i unfinished
    exact AList.lookup_eq_none.mpr fun member => unfinished (satisfied.allFinished other member)

theorem Enqueued.starts_satisfied {pid : Id} {cmd : Cmd} {blockFor : OrderedMap Id Condition}
    {tasks : List (Task Id Cmd)} (enqueued : Enqueued machine pid cmd blockFor tasks next)
    (satisfied : next.Satisfied blockFor) : .start pid cmd ∈ tasks := by
  cases enqueued with
  | refused before entry after shape passed refuses =>
    obtain ⟨status,found,against⟩ := refuses
    have listed : blockFor.lookup entry.1 = some entry.2 := AList.mem_lookup_iff.mpr (by simp [shape])
    exact absurd against (satisfied.honoured entry.1 entry.2 status listed found)
  | ready => exact List.mem_singleton_self _
  | blocked next passed some after =>
    obtain ⟨other,left⟩ := some
    refine absurd ?_ left
    rw [residual]
    split
    · rfl
    · rename_i unfinished
      refine AList.lookup_eq_none.mpr fun member => unfinished ?_
      rw [← after.finished]
      exact satisfied.allFinished other member

/-- A call starts a command exactly when, with this call, all dependencies of its enqueue
have finished as they should. -/
theorem start_iff {trace : Trace Id Cmd State} {call : Call Id Cmd State} {tasks : List (Task Id Cmd)}
    (run : system.Run trace machine) (taken : system.step machine (call,tasks) next) (pid : Id) (cmd : Cmd) :
    .start pid cmd ∈ tasks ↔ ∃ blockFor, EnqueuedAs (trace ++ [(call,tasks)]) pid cmd blockFor ∧
      next.Satisfied blockFor ∧ (call = .enqueue pid cmd blockFor ∨ ¬machine.AllFinished blockFor) := by
  have inv := reachable_inv run.reachable
  have ledger := run_ledger run
  have cases := inv.call_cases taken
  have atOnce (blockFor : OrderedMap Id Condition) (same : call = .enqueue pid cmd blockFor)
      (satisfied : next.Satisfied blockFor) : .start pid cmd ∈ tasks := by
    subst same
    cases cases with
    | enqueue _ _ _ _ _ _ enqueued => exact enqueued.starts_satisfied satisfied
  constructor
  · intro started
    obtain ⟨blockFor,satisfied,⟨rfl,_⟩ | ⟨enqueued,unfinished,_⟩⟩ := ledger.start_origin inv cases started
    · exact ⟨blockFor,⟨tasks,by simp⟩,satisfied,Or.inl rfl⟩
    · exact ⟨blockFor,enqueued.append _,satisfied,Or.inr unfinished⟩
  · intro given
    obtain ⟨blockFor,⟨tasks',member⟩,satisfied,now | unfinished⟩ := given
    · exact atOnce blockFor now satisfied
    · rcases List.mem_append.mp member with old | new
      · rcases ledger.standing pid cmd blockFor ⟨tasks',old⟩ with waits | already | disputed
        · rcases cases.waits inv waits with still | ⟨_,started,_⟩
          · exact absurd still (satisfied.not_waits (cases.inv inv) pid cmd)
          · exact started
        · exact absurd already.allFinished unfinished
        · refine absurd (fun other cond status listed found => ?_) disputed
          exact satisfied.honoured other cond status listed (cases.finished inv found)
      · obtain ⟨same,_⟩ : .enqueue pid cmd blockFor = call ∧ tasks' = tasks := by simpa using new
        exact atOnce blockFor same.symm satisfied

/-- Over a whole run every command starts at most once, in the very call with which the
last dependency of its enqueue finishes, all of them as they should, and the waiters that
one call starts come in the order of their enqueues. -/
theorem gating {trace : Trace Id Cmd State} (run : system.Run trace machine) :
    (startsOf trace).Nodup ∧ (waiters trace).Nodup ∧
    ∀ before call tasks after state next, trace = before ++ (call,tasks) :: after →
      system.Run before state → system.step state (call,tasks) next →
      (∀ pid cmd, .start pid cmd ∈ tasks ↔ ∃ blockFor, EnqueuedAs (before ++ [(call,tasks)]) pid cmd blockFor ∧
        next.Satisfied blockFor ∧ (call = .enqueue pid cmd blockFor ∨ ¬state.AllFinished blockFor)) ∧
      ((starts tasks).filter (· ∈ waiters before)).Sublist (waiters before) := by
  have ledger := run_ledger run
  refine ⟨ledger.once,ledger.distinct,fun before call tasks after state next _ earlier taken => ⟨?_,?_⟩⟩
  · exact start_iff earlier taken
  · have cases := (reachable_inv earlier.reachable).call_cases taken
    exact ((run_ledger earlier).starts_ordered cases).2

/-- Two commands wait for a third and are started in the order in which they came. -/
theorem gating_shared : ∃ machine : Machine Nat String String, ∃ trace : Trace Nat String String,
    system.Run trace machine ∧ (startsOf trace).Nodup ∧ startsOf trace = [0,2,1] := by
  have run := System.replay_run (new : Machine Nat String String) call [.enqueue 0 "make" ∅,
    .enqueue 2 "ls" (AList.singleton 0 none),.enqueue 1 "make install" (AList.singleton 0 (some .success)),
    .start 0 "child",.completed 0 .success] _ _ rfl
  exact ⟨_,_,run,(gating run).1,by decide⟩

end Nak.Machine
