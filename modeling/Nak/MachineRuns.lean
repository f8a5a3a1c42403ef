import Nak.MachineInvariant

/-! The invariant over whole runs. `CallCases` says once what each call can do; every
later result about runs is a case analysis of it. -/
namespace Nak.Machine
open Library
variable {Id Cmd State : Type} [DecidableEq Id] {machine next : Machine Id Cmd State}

inductive CallCases (machine : Machine Id Cmd State) :
    Call Id Cmd State → List (Task Id Cmd) → Machine Id Cmd State → Prop
  | enqueue (pid cmd blockFor tasks next) (fresh : ¬machine.Known pid)
      (enqueued : Enqueued machine pid cmd blockFor tasks next) :
      CallCases machine (.enqueue pid cmd blockFor) tasks next
  | start (pid state) (toRun : pid ∈ machine.toRun) :
      CallCases machine (.start pid state) [] { machine with
        toRun := machine.toRun.erase pid
        running := machine.running.insert pid state }
  | startCompleted (pid status tasks next) (toRun : pid ∈ machine.toRun)
      (undisputed : machine.Undisputed pid status) (finishes : Finishes machine pid status tasks next) :
      CallCases machine (.startCompleted pid status) tasks next
  | completed (pid status tasks next) (running : pid ∈ machine.running)
      (undisputed : machine.Undisputed pid status) (finishes : Finishes machine pid status tasks next) :
      CallCases machine (.completed pid status) tasks next

theorem Inv.call_cases (inv : Inv machine) {call : Call Id Cmd State} {tasks : List (Task Id Cmd)}
    (ok : machine.call call = .ok (tasks,next)) : CallCases machine call tasks next := by
  cases call with
  | enqueue pid cmd blockFor =>
    obtain ⟨fresh,enqueued⟩ := enqueue_cases _ _ _ _ _ _ ok
    exact .enqueue _ _ _ _ _ fresh enqueued
  | start pid state =>
    obtain ⟨started,inner,last⟩ := Outcome.bind_ok.mp ok
    obtain ⟨_,toRun,shape⟩ := Outcome.bind_ok.mp inner
    obtain ⟨rfl,rfl⟩ := Prod.mk.inj (Except.ok.inj last)
    obtain rfl := Except.ok.inj shape
    exact .start pid state ((Outcome.assert_ok _ _).mp toRun)
  | startCompleted pid status =>
    obtain ⟨toRun,undisputed,finishes⟩ := inv.startCompleted_cases ok
    exact .startCompleted _ _ _ _ toRun undisputed finishes
  | completed pid status =>
    obtain ⟨running,undisputed,finishes⟩ := inv.completed_cases ok
    exact .completed _ _ _ _ running undisputed finishes

theorem residual_unfinished {blockFor : OrderedMap Id Condition} {pid : Id} {cond : Condition}
    (passed : ∀ entry ∈ blockFor.entries, machine.Passes entry)
    (left : machine.residual blockFor pid = some cond) : machine.Unfinished pid := by
  unfold residual at left
  split at left
  · cases left
  · rename_i unfinished
    have member : (⟨pid,cond⟩ : Σ _ : Id, Condition) ∈ blockFor.entries :=
      AList.mem_lookup_iff.mp left
    exact (passed _ member).1.resolve_left unfinished

theorem Inv.unlisted (inv : Inv machine) {newPid : Id} (fresh : ¬machine.Known newPid) (pid : Id) (cond : Condition) :
    (cond,newPid) ∉ machine.blockedBy pid := by
  intro member
  obtain ⟨waiting,found,_⟩ := (inv.mirror pid newPid cond).mp member
  exact fresh (Or.inr (Or.inr (Or.inr (FiniteMap.mem_of_lookup found))))

namespace Blocked
variable {newPid : Id} {cmd : Cmd} {blockFor : OrderedMap Id Condition}

theorem blockedBy (after : Blocked machine newPid cmd blockFor next) (pid : Id) :
    next.blockedBy pid = machine.blockedBy pid ++
      ((machine.residual blockFor pid).map (fun cond => (cond,newPid))).toList := by
  rw [Machine.blockedBy,after.checkOnCompleted]
  cases machine.residual blockFor pid with
  | some cond => simp
  | none => simp [Machine.blockedBy]

theorem lookup (after : Blocked machine newPid cmd blockFor next) (waiter : Id) :
    ∃ conditions, (∀ pid, conditions.lookup pid = machine.residual blockFor pid) ∧
      next.waitingOn.lookup waiter =
        if waiter = newPid then some ⟨cmd,conditions⟩ else machine.waitingOn.lookup waiter := by
  obtain ⟨conditions,same,inserted⟩ := after.waitingOn
  exact ⟨conditions,same,by rw [inserted,FiniteMap.lookup_insert_if]⟩

theorem waiting_iff (after : Blocked machine newPid cmd blockFor next) (pid : Id) :
    pid ∈ next.waitingOn ↔ pid = newPid ∨ pid ∈ machine.waitingOn := by
  obtain ⟨conditions,same,inserted⟩ := after.waitingOn
  rw [inserted,Finmap.mem_insert]

theorem unfinished_iff (after : Blocked machine newPid cmd blockFor next) (pid : Id) :
    next.Unfinished pid ↔ pid = newPid ∨ machine.Unfinished pid := by
  rw [Unfinished,Unfinished,after.toRun,after.running,after.waiting_iff]
  tauto

theorem mirror (after : Blocked machine newPid cmd blockFor next) (inv : Inv machine) (fresh : ¬machine.Known newPid)
    (pid waiter : Id) (cond : Condition) : (cond,waiter) ∈ next.blockedBy pid ↔
      ∃ waiting, next.waitingOn.lookup waiter = some waiting ∧ waiting.conditions.lookup pid = some cond := by
  obtain ⟨conditions,same,found⟩ := after.lookup waiter
  rw [after.blockedBy,List.mem_append,found]
  by_cases new : waiter = newPid
  · subst new
    simp only [inv.unlisted fresh,false_or,Option.mem_toList,Option.map_eq_some_iff,Prod.mk.injEq,if_true,
      Option.some.injEq,exists_eq_left',same]
    constructor
    · intro given
      obtain ⟨other,left,rfl,_⟩ := given
      exact left
    · exact fun left => ⟨cond,left,rfl,trivial⟩
  · simp only [new,if_false,Option.mem_toList,Option.map_eq_some_iff,Prod.mk.injEq]
    rw [← inv.mirror pid waiter cond]
    constructor
    · intro either
      rcases either with member | ⟨_,_,_,rfl⟩
      · exact member
      · exact absurd rfl new
    · exact Or.inl

theorem distinct (after : Blocked machine newPid cmd blockFor next) (inv : Inv machine) (fresh : ¬machine.Known newPid)
    (pid : Id) : ((next.blockedBy pid).map Prod.snd).Nodup := by
  rw [after.blockedBy,List.map_append]
  cases machine.residual blockFor pid with
  | none => simpa using inv.distinct pid
  | some cond =>
    refine List.Nodup.append (inv.distinct pid) (by simp) ?_
    intro waiter old new
    obtain ⟨entry,member,rfl⟩ := List.mem_map.mp old
    obtain rfl : entry.2 = newPid := by simpa using new
    exact inv.unlisted fresh pid entry.1 member

theorem inv (after : Blocked machine newPid cmd blockFor next) (inv : Inv machine) (fresh : ¬machine.Known newPid)
    (passed : ∀ entry ∈ blockFor.entries, machine.Passes entry)
    (some : ∃ pid, machine.residual blockFor pid ≠ none) : Inv next := by
  constructor
  · intro pid finished unfinished
    rw [after.finished] at finished
    rcases (after.unfinished_iff pid).mp unfinished with rfl | old
    · exact fresh (Or.inl finished)
    · exact inv.finished_apart pid finished old
  · intro pid toRun
    rw [after.toRun] at toRun
    rw [after.running,after.waiting_iff,not_or]
    refine ⟨(inv.toRun_apart pid toRun).1,?_,(inv.toRun_apart pid toRun).2⟩
    intro same
    obtain rfl := same
    exact fresh (Or.inr (Or.inl toRun))
  · intro pid running
    rw [after.running] at running
    rw [after.waiting_iff,not_or]
    refine ⟨?_,inv.running_apart pid running⟩
    intro same
    obtain rfl := same
    exact fresh (Or.inr (Or.inr (Or.inl running)))
  · exact after.mirror inv fresh
  · exact after.distinct inv fresh
  · intro pid
    rw [after.checkOnCompleted]
    cases machine.residual blockFor pid with
    | none => exact inv.listed pid
    | some cond => simp
  · intro waiter waiting found
    obtain ⟨conditions,same,shape⟩ := after.lookup waiter
    rw [shape] at found
    split at found
    · obtain rfl := Option.some.inj found
      obtain ⟨pid,left⟩ := some
      intro empty
      exact left ((same pid).symm.trans ((FiniteMap.len_eq_zero _).mp empty pid))
    · exact inv.pending waiter waiting found
  · intro waiter waiting pid cond found listed
    obtain ⟨conditions,same,shape⟩ := after.lookup waiter
    rw [shape] at found
    rw [after.unfinished_iff]
    split at found
    · obtain rfl := Option.some.inj found
      exact Or.inr (residual_unfinished passed ((same pid).symm.trans listed))
    · exact Or.inr (inv.unfinished waiter waiting pid cond found listed)

end Blocked

theorem Inv.ready (inv : Inv machine) {newPid : Id} (fresh : ¬machine.Known newPid) :
    Inv { machine with toRun := insert newPid machine.toRun } := by
  simp only [Known,Unfinished,not_or] at fresh
  obtain ⟨notFinished,_,notRunning,notWaiting⟩ := fresh
  constructor
  · intro pid finished unfinished
    rcases unfinished with toRun | other
    · rcases Finset.mem_insert.mp toRun with rfl | old
      · exact notFinished finished
      · exact inv.finished_apart pid finished (Or.inl old)
    · exact inv.finished_apart pid finished (Or.inr other)
  · intro pid toRun
    rcases Finset.mem_insert.mp toRun with rfl | old
    · exact ⟨notRunning,notWaiting⟩
    · exact inv.toRun_apart pid old
  · exact inv.running_apart
  · exact inv.mirror
  · exact inv.distinct
  · exact inv.listed
  · exact inv.pending
  · intro waiter waiting pid cond found listed
    rcases inv.unfinished waiter waiting pid cond found listed with toRun | other
    · exact Or.inl (Finset.mem_insert_of_mem toRun)
    · exact Or.inr other

theorem Inv.started (inv : Inv machine) {pid : Id} (state : State) (toRun : pid ∈ machine.toRun) :
    Inv { machine with
      toRun := machine.toRun.erase pid
      running := machine.running.insert pid state } := by
  obtain ⟨notRunning,notWaiting⟩ := inv.toRun_apart pid toRun
  constructor
  · intro other finished unfinished
    rcases unfinished with old | running | waiting
    · exact inv.finished_apart other finished (Or.inl (Finset.mem_of_mem_erase old))
    · rcases Finmap.mem_insert.mp running with rfl | running
      · exact inv.finished_apart other finished (Or.inl toRun)
      · exact inv.finished_apart other finished (Or.inr (Or.inl running))
    · exact inv.finished_apart other finished (Or.inr (Or.inr waiting))
  · intro other member
    obtain ⟨different,old⟩ := Finset.mem_erase.mp member
    obtain ⟨idle,apart⟩ := inv.toRun_apart other old
    exact ⟨fun running => (Finmap.mem_insert.mp running).elim different idle,apart⟩
  · intro other running
    rcases Finmap.mem_insert.mp running with rfl | running
    · exact notWaiting
    · exact inv.running_apart other running
  · exact inv.mirror
  · exact inv.distinct
  · exact inv.listed
  · exact inv.pending
  · intro waiter waiting other cond found listed
    rcases inv.unfinished waiter waiting other cond found listed with old | running | waits
    · by_cases same : other = pid
      · exact Or.inr (Or.inl (Finmap.mem_insert.mpr (Or.inl same)))
      · exact Or.inl (Finset.mem_erase.mpr ⟨same,old⟩)
    · exact Or.inr (Or.inl (Finmap.mem_insert.mpr (Or.inr running)))
    · exact Or.inr (Or.inr waits)

theorem released_start {pid waiter : Id} {task : Task Id Cmd} (released : machine.released pid waiter = some task) :
    ∃ waiting, machine.waitingOn.lookup waiter = some waiting ∧ task = .start waiter waiting.cmd := by
  obtain ⟨waiting,found,left⟩ := Option.bind_eq_some_iff.mp released
  split at left
  · exact ⟨waiting,found,(Option.some.inj left).symm⟩
  · cases left

namespace Finishes
variable {pid : Id} {status : ExitStatus} {tasks : List (Task Id Cmd)}

theorem blockedBy (finishes : Finishes machine pid status tasks next) (other : Id) :
    next.blockedBy other = if other = pid then [] else machine.blockedBy other := by
  rw [Machine.blockedBy,finishes.checkOnCompleted,FiniteMap.lookup_erase_if]
  split <;> rfl

theorem waiting (finishes : Finishes machine pid status tasks next) {waiter : Id} {waiting : Waiting Id Cmd}
    (found : next.waitingOn.lookup waiter = some waiting) :
    ∃ before, machine.waitingOn.lookup waiter = some before ∧ waiting.cmd = before.cmd ∧
      waiting.conditions = before.conditions.erase pid ∧ FiniteMap.len waiting.conditions ≠ 0 := by
  rw [finishes.waitingOn] at found
  obtain ⟨before,old,settled⟩ := Option.bind_eq_some_iff.mp found
  unfold settle at settled
  split at settled
  · cases settled
  · rename_i more
    obtain rfl := Option.some.inj settled
    exact ⟨before,old,rfl,rfl,more⟩

theorem waiter (finishes : Finishes machine pid status tasks next) {waiter : Id} {before : Waiting Id Cmd}
    (found : machine.waitingOn.lookup waiter = some before) :
    (FiniteMap.len (before.conditions.erase pid) ≠ 0 ∧
        next.waitingOn.lookup waiter = some ⟨before.cmd,before.conditions.erase pid⟩) ∨
      (FiniteMap.len (before.conditions.erase pid) = 0 ∧ next.waitingOn.lookup waiter = none ∧
        machine.released pid waiter = some (.start waiter before.cmd)) := by
  rw [finishes.waitingOn,released,found,Option.bind_some,Option.bind_some,settle]
  split
  · rename_i last
    exact Or.inr ⟨last,rfl,rfl⟩
  · rename_i more
    exact Or.inl ⟨more,rfl⟩

theorem gone (finishes : Finishes machine pid status tasks next) {waiter : Id} {task : Task Id Cmd}
    (released : machine.released pid waiter = some task) : next.waitingOn.lookup waiter = none := by
  obtain ⟨before,found,_⟩ := released_start released
  rcases finishes.waiter found with ⟨more,_⟩ | ⟨_,gone,_⟩
  · rw [Machine.released,found,Option.bind_some,if_neg more] at released
    cases released
  · exact gone

theorem unfinished (finishes : Finishes machine pid status tasks next) {other : Id}
    (unfinished : machine.Unfinished other) (different : other ≠ pid) : next.Unfinished other := by
  rcases unfinished with toRun | running | waiting
  · exact Or.inl ((finishes.toRun other).mpr (Or.inl ⟨toRun,different⟩))
  · refine Or.inr (Or.inl ?_)
    rw [finishes.running]
    exact Finmap.mem_erase.mpr ⟨different,running⟩
  · obtain ⟨before,found⟩ := Finmap.mem_iff.mp waiting
    rcases finishes.waiter found with ⟨_,stays⟩ | ⟨_,_,released⟩
    · exact Or.inr (Or.inr (FiniteMap.mem_of_lookup stays))
    · exact Or.inl ((finishes.toRun other).mpr (Or.inr (by rw [released]; rfl)))

theorem unfinished_before (finishes : Finishes machine pid status tasks next) {other : Id}
    (unfinished : next.Unfinished other) : machine.Unfinished other := by
  rcases unfinished with toRun | running | waiting
  · rcases (finishes.toRun other).mp toRun with ⟨old,_⟩ | released
    · exact Or.inl old
    · obtain ⟨task,some⟩ := Option.isSome_iff_exists.mp released
      obtain ⟨before,found,_⟩ := released_start some
      exact Or.inr (Or.inr (FiniteMap.mem_of_lookup found))
  · rw [finishes.running] at running
    exact Or.inr (Or.inl (Finmap.mem_erase.mp running).2)
  · obtain ⟨waiting,found⟩ := Finmap.mem_iff.mp waiting
    obtain ⟨before,old,_⟩ := finishes.waiting found
    exact Or.inr (Or.inr (FiniteMap.mem_of_lookup old))

theorem not_unfinished (finishes : Finishes machine pid status tasks next) (inv : Inv machine)
    (ready : pid ∈ machine.toRun ∨ pid ∈ machine.running) : ¬next.Unfinished pid := by
  have notWaiting : pid ∉ machine.waitingOn :=
    ready.elim (fun toRun => (inv.toRun_apart pid toRun).2) (inv.running_apart pid)
  have missing := Finmap.lookup_eq_none.mpr notWaiting
  intro either
  rcases either with toRun | running | waiting
  · rcases (finishes.toRun pid).mp toRun with ⟨_,different⟩ | released
    · exact different rfl
    · simp [Machine.released,missing] at released
  · rw [finishes.running] at running
    exact (Finmap.mem_erase.mp running).1 rfl
  · obtain ⟨waiting,found⟩ := Finmap.mem_iff.mp waiting
    obtain ⟨before,old,_⟩ := finishes.waiting found
    simp [missing] at old

theorem mem_tasks (finishes : Finishes machine pid status tasks next) (inv : Inv machine) (task : Task Id Cmd) :
    task ∈ tasks ↔ ∃ waiter, machine.released pid waiter = some task := by
  rw [finishes.tasks,List.mem_filterMap]
  constructor
  · intro given
    obtain ⟨waiter,_,released⟩ := given
    exact ⟨waiter,released⟩
  · intro given
    obtain ⟨waiter,released⟩ := given
    exact ⟨waiter,inv.released_listed (by rw [released]; rfl),released⟩

theorem task_starts (finishes : Finishes machine pid status tasks next) (inv : Inv machine) {task : Task Id Cmd}
    (member : task ∈ tasks) : ∃ waiter waiting, machine.waitingOn.lookup waiter = some waiting ∧
      task = .start waiter waiting.cmd ∧ waiter ∈ next.toRun ∧ next.waitingOn.lookup waiter = none := by
  obtain ⟨waiter,released⟩ := (finishes.mem_tasks inv task).mp member
  obtain ⟨waiting,found,rfl⟩ := released_start released
  have toRun := (finishes.toRun waiter).mpr (Or.inr (by rw [released]; rfl))
  exact ⟨waiter,waiting,found,rfl,toRun,finishes.gone released⟩

theorem releases (finishes : Finishes machine pid status tasks next) (inv : Inv machine) {waiter : Id}
    {before : Waiting Id Cmd} (found : machine.waitingOn.lookup waiter = some before)
    (all : ∀ other cond, before.conditions.lookup other = some cond → other ∈ next.finished) :
    machine.released pid waiter = some (.start waiter before.cmd) ∧ .start waiter before.cmd ∈ tasks := by
  rcases finishes.waiter found with ⟨more,_⟩ | ⟨_,_,released⟩
  · obtain ⟨other,cond,left⟩ : ∃ other cond, (before.conditions.erase pid).lookup other = some cond := by
      by_contra none
      refine more ((FiniteMap.len_eq_zero _).mpr fun other => ?_)
      exact Option.eq_none_iff_forall_ne_some.mpr fun cond left => none ⟨other,cond,left⟩
    rw [FiniteMap.lookup_erase_if] at left
    split at left
    · cases left
    · rename_i different
      have finished := all other cond left
      rw [finishes.finished] at finished
      have old := (Finmap.mem_insert.mp finished).resolve_left different
      exact absurd (inv.unfinished waiter before other cond found left) (inv.finished_apart other old)
  · exact ⟨released,(finishes.mem_tasks inv _).mpr ⟨waiter,released⟩⟩

theorem mirror (finishes : Finishes machine pid status tasks next) (inv : Inv machine) (other waiter : Id)
    (cond : Condition) : (cond,waiter) ∈ next.blockedBy other ↔
      ∃ waiting, next.waitingOn.lookup waiter = some waiting ∧ waiting.conditions.lookup other = some cond := by
  rw [finishes.blockedBy]
  split
  · rename_i same
    simp only [List.not_mem_nil,false_iff,not_exists,not_and]
    intro waiting found
    obtain ⟨before,_,_,erased,_⟩ := finishes.waiting found
    rw [erased,same,Finmap.lookup_erase]
    nofun
  · rename_i different
    rw [inv.mirror other waiter cond]
    constructor
    · intro given
      obtain ⟨before,found,listed⟩ := given
      have kept : (before.conditions.erase pid).lookup other = some cond := by
        rw [Finmap.lookup_erase_ne different,listed]
      rcases finishes.waiter found with ⟨_,stays⟩ | ⟨last,_,_⟩
      · exact ⟨_,stays,kept⟩
      · rw [(FiniteMap.len_eq_zero _).mp last other] at kept
        cases kept
    · intro given
      obtain ⟨waiting,found,listed⟩ := given
      obtain ⟨before,old,_,erased,_⟩ := finishes.waiting found
      rw [erased,Finmap.lookup_erase_ne different] at listed
      exact ⟨before,old,listed⟩

theorem inv (finishes : Finishes machine pid status tasks next) (inv : Inv machine)
    (ready : pid ∈ machine.toRun ∨ pid ∈ machine.running) : Inv next := by
  constructor
  · intro other finished unfinished
    rw [finishes.finished] at finished
    rcases Finmap.mem_insert.mp finished with rfl | finished
    · exact finishes.not_unfinished inv ready unfinished
    · exact inv.finished_apart other finished (finishes.unfinished_before unfinished)
  · intro other toRun
    rw [finishes.running,Finmap.mem_erase]
    rcases (finishes.toRun other).mp toRun with ⟨old,different⟩ | some
    · refine ⟨fun running => (inv.toRun_apart other old).1 running.2,fun waiting => ?_⟩
      obtain ⟨waiting,found⟩ := Finmap.mem_iff.mp waiting
      obtain ⟨before,waits,_⟩ := finishes.waiting found
      exact inv.waiting_not_toRun waits old
    · obtain ⟨task,released⟩ := Option.isSome_iff_exists.mp some
      obtain ⟨before,found,_⟩ := released_start released
      exact ⟨fun running => inv.waiting_not_running found running.2,Finmap.lookup_eq_none.mp (finishes.gone released)⟩
  · intro other running waiting
    rw [finishes.running] at running
    obtain ⟨waiting,found⟩ := Finmap.mem_iff.mp waiting
    obtain ⟨before,waits,_⟩ := finishes.waiting found
    exact inv.waiting_not_running waits (Finmap.mem_erase.mp running).2
  · exact finishes.mirror inv
  · intro other
    rw [finishes.blockedBy]
    split
    · exact List.nodup_nil
    · exact inv.distinct other
  · intro other
    rw [finishes.checkOnCompleted,FiniteMap.lookup_erase_if]
    split
    · nofun
    · exact inv.listed other
  · intro waiter waiting found
    obtain ⟨_,_,_,_,more⟩ := finishes.waiting found
    exact more
  · intro waiter waiting other cond found listed
    obtain ⟨before,old,_,erased,_⟩ := finishes.waiting found
    rw [erased,FiniteMap.lookup_erase_if] at listed
    split at listed
    · cases listed
    · rename_i different
      exact finishes.unfinished (inv.unfinished waiter before other cond old listed) different

end Finishes

theorem CallCases.inv {call : Call Id Cmd State} {tasks : List (Task Id Cmd)} (inv : Inv machine)
    (cases : CallCases machine call tasks next) : Inv next := by
  cases cases with
  | enqueue pid cmd blockFor tasks next fresh enqueued =>
    cases enqueued with
    | refused => exact inv
    | ready passed all => exact inv.ready fresh
    | blocked next passed some after => exact after.inv inv fresh passed some
  | start pid state toRun => exact inv.started state toRun
  | startCompleted pid status tasks next toRun undisputed finishes => exact finishes.inv inv (Or.inl toRun)
  | completed pid status tasks next running undisputed finishes => exact finishes.inv inv (Or.inr running)

theorem reachable_inv (reachable : system.Reachable machine) : Inv machine := by
  refine reachable.invariant Inv ?_ ?_
  · intro _ same
    obtain rfl := same
    exact inv_new
  · intro state label next inv taken
    exact CallCases.inv inv (inv.call_cases taken)

end Nak.Machine
