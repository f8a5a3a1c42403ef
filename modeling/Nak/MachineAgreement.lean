import Nak.MachineAccount

/-! A dependency is evaluated by `enqueue` when its pid has finished and by `resolve_tasks`
when it finishes later. Both orders of the two requests end in the same machine with the
same tasks, as long as the panicking branch of `resolve_tasks` is not taken. -/
namespace Nak.Machine
open Library
variable {Id Cmd State : Type} [DecidableEq Id] {machine : Machine Id Cmd State}

def enqueueThenCompleted (machine : Machine Id Cmd State) (newPid : Id) (cmd : Cmd)
    (blockFor : OrderedMap Id Condition) (pid : Id) (status : ExitStatus) :
    Outcome (List (Task Id Cmd) × Machine Id Cmd State) := do
  let (tasks,machine) ← machine.enqueue newPid cmd blockFor
  let (more,machine) ← machine.completed pid status
  pure (tasks ++ more,machine)

def completedThenEnqueue (machine : Machine Id Cmd State) (newPid : Id) (cmd : Cmd)
    (blockFor : OrderedMap Id Condition) (pid : Id) (status : ExitStatus) :
    Outcome (List (Task Id Cmd) × Machine Id Cmd State) := do
  let (tasks,machine) ← machine.completed pid status
  let (more,machine) ← machine.enqueue newPid cmd blockFor
  pure (tasks ++ more,machine)

/-- Both orders return the same machine and, up to order, the same tasks. -/
def OrdersAgree (machine : Machine Id Cmd State) (newPid : Id) (cmd : Cmd) (blockFor : OrderedMap Id Condition)
    (pid : Id) (status : ExitStatus) : Prop :=
  ∃ deferred immediate final,
    machine.enqueueThenCompleted newPid cmd blockFor pid status = .ok (deferred,final) ∧
    machine.completedThenEnqueue newPid cmd blockFor pid status = .ok (immediate,final) ∧
    deferred.Perm immediate

/-- Nothing that waits for the pid, the new command included, is contradicted; a command
that is refused at once does not come to wait. -/
def Consistent (machine : Machine Id Cmd State) (blockFor : OrderedMap Id Condition) (pid : Id)
    (status : ExitStatus) : Prop :=
  machine.Undisputed pid status ∧
    (machine.Refused blockFor ∨
      (∀ entry ∈ blockFor.entries, machine.Passes entry) ∧
        ∀ cond, blockFor.lookup pid = some cond → ¬Contradicted cond status)

section Orders
variable {newPid pid : Id} {cmd : Cmd} {blockFor : OrderedMap Id Condition} {status : ExitStatus}
  {done blocked next final : Machine Id Cmd State} {tasks more extra : List (Task Id Cmd)}

theorem residual_running (inv : Inv machine) (running : pid ∈ machine.running) :
    machine.residual blockFor pid = blockFor.lookup pid := by
  rw [residual,if_neg]
  exact fun finished => inv.finished_apart pid finished (Or.inr (Or.inl running))

theorem Finishes.residual (finishes : Finishes machine pid status tasks next) (other : Id) :
    next.residual blockFor other = if other = pid then none else machine.residual blockFor other := by
  rw [Machine.residual,Machine.residual,finishes.finished]
  by_cases same : other = pid <;> simp [same,Finmap.mem_insert]

theorem Blocked.undisputed_iff (after : Blocked machine newPid cmd blockFor blocked)
    (absent : newPid ∉ machine.waitingOn) :
    blocked.Undisputed pid status ↔ machine.Undisputed pid status ∧
      ∀ cond, machine.residual blockFor pid = some cond → ¬Contradicted cond status := by
  constructor
  · intro undisputed
    constructor
    · intro waiter waiting cond found listed
      obtain ⟨_,_,same⟩ := after.lookup waiter
      refine undisputed waiter waiting cond ?_ listed
      rw [same,if_neg,found]
      intro same
      obtain rfl := same
      exact absent (FiniteMap.mem_of_lookup found)
    · intro cond left
      obtain ⟨conditions,same,found⟩ := after.lookup newPid
      rw [if_pos rfl] at found
      exact undisputed newPid _ cond found (by rw [same]; exact left)
  · intro given waiter waiting cond found listed
    obtain ⟨old,new⟩ := given
    obtain ⟨conditions,same,shape⟩ := after.lookup waiter
    rw [shape] at found
    split at found
    · obtain rfl := Option.some.inj found
      exact new cond ((same pid).symm.trans listed)
    · exact old waiter waiting cond found listed

theorem Blocked.released (after : Blocked machine newPid cmd blockFor blocked) (waiter : Id)
    (old : waiter ≠ newPid) : blocked.released pid waiter = machine.released pid waiter := by
  obtain ⟨_,_,same⟩ := after.lookup waiter
  rw [Machine.released,Machine.released,same,if_neg old]

theorem Blocked.later_tasks (after : Blocked machine newPid cmd blockFor blocked) (inv : Inv machine)
    (absent : newPid ∉ machine.waitingOn) {cond : Condition} (left : machine.residual blockFor pid = some cond)
    (later : Finishes blocked pid status more final) (finishes : Finishes machine pid status tasks done) :
    more = tasks ++ (blocked.released pid newPid).toList := by
  have same : ∀ waiter ∈ (machine.blockedBy pid).map Prod.snd,
      blocked.released pid waiter = machine.released pid waiter := by
    intro waiter member
    obtain ⟨entry,listed,rfl⟩ := List.mem_map.mp member
    obtain ⟨waiting,found,_⟩ := (inv.mirror pid entry.2 entry.1).mp listed
    refine after.released entry.2 ?_
    intro equal
    exact absent (equal ▸ FiniteMap.mem_of_lookup found)
  rw [later.tasks,after.blockedBy,left,List.map_append,List.filterMap_append,List.filterMap_congr same,
    ← finishes.tasks]
  cases found : blocked.released pid newPid <;> simp [found]

theorem Blocked.finished_later (after : Blocked machine newPid cmd blockFor blocked)
    (later : Finishes blocked pid status more final) (finishes : Finishes machine pid status tasks done) :
    final.finished = done.finished ∧ final.running = done.running ∧
      (∀ other, final.checkOnCompleted.lookup other =
        match done.residual blockFor other with
        | some cond => some (done.blockedBy other ++ [(cond,newPid)])
        | none => done.checkOnCompleted.lookup other) ∧
      ∀ waiter, waiter ≠ newPid → (waiter ∈ final.toRun ↔ waiter ∈ done.toRun) ∧
        final.waitingOn.lookup waiter = done.waitingOn.lookup waiter := by
  refine ⟨?_,?_,fun other => ?_,fun waiter old => ⟨?_,?_⟩⟩
  · rw [later.finished,finishes.finished,after.finished]
  · rw [later.running,finishes.running,after.running]
  · rw [later.checkOnCompleted,finishes.checkOnCompleted,finishes.residual,finishes.blockedBy,
      FiniteMap.lookup_erase_if,FiniteMap.lookup_erase_if,after.checkOnCompleted]
    split <;> rfl
  · rw [later.toRun,finishes.toRun,after.toRun,after.released waiter old]
  · obtain ⟨_,_,same⟩ := after.lookup waiter
    rw [later.waitingOn,finishes.waitingOn,same,if_neg old]

/-- Deferring the evaluation of a condition and doing it at once give the same machine. -/
theorem Blocked.orders_meet (after : Blocked machine newPid cmd blockFor blocked) (inv : Inv machine)
    (fresh : ¬machine.Known newPid) {cond : Condition} (left : machine.residual blockFor pid = some cond)
    (later : Finishes blocked pid status more final) (finishes : Finishes machine pid status tasks done)
    (enqueued : Enqueued done newPid cmd blockFor extra next)
    (passed : ∀ entry ∈ blockFor.entries, done.Passes entry) : final = next ∧ more = tasks ++ extra := by
  have absent : newPid ∉ machine.waitingOn := fun waiting => fresh (Or.inr (Or.inr (Or.inr waiting)))
  obtain ⟨finished,running,checkOnCompleted,others⟩ := after.finished_later later finishes
  obtain ⟨conditions,same,inserted⟩ := after.waitingOn
  have found : blocked.waitingOn.lookup newPid = some ⟨cmd,conditions⟩ := by rw [inserted,Finmap.lookup_insert]
  have remaining (other : Id) : (conditions.erase pid).lookup other = done.residual blockFor other := by
    rw [FiniteMap.lookup_erase_if,finishes.residual,same]
  rw [after.later_tasks inv absent left later finishes]
  cases enqueued with
  | refused before entry rest shape _ refuses =>
    exact absurd (passed entry (by simp [shape])) (refuses_not_passes refuses)
  | ready _ all =>
    rcases later.waiter found with ⟨more,_⟩ | ⟨last,gone,released⟩
    · exact absurd ((FiniteMap.len_eq_zero _).mpr fun other => (remaining other).trans (all other)) more
    · refine ⟨Machine.ext finished ?_ running ?_ ?_,by rw [released]; rfl⟩
      · ext waiter
        rw [Finset.mem_insert]
        by_cases new : waiter = newPid
        · subst new
          simp [later.toRun,released]
        · rw [(others waiter new).1]
          simp [new]
      · refine Finmap.ext_lookup fun other => ?_
        rw [checkOnCompleted,all other]
      · refine Finmap.ext_lookup fun waiter => ?_
        by_cases new : waiter = newPid
        · subst new
          rw [gone,finishes.waitingOn,Finmap.lookup_eq_none.mpr absent]
          rfl
        · exact (others waiter new).2
  | blocked next _ some immediate =>
    obtain ⟨other,kept⟩ := some
    obtain ⟨again,same',inserted'⟩ := immediate.waitingOn
    rcases later.waiter found with ⟨more,stays⟩ | ⟨last,_,_⟩
    · have none : blocked.released pid newPid = none := by
        rw [Machine.released,found,Option.bind_some,if_neg more]
      refine ⟨Machine.ext (finished.trans immediate.finished.symm) ?_ (running.trans immediate.running.symm) ?_ ?_,
        by rw [none]; rfl⟩
      · ext waiter
        rw [immediate.toRun]
        by_cases new : waiter = newPid
        · subst new
          rw [later.toRun,finishes.toRun,none,after.toRun,Machine.released,Finmap.lookup_eq_none.mpr absent]
          rfl
        · exact (others waiter new).1
      · refine Finmap.ext_lookup fun other => ?_
        exact (checkOnCompleted other).trans (immediate.checkOnCompleted other).symm
      · refine Finmap.ext_lookup fun waiter => ?_
        rw [inserted',FiniteMap.lookup_insert_if]
        by_cases new : waiter = newPid
        · subst new
          rw [stays,if_pos rfl]
          have equal : conditions.erase pid = again :=
            Finmap.ext_lookup fun other => (remaining other).trans (same' other).symm
          rw [equal]
        · rw [if_neg new]
          exact (others waiter new).2
    · exact absurd ((remaining other).symm.trans ((FiniteMap.len_eq_zero _).mp last other)) kept

theorem Finishes.passes (finishes : Finishes machine pid status tasks done)
    (accepts : ∀ cond, blockFor.lookup pid = some cond → ¬Contradicted cond status)
    (passed : ∀ entry ∈ blockFor.entries, machine.Passes entry) :
    ∀ entry ∈ blockFor.entries, done.Passes entry := by
  intro entry member
  refine ⟨finishes.known (passed entry member).1,fun later found => ?_⟩
  rw [finishes.finished,FiniteMap.lookup_insert_if] at found
  split at found
  · rename_i same
    obtain rfl := Option.some.inj found
    exact accepts entry.2 (same ▸ AList.mem_lookup_iff.mpr member)
  · exact (passed entry member).2 later found

theorem Finishes.refused (finishes : Finishes machine pid status tasks done) (inv : Inv machine)
    (running : pid ∈ machine.running) (refused : machine.Refused blockFor) : done.Refused blockFor := by
  obtain ⟨before,entry,after,shape,passed,later,found,against⟩ := refused
  refine refused_of_known done blockFor before after entry shape
    (fun earlier member => finishes.known (passed earlier member).1) ⟨later,?_,against⟩
  rw [finishes.finished,FiniteMap.lookup_insert_if,if_neg,found]
  intro same
  obtain rfl := same
  exact inv.finished_apart entry.1 (FiniteMap.mem_of_lookup found) (Or.inr (Or.inl running))

theorem enqueue_refused (fresh : ¬machine.Known newPid) (refused : machine.Refused blockFor) :
    machine.enqueue newPid cmd blockFor = .ok ([.conditionFailed newPid cmd],machine) := by
  obtain ⟨⟨extra,next⟩,ok⟩ := (enqueue_returns_iff machine newPid cmd blockFor).mpr ⟨fresh,Or.inr refused⟩
  obtain ⟨_,enqueued⟩ := enqueue_cases _ _ _ _ _ _ ok
  obtain ⟨before,entry,after,shape,_,refuses⟩ := refused
  obtain ⟨rfl,rfl⟩ := enqueued.refused_of (by simp [shape]) refuses
  exact ok

theorem Enqueued.blocked_of {cond : Condition} (enqueued : Enqueued machine newPid cmd blockFor extra blocked)
    (passed : ∀ entry ∈ blockFor.entries, machine.Passes entry)
    (left : machine.residual blockFor pid = some cond) :
    extra = [] ∧ Blocked machine newPid cmd blockFor blocked := by
  cases enqueued with
  | refused before entry after shape _ refuses =>
    exact absurd (passed entry (by simp [shape])) (refuses_not_passes refuses)
  | ready _ all => simp [all pid] at left
  | blocked _ _ _ after => exact ⟨rfl,after⟩

end Orders

/-- The immediate and the deferred evaluation of a dependency agree exactly when no
condition on the finishing pid is contradicted, or the new command is refused anyway. -/
theorem orders_agree_iff (reachable : system.Reachable machine) (newPid : Id) (cmd : Cmd)
    (blockFor : OrderedMap Id Condition) (pid : Id) (status : ExitStatus) (running : pid ∈ machine.running)
    (fresh : ¬machine.Known newPid) (contains : pid ∈ blockFor) :
    OrdersAgree machine newPid cmd blockFor pid status ↔ Consistent machine blockFor pid status := by
  have inv := reachable_inv reachable
  have absent : newPid ∉ machine.waitingOn := fun waiting => fresh (Or.inr (Or.inr (Or.inr waiting)))
  obtain ⟨cond,listed⟩ := Option.isSome_iff_exists.mp (AList.lookup_isSome.mpr contains)
  have left : machine.residual blockFor pid = some cond := (residual_running inv running).trans listed
  constructor
  · intro given
    obtain ⟨deferred,_,final,ok,_,_⟩ := given
    obtain ⟨⟨extra,blocked⟩,enqueue,ok⟩ := Outcome.bind_ok.mp ok
    obtain ⟨⟨more,_⟩,completed,_⟩ := Outcome.bind_ok.mp ok
    obtain ⟨_,enqueued⟩ := enqueue_cases _ _ _ _ _ _ enqueue
    rcases ((enqueue_returns_iff machine newPid cmd blockFor).mp ⟨_,enqueue⟩).2 with passed | refused
    · obtain ⟨_,after⟩ := enqueued.blocked_of passed left
      have some : ∃ pid, machine.residual blockFor pid ≠ none := ⟨pid,by simp [left]⟩
      obtain ⟨_,undisputed,_⟩ := (after.inv inv fresh passed some).completed_cases completed
      obtain ⟨old,new⟩ := (after.undisputed_iff absent).mp undisputed
      exact ⟨old,Or.inr ⟨passed,fun cond found => new cond ((residual_running inv running).trans found)⟩⟩
    · obtain ⟨_,rfl⟩ := Prod.mk.inj (Except.ok.inj (enqueue.symm.trans (enqueue_refused fresh refused)))
      exact ⟨(inv.completed_cases completed).2.1,Or.inl refused⟩
  · intro given
    obtain ⟨undisputed,possible⟩ := given
    obtain ⟨tasks,done,first,finishes⟩ := inv.completed_finishes pid status running undisputed
    have freshAfter : ¬done.Known newPid := by
      intro known
      rcases (CallCases.completed pid status tasks done running undisputed finishes).known_before known with old | new
      · exact fresh old
      · cases new
    rcases possible with refused | ⟨passed,accepts⟩
    · refine ⟨[.conditionFailed newPid cmd] ++ tasks,tasks ++ [.conditionFailed newPid cmd],done,?_,?_,
        List.perm_append_comm⟩
      · simp only [enqueueThenCompleted,enqueue_refused fresh refused,Outcome.ok_bind,first,Outcome.pure_ok]
      · simp only [completedThenEnqueue,first,Outcome.ok_bind,
          enqueue_refused freshAfter (finishes.refused inv running refused),Outcome.pure_ok]
    · obtain ⟨⟨extra,blocked⟩,enqueue⟩ :=
        (enqueue_returns_iff machine newPid cmd blockFor).mpr ⟨fresh,Or.inl passed⟩
      obtain ⟨_,enqueued⟩ := enqueue_cases _ _ _ _ _ _ enqueue
      obtain ⟨rfl,after⟩ := enqueued.blocked_of passed left
      have some : ∃ pid, machine.residual blockFor pid ≠ none := ⟨pid,by simp [left]⟩
      have agreed : blocked.Undisputed pid status := (after.undisputed_iff absent).mpr
        ⟨undisputed,fun cond found => accepts cond ((residual_running inv running).symm.trans found)⟩
      obtain ⟨more,final,second,later⟩ := (after.inv inv fresh passed some).completed_finishes pid status
        (by rw [after.running]; exact running) agreed
      have passedAfter := finishes.passes accepts passed
      obtain ⟨⟨late,next⟩,again⟩ :=
        (enqueue_returns_iff done newPid cmd blockFor).mpr ⟨freshAfter,Or.inl passedAfter⟩
      obtain ⟨_,immediate⟩ := enqueue_cases _ _ _ _ _ _ again
      obtain ⟨rfl,rfl⟩ := after.orders_meet inv fresh left later finishes immediate passedAfter
      refine ⟨tasks ++ late,tasks ++ late,final,?_,?_,.refl _⟩
      · simp only [enqueueThenCompleted,enqueue,Outcome.ok_bind,second,List.nil_append,Outcome.pure_ok]
      · simp only [completedThenEnqueue,first,Outcome.ok_bind,again,Outcome.pure_ok]

theorem orders_agree_success : ∃ machine : Machine Nat String String,
    system.Reachable machine ∧ 0 ∈ machine.running ∧
      OrdersAgree machine 1 "make install" (AList.singleton 0 (some .success)) 0 .success := by
  have reachable := replay_reachable ([.enqueue 0 "make" ∅,.start 0 "child"] : List (Call Nat String String)) rfl
  refine ⟨_,reachable,by decide,(orders_agree_iff reachable 1 "make install" _ 0 .success (by decide)
    (by decide) (by decide)).mpr ⟨?_,Or.inr ⟨?_,?_⟩⟩⟩
  · exact ((reachable_inv reachable).undisputed_iff 0 .success).mpr (by decide)
  · intro entry member
    obtain rfl : entry = ⟨0,some .success⟩ := by simpa using member
    exact ⟨by decide,by rintro (_ | _) <;> decide⟩
  · intro cond found
    obtain rfl : some ExitStatus.success = cond := Option.some.inj found
    decide

/-- Waiting for success of a command that then fails: one order panics, the other returns. -/
theorem orders_agree_fails : ∃ trace, ∃ machine : Machine Nat String String,
    System.replay new call [.enqueue 0 "make" ∅,.start 0 "child"] = .ok (trace,machine) ∧ 0 ∈ machine.running ∧
      machine.enqueueThenCompleted 1 "make install" (AList.singleton 0 (some .success)) 0 .failure =
        .error .assertion ∧
      (machine.completedThenEnqueue 1 "make install" (AList.singleton 0 (some .success)) 0 .failure).Returns ∧
      ¬OrdersAgree machine 1 "make install" (AList.singleton 0 (some .success)) 0 .failure := by
  refine ⟨_,_,rfl,by decide,by rfl,⟨_,rfl⟩,?_⟩
  intro given
  obtain ⟨_,_,_,ok,_⟩ := given
  cases ok

end Nak.Machine
