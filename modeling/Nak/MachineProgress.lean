import Nak.MachineMirror
import Nak.Library.Rank

/-! No waiting command is stuck. Commands wait for commands enqueued before them only, so
the waits-for relation has a rank, although the machine does not store it. -/
namespace Nak.Machine
open Library Relation
variable {Id Cmd State : Type} [DecidableEq Id] {machine next : Machine Id Cmd State}

def WaitsFor (machine : Machine Id Cmd State) (waiter pid : Id) : Prop :=
  ∃ waiting, machine.waitingOn.lookup waiter = some waiting ∧ pid ∈ waiting.conditions

def ReadyOrRunning (machine : Machine Id Cmd State) (pid : Id) : Prop :=
  pid ∈ machine.toRun ∨ pid ∈ machine.running

/-- Following the dependencies of a waiting pid always ends at one that is ready or
running, and never comes back. -/
structure Progresses (machine : Machine Id Cmd State) : Prop where
  acyclic : ∀ pid, ¬TransGen machine.WaitsFor pid pid
  ends : ∀ waiter, waiter ∈ machine.waitingOn → Leads machine.WaitsFor machine.ReadyOrRunning waiter
  busy : machine.waitingOn ≠ ∅ → machine.toRun ≠ ∅ ∨ machine.running ≠ ∅

theorem WaitsFor.waiting {waiter pid : Id} (waits : machine.WaitsFor waiter pid) : waiter ∈ machine.waitingOn := by
  obtain ⟨waiting,found,_⟩ := waits
  exact FiniteMap.mem_of_lookup found

namespace Inv

theorem waits_for_unfinished (inv : Inv machine) {waiter pid : Id} (waits : machine.WaitsFor waiter pid) :
    machine.Unfinished pid := by
  obtain ⟨waiting,found,listed⟩ := waits
  obtain ⟨cond,left⟩ := Finmap.mem_iff.mp listed
  exact inv.unfinished waiter waiting pid cond found left

theorem waits_for_some (inv : Inv machine) {waiter : Id} (waits : waiter ∈ machine.waitingOn) :
    ∃ pid, machine.WaitsFor waiter pid := by
  obtain ⟨waiting,found⟩ := Finmap.mem_iff.mp waits
  by_contra none
  refine inv.pending waiter waiting found ((FiniteMap.len_eq_zero _).mpr fun pid => ?_)
  exact Finmap.lookup_eq_none.mpr fun listed => none ⟨pid,waiting,found,listed⟩

end Inv

theorem Finishes.waits_for {pid : Id} {status : ExitStatus} {tasks : List (Task Id Cmd)}
    (finishes : Finishes machine pid status tasks next) {waiter other : Id} (waits : next.WaitsFor waiter other) :
    machine.WaitsFor waiter other := by
  obtain ⟨waiting,found,listed⟩ := waits
  obtain ⟨before,old,_,erased,_⟩ := finishes.waiting found
  rw [erased] at listed
  exact ⟨before,old,(Finmap.mem_erase.mp listed).2⟩

theorem Blocked.waits_for {newPid : Id} {cmd : Cmd} {blockFor : OrderedMap Id Condition}
    (after : Blocked machine newPid cmd blockFor next) {waiter other : Id} (waits : next.WaitsFor waiter other) :
    waiter = newPid ∧ machine.residual blockFor other ≠ none ∨ waiter ≠ newPid ∧ machine.WaitsFor waiter other := by
  obtain ⟨waiting,found,listed⟩ := waits
  obtain ⟨conditions,same,shape⟩ := after.lookup waiter
  rw [shape] at found
  by_cases new : waiter = newPid
  · rw [if_pos new] at found
    obtain rfl := Option.some.inj found
    refine Or.inl ⟨new,fun none => ?_⟩
    exact Finmap.lookup_eq_none.mp ((same other).trans none) listed
  · rw [if_neg new] at found
    exact Or.inr ⟨new,waiting,found,listed⟩

/-- The new pid ranks above everything it waits for; nothing waits for it yet. -/
theorem Blocked.ranked {newPid : Id} {cmd : Cmd} {blockFor : OrderedMap Id Condition}
    (after : Blocked machine newPid cmd blockFor next) (inv : Inv machine) (fresh : ¬machine.Known newPid)
    (passed : ∀ entry ∈ blockFor.entries, machine.Passes entry) {rank : Id → Nat}
    (ranked : Ranked machine.WaitsFor rank) : ∃ rank, Ranked next.WaitsFor rank := by
  have unfinished (pid : Id) (known : machine.Unfinished pid) : pid ≠ newPid := by
    intro same
    exact fresh (Or.inr (same ▸ known))
  obtain ⟨conditions,same,_⟩ := after.waitingOn
  refine ⟨fun pid => if pid = newPid then conditions.keys.sup rank + 1 else rank pid,fun waiter other waits => ?_⟩
  rcases after.waits_for waits with ⟨new,left⟩ | ⟨old,waits⟩
  · obtain ⟨cond,listed⟩ := Option.ne_none_iff_exists'.mp left
    dsimp only
    rw [if_pos new,if_neg (unfinished other (residual_unfinished passed listed))]
    have member : other ∈ conditions.keys := Finmap.mem_keys.mpr (FiniteMap.mem_of_lookup ((same other).trans listed))
    exact Nat.lt_succ_of_le (Finset.le_sup member)
  · dsimp only
    rw [if_neg old,if_neg (unfinished other (inv.waits_for_unfinished waits))]
    exact ranked waiter other waits

theorem CallCases.ranked {call : Call Id Cmd State} {tasks : List (Task Id Cmd)}
    (cases : CallCases machine call tasks next)
    (inv : Inv machine) {rank : Id → Nat} (ranked : Ranked machine.WaitsFor rank) :
    ∃ rank, Ranked next.WaitsFor rank := by
  cases cases with
  | enqueue pid cmd blockFor tasks next fresh enqueued =>
    cases enqueued with
    | refused => exact ⟨rank,ranked⟩
    | ready => exact ⟨rank,ranked⟩
    | blocked next passed some after => exact after.ranked inv fresh passed ranked
  | start => exact ⟨rank,ranked⟩
  | startCompleted pid status tasks next toRun undisputed finishes =>
    exact ⟨rank,ranked.mono fun _ _ => finishes.waits_for⟩
  | completed pid status tasks next running undisputed finishes =>
    exact ⟨rank,ranked.mono fun _ _ => finishes.waits_for⟩

theorem reachable_ranked (reachable : system.Reachable machine) : ∃ rank, Ranked machine.WaitsFor rank := by
  refine (reachable.invariant (fun machine => Inv machine ∧ ∃ rank, Ranked machine.WaitsFor rank) ?_ ?_).2
  · intro machine start
    obtain rfl := start
    refine ⟨inv_new,fun _ => 0,fun waiter other waits => ?_⟩
    exact absurd waits.waiting Finmap.notMem_empty
  · intro machine label next kept taken
    obtain ⟨inv,rank,ranked⟩ := kept
    have cases := inv.call_cases taken
    exact ⟨cases.inv inv,cases.ranked inv ranked⟩

theorem no_deadlock (reachable : system.Reachable machine) : Progresses machine := by
  have inv := reachable_inv reachable
  obtain ⟨rank,ranked⟩ := reachable_ranked reachable
  have ends (waiter : Id) (waits : waiter ∈ machine.waitingOn) :
      Leads machine.WaitsFor machine.ReadyOrRunning waiter := by
    refine ranked.leads (fun pid => inv.waits_for_some) (fun pid other waits => ?_) waiter waits
    rcases inv.waits_for_unfinished waits with toRun | running | waiting
    · exact Or.inr (Or.inl toRun)
    · exact Or.inr (Or.inr running)
    · exact Or.inl waiting
  refine ⟨ranked.acyclic,ends,fun some => ?_⟩
  obtain ⟨waiter,waits⟩ : ∃ waiter, waiter ∈ machine.waitingOn := by
    by_contra none
    refine some (Finmap.ext_lookup fun waiter => ?_)
    rw [Finmap.lookup_empty]
    exact Finmap.lookup_eq_none.mpr fun waits => none ⟨waiter,waits⟩
  obtain ⟨pid,_,toRun | running⟩ := (ends waiter waits).reaches
  · exact Or.inl (Finset.ne_empty_of_mem toRun)
  · refine Or.inr fun empty => ?_
    rw [empty] at running
    exact Finmap.notMem_empty running

/-- A chain of three: the last waits for one that is itself waiting. -/
theorem no_deadlock_chain : ∃ machine : Machine Nat String String,
    system.Reachable machine ∧ 2 ∈ machine.waitingOn ∧ Progresses machine := by
  have reachable := replay_reachable ([.enqueue 0 "configure" ∅,.enqueue 1 "make" (AList.singleton 0 none),
    .enqueue 2 "make install" (AList.singleton 1 (some .success)),.start 0 "child"] :
    List (Call Nat String String)) rfl
  exact ⟨_,reachable,by decide,no_deadlock reachable⟩

end Nak.Machine
