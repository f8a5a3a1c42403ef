import Nak.Protocol
import Nak.Library.Outcome
import Nak.Library.Transition

/-! The process machine of the backend: which commands wait, may run, run and
have finished. An `OrderedMap` is a hash map with one iteration order. -/
namespace Nak
open Library

structure Waiting (Id Cmd : Type) where
  cmd : Cmd
  conditions : FiniteMap Id Condition

@[ext]
structure Machine (Id Cmd State : Type) where
  finished : FiniteMap Id ExitStatus
  toRun : Finset Id
  running : FiniteMap Id State
  checkOnCompleted : FiniteMap Id (List (Condition × Id))
  waitingOn : FiniteMap Id (Waiting Id Cmd)

inductive Task (Id Cmd : Type) where
  | start (pid : Id) (cmd : Cmd)
  | conditionFailed (pid : Id) (cmd : Cmd)
  deriving DecidableEq

inductive Status (State : Type) where
  | running (state : State)
  | exited (status : ExitStatus)

namespace Machine
variable {Id Cmd State : Type} [DecidableEq Id]

def new : Machine Id Cmd State := ⟨∅,∅,∅,∅,∅⟩

def status (machine : Machine Id Cmd State) (pid : Id) : Outcome (Status State) :=
  match machine.running.lookup pid with
  | some state => .ok (.running state)
  | none =>
    match machine.finished.lookup pid with
    | some exit => .ok (.exited exit)
    | none => .error .explicit

/-- The loop of `enqueue` over `block_for`; `none` is its early return. -/
def stillNeedsToBlockFor (machine : Machine Id Cmd State) :
    List (Σ _ : Id, Condition) → OrderedMap Id Condition → Outcome (Option (OrderedMap Id Condition))
  | [], still => .ok (some still)
  | ⟨existingPid,cond⟩ :: blockFor, still =>
    match machine.finished.lookup existingPid with
    | some status =>
      if Contradicted cond status then .ok none else machine.stillNeedsToBlockFor blockFor still
    | none => do
      Outcome.assert (existingPid ∈ machine.toRun ∨ existingPid ∈ machine.running ∨
        existingPid ∈ machine.waitingOn)
      machine.stillNeedsToBlockFor blockFor (still.insert existingPid cond)

/-- One `entry(existing_pid).or_insert_with(Vec::new).push((cond, new_pid))`. -/
def pushWaiter (newPid : Id) (check : FiniteMap Id (List (Condition × Id))) (entry : Σ _ : Id, Condition) :
    FiniteMap Id (List (Condition × Id)) :=
  check.insert entry.1 ((check.lookup entry.1).getD [] ++ [(entry.2,newPid)])

def enqueue (machine : Machine Id Cmd State) (newPid : Id) (cmd : Cmd) (blockFor : OrderedMap Id Condition) :
    Outcome (List (Task Id Cmd) × Machine Id Cmd State) := do
  Outcome.assert (newPid ∉ machine.finished ∧ newPid ∉ machine.toRun ∧ newPid ∉ machine.running ∧
    newPid ∉ machine.waitingOn)
  match ← machine.stillNeedsToBlockFor blockFor.entries ∅ with
  | none => pure ([.conditionFailed newPid cmd],machine)
  | some still =>
    if still.entries.length = 0 then
      pure ([.start newPid cmd],{ machine with toRun := insert newPid machine.toRun })
    else
      -- The order in which the entries are pushed is that of another hash map; no two
      -- of them touch the same list.
      pure ([],{ machine with
        checkOnCompleted := still.entries.foldl (pushWaiter newPid) machine.checkOnCompleted
        waitingOn := machine.waitingOn.insert newPid ⟨cmd,still.toFinmap⟩ })

def start (machine : Machine Id Cmd State) (pid : Id) (state : State) : Outcome (Machine Id Cmd State) := do
  Outcome.assert (pid ∈ machine.toRun)
  pure { machine with
    toRun := machine.toRun.erase pid
    running := machine.running.insert pid state }

section Resolve
variable (completed : Machine Id Cmd State → Id → ExitStatus →
  Outcome (List (Task Id Cmd) × Machine Id Cmd State))

/-- The body of the loop of `resolve_tasks`, for one entry `(cond, waiting_pid)`. -/
def resolveWaiter (pid : Id) (status : ExitStatus) (machine : Machine Id Cmd State) (cond : Condition)
    (waitingPid : Id) : Outcome (List (Task Id Cmd) × Machine Id Cmd State) := do
  let waiting ← Outcome.expect "must be waiting" (machine.waitingOn.lookup waitingPid)
  let machine := { machine with waitingOn := machine.waitingOn.erase waitingPid }
  if Contradicted cond status then
    let machine := { machine with finished := machine.finished.insert waitingPid .failure }
    let (tasks,machine) ← completed machine waitingPid .failure
    pure (.conditionFailed waitingPid waiting.cmd :: tasks,machine)
  else
    let c2 ← Outcome.expect "was waiting" (waiting.conditions.lookup pid)
    let conditions := waiting.conditions.erase pid
    Outcome.assert (c2 = cond)
    if FiniteMap.len conditions = 0 then
      pure ([.start waitingPid waiting.cmd],{ machine with toRun := insert waitingPid machine.toRun })
    else
      pure ([],{ machine with waitingOn := machine.waitingOn.insert waitingPid ⟨waiting.cmd,conditions⟩ })

def resolveBlocked (pid : Id) (status : ExitStatus) : List (Condition × Id) → Machine Id Cmd State →
    Outcome (List (Task Id Cmd) × Machine Id Cmd State)
  | [], machine => pure ([],machine)
  | (cond,waitingPid) :: blocked, machine => do
    let (tasks,machine) ← resolveWaiter completed pid status machine cond waitingPid
    let (more,machine) ← resolveBlocked pid status blocked machine
    pure (tasks ++ more,machine)

def resolveTasksWith (machine : Machine Id Cmd State) (pid : Id) (status : ExitStatus) :
    Outcome (List (Task Id Cmd) × Machine Id Cmd State) :=
  match machine.checkOnCompleted.lookup pid with
  | some blocked =>
    resolveBlocked completed pid status blocked
      { machine with checkOnCompleted := machine.checkOnCompleted.erase pid }
  | none => pure ([],machine)

end Resolve

/-- `completed`, its calls through `resolve_tasks` nested at most `fuel` deep. -/
def completedWith : Nat → Machine Id Cmd State → Id → ExitStatus →
    Outcome (List (Task Id Cmd) × Machine Id Cmd State)
  | 0, _, _, _ => .error .exhausted
  | fuel + 1, machine, pid, status => do
    Outcome.assert (pid ∈ machine.running)
    resolveTasksWith (completedWith fuel)
      { machine with
        running := machine.running.erase pid
        finished := machine.finished.insert pid status } pid status

/-- Every nested call removes a running pid, so their number bounds the depth. -/
def completed (machine : Machine Id Cmd State) (pid : Id) (status : ExitStatus) :
    Outcome (List (Task Id Cmd) × Machine Id Cmd State) :=
  completedWith (FiniteMap.len machine.running + 1) machine pid status

def resolveTasks (machine : Machine Id Cmd State) (pid : Id) (status : ExitStatus) :
    Outcome (List (Task Id Cmd) × Machine Id Cmd State) :=
  resolveTasksWith (completedWith (FiniteMap.len machine.running + 1)) machine pid status

def startCompleted (machine : Machine Id Cmd State) (pid : Id) (status : ExitStatus) :
    Outcome (List (Task Id Cmd) × Machine Id Cmd State) := do
  Outcome.assert (pid ∈ machine.toRun)
  resolveTasks { machine with
    toRun := machine.toRun.erase pid
    finished := machine.finished.insert pid status } pid status

end Machine

inductive Call (Id Cmd State : Type) where
  | enqueue (pid : Id) (cmd : Cmd) (blockFor : OrderedMap Id Condition)
  | start (pid : Id) (state : State)
  | startCompleted (pid : Id) (status : ExitStatus)
  | completed (pid : Id) (status : ExitStatus)

namespace Machine
variable {Id Cmd State : Type} [DecidableEq Id]

def call (machine : Machine Id Cmd State) :
    Call Id Cmd State → Outcome (List (Task Id Cmd) × Machine Id Cmd State)
  | .enqueue pid cmd blockFor => machine.enqueue pid cmd blockFor
  | .start pid state => do pure ([],← machine.start pid state)
  | .startCompleted pid status => machine.startCompleted pid status
  | .completed pid status => machine.completed pid status

def system : System (Machine Id Cmd State) (Call Id Cmd State × List (Task Id Cmd)) :=
  .ofFunction new call

end Machine
end Nak
