import Nak.Endpoint
import Nak.Library.Transition

/-! The backends of a session. Each backend process knows the backends it started itself,
by the id in the request that started them. Its main loop handles a request addressed to 0
and passes any other on, addressed to 0; its reader threads put the id of the child they
read from into every response. The processes form a tree, with the frontend's backend at its
root. Along a path of the tree a response is rewritten by every backend it passes, so it arrives under the id of the
first hop below the root. -/
namespace Nak
open Library

/-- A backend process. `startedFor` is the id it was started with, 0 for the first one. -/
structure BackendProcess where
  startedFor : Nat
  subbackends : FiniteMap Nat Nat

/-- The processes, in the order in which they were started; 0 is the frontend's own backend. -/
structure Network where
  processes : List BackendProcess

namespace Network

def new : Network := ⟨[⟨0,∅⟩]⟩

def subbackend (network : Network) (process id : Nat) : Option Nat :=
  (network.processes[process]?).bind fun backend => backend.subbackends.lookup id

/-- `begin_remote` of a process, once the child has been spawned and has said hello. -/
def beginRemote (network : Network) (process id : Nat) : Network where
  processes := network.processes.modify process (fun backend =>
    { backend with subbackends := backend.subbackends.insert id network.processes.length }) ++ [⟨id,∅⟩]

def endRemote (network : Network) (process id : Nat) : Outcome Network := do
  let _ ← Outcome.unwrap (network.subbackend process id)
  pure ⟨network.processes.modify process fun backend =>
    { backend with subbackends := backend.subbackends.erase id }⟩

/-- `Request::route` in a process. What does not concern the remotes goes to its executor. -/
def route (network : Network) (process : Nat) : RemoteRequest → Outcome Network
  | .beginRemote id (.unknown _ _) => pure (network.beginRemote process id)
  | .beginRemote _ _ => .error .explicit
  | .endRemote id => network.endRemote process id
  | _ => pure network

/-- The process that handles a line read by the main loop of `process`. A line is passed on
at most `fuel` times. -/
def followWith (network : Network) : Nat → Nat → Request → Outcome (Nat × RemoteRequest)
  | 0, _, _ => .error .exhausted
  | fuel + 1, process, rpc =>
    if rpc.remoteId = 0 then pure (process,rpc.message)
    else do
      let child ← Outcome.unwrap (network.subbackend process rpc.remoteId)
      followWith network fuel child ⟨0,rpc.message⟩

/-- A line that is passed on is addressed to 0, so it is passed on once. -/
def follow (network : Network) (process : Nat) (rpc : Request) : Outcome (Nat × RemoteRequest) :=
  network.followWith 2 process rpc

/-- The main loop of `run_backend`, without the fuel. -/
theorem follow_eq (network : Network) (process : Nat) (rpc : Request) :
    network.follow process rpc = (if rpc.remoteId = 0 then pure (process,rpc.message) else do
      let child ← Outcome.unwrap (network.subbackend process rpc.remoteId)
      network.follow child ⟨0,rpc.message⟩) := by
  unfold follow followWith
  rfl

def receive (network : Network) (rpc : Request) : Outcome Network := do
  let (process,message) ← network.follow 0 rpc
  network.route process message

/-- The way of a response from a process to the frontend. -/
inductive Relayed (network : Network) : Nat → Response → Response → Prop
  | arrives (rpc) : Relayed network 0 rpc rpc
  | relays {parent id child : Nat} {rpc last : Response} (started : network.subbackend parent id = some child)
      (later : Relayed network parent { rpc with remoteId := id } last) : Relayed network child rpc last

def system : System Network (Nat × Nat) where
  initial network := network = new
  step network label next := label.1 < network.processes.length ∧ label.2 ≠ 0 ∧
    (∀ backend ∈ network.processes, backend.startedFor ≠ label.2) ∧ next = network.beginRemote label.1 label.2

variable {network next : Network}

def startedFor (network : Network) (process : Nat) : Option Nat :=
  (network.processes[process]?).map BackendProcess.startedFor

structure Tree (network : Network) : Prop where
  root : network.startedFor 0 = some 0
  linked : ∀ parent id child, network.subbackend parent id = some child →
    parent < child ∧ id ≠ 0 ∧ network.startedFor child = some id
  parented : ∀ child id, network.startedFor child = some id → child ≠ 0 →
    ∃ parent, network.subbackend parent id = some child
  single : ∀ parent other id child, network.subbackend parent id = some child →
    network.subbackend other id = some child → parent = other
  distinct : ∀ process other id, network.startedFor process = some id → network.startedFor other = some id →
    process = other

theorem subbackend_absent {process : Nat} (outside : network.processes.length ≤ process) (id : Nat) :
    network.subbackend process id = none := by
  rw [subbackend,List.getElem?_eq_none outside,Option.bind_none]

theorem length_begin (network : Network) (process id : Nat) :
    (network.beginRemote process id).processes.length = network.processes.length + 1 := by
  simp [beginRemote]

theorem subbackend_begin (network : Network) (process id : Nat) (inside : process < network.processes.length)
    (other key : Nat) : (network.beginRemote process id).subbackend other key =
      if other = process ∧ key = id then some network.processes.length else network.subbackend other key := by
  rcases Nat.lt_trichotomy other network.processes.length with before | rfl | after
  · have left : other < (network.processes.modify process fun backend => { backend with
        subbackends := backend.subbackends.insert id network.processes.length }).length := by simpa using before
    rw [subbackend,beginRemote,List.getElem?_append_left left,List.getElem?_modify,subbackend]
    by_cases same : other = process
    · subst other
      rw [List.getElem?_eq_getElem before]
      simp [FiniteMap.lookup_insert_if]
    · have different : process ≠ other := fun equal => same equal.symm
      simp [same,different]
  · have absent : ¬(network.processes.length = process ∧ key = id) := by omega
    rw [if_neg absent,subbackend_absent le_rfl,subbackend,beginRemote]
    simp
  · have absent : ¬(other = process ∧ key = id) := by omega
    have size := length_begin network process id
    rw [if_neg absent,subbackend_absent (by omega),subbackend_absent (by omega)]

theorem startedFor_begin (network : Network) (process id other : Nat) :
    (network.beginRemote process id).startedFor other =
      if other = network.processes.length then some id else network.startedFor other := by
  rcases Nat.lt_trichotomy other network.processes.length with before | rfl | after
  · have left : other < (network.processes.modify process fun backend => { backend with
        subbackends := backend.subbackends.insert id network.processes.length }).length := by simpa using before
    rw [startedFor,beginRemote,List.getElem?_append_left left,List.getElem?_modify,startedFor,if_neg (by omega)]
    rw [List.getElem?_eq_getElem before]
    by_cases same : process = other <;> simp [same]
  · simp [startedFor,beginRemote]
  · have size := length_begin network process id
    rw [if_neg (by omega),startedFor,startedFor,List.getElem?_eq_none (by omega),List.getElem?_eq_none (by omega)]

theorem startedFor_inside {process id : Nat} (started : network.startedFor process = some id) :
    process < network.processes.length := by
  obtain ⟨backend,found,_⟩ := Option.map_eq_some_iff.mp started
  exact (List.getElem?_eq_some_iff.mp found).1

theorem tree_new : Tree new := by
  have nothing (parent id : Nat) : new.subbackend parent id = none := by
    rcases parent with _ | parent <;> rfl
  constructor
  · rfl
  · intro parent id child linked
    rw [nothing] at linked
    cases linked
  · intro child id started inner
    have inside := startedFor_inside started
    simp only [new,List.length_singleton] at inside
    omega
  · intro parent other id child linked
    rw [nothing] at linked
    cases linked
  · intro process other id started started'
    have inside := startedFor_inside started
    have inside' := startedFor_inside started'
    simp only [new,List.length_singleton] at inside inside'
    omega

theorem Tree.begin (tree : Tree network) {process id : Nat} (inside : process < network.processes.length)
    (nonzero : id ≠ 0) (fresh : ∀ other, network.startedFor other ≠ some id) :
    Tree (network.beginRemote process id) := by
  have unlinked (parent : Nat) (child : Nat) : network.subbackend parent id ≠ some child :=
    fun linked => fresh child (tree.linked parent id child linked).2.2
  have older {parent key child : Nat} (linked : network.subbackend parent key = some child) :
      child < network.processes.length := startedFor_inside (tree.linked parent key child linked).2.2
  constructor
  · have first : 0 ≠ network.processes.length := by omega
    rw [startedFor_begin,if_neg first]
    exact tree.root
  · intro parent key child linked
    rw [subbackend_begin network process id inside] at linked
    rw [startedFor_begin]
    split at linked
    · rename_i here
      obtain rfl := Option.some.inj linked
      exact ⟨by omega,by rw [here.2]; exact nonzero,by rw [if_pos rfl,here.2]⟩
    · obtain ⟨smaller,some,started⟩ := tree.linked parent key child linked
      have old := older linked
      exact ⟨smaller,some,by rw [if_neg (by omega)]; exact started⟩
  · intro child key started inner
    rw [startedFor_begin] at started
    split at started
    · rename_i last
      obtain rfl := Option.some.inj started
      exact ⟨process,by rw [subbackend_begin network process id inside,if_pos ⟨rfl,rfl⟩,last]⟩
    · obtain ⟨parent,linked⟩ := tree.parented child key started inner
      refine ⟨parent,?_⟩
      rw [subbackend_begin network process id inside,if_neg]
      · exact linked
      · intro given
        obtain ⟨rfl,rfl⟩ := given
        exact unlinked _ _ linked
  · intro parent other key child linked linked'
    rw [subbackend_begin network process id inside] at linked linked'
    split at linked
    · rename_i here
      split at linked'
      · rename_i here'
        omega
      · obtain rfl := Option.some.inj linked
        have old := older linked'
        omega
    · split at linked'
      · obtain rfl := Option.some.inj linked'
        have old := older linked
        omega
      · exact tree.single parent other key child linked linked'
  · intro one other key started started'
    rw [startedFor_begin] at started started'
    split at started
    · split at started'
      · omega
      · obtain rfl := Option.some.inj started
        exact absurd started' (fresh other)
    · split at started'
      · obtain rfl := Option.some.inj started'
        exact absurd started (fresh one)
      · exact tree.distinct one other key started started'

theorem run_tree {trace : List (Nat × Nat)} (run : system.Run trace network) : Tree network := by
  refine run.invariant (fun _ network => Tree network) ?_ ?_
  · intro _ same
    obtain rfl := same
    exact tree_new
  · intro trace network label next _ tree taken
    obtain ⟨inside,nonzero,fresh,rfl⟩ := taken
    refine tree.begin inside nonzero fun other started => ?_
    obtain ⟨backend,found,same⟩ := Option.map_eq_some_iff.mp started
    exact fresh backend (List.mem_of_getElem? found) same

theorem Relayed.message {process : Nat} {rpc last : Response} (relayed : Relayed network process rpc last) :
    last.message = rpc.message := by
  induction relayed with
  | arrives rpc => rfl
  | relays started later ih => exact ih

namespace Tree
variable (tree : Tree network)
include tree

theorem relayed_root {rpc last : Response} (relayed : Relayed network 0 rpc last) : last = rpc := by
  cases relayed with
  | arrives => rfl
  | relays started later =>
    have smaller := (tree.linked _ _ _ started).1
    omega

theorem relayed_exists (process id : Nat) (started : network.startedFor process = some id) (rpc : Response) :
    ∃ last, Relayed network process rpc last := by
  induction process using Nat.strongRecOn generalizing id rpc with
  | ind process ih =>
    by_cases first : process = 0
    · exact ⟨rpc,first ▸ .arrives rpc⟩
    · obtain ⟨parent,linked⟩ := tree.parented process id started first
      have smaller := (tree.linked parent id process linked).1
      have inside : parent < network.processes.length := by
        by_contra outside
        rw [subbackend_absent (by omega)] at linked
        cases linked
      obtain ⟨last,later⟩ := ih parent smaller _
        (by rw [startedFor,List.getElem?_eq_getElem inside]; rfl) { rpc with remoteId := id }
      exact ⟨last,.relays linked later⟩

/-- The id under which a response arrives is that of the first hop below the root. -/
theorem relayed_hop {process : Nat} {rpc last : Response} (relayed : Relayed network process rpc last)
    (inner : process ≠ 0) : ∃ hop, network.subbackend 0 last.remoteId = some hop ∧ hop ≤ process := by
  induction relayed with
  | arrives => exact absurd rfl inner
  | @relays parent id child rpc last linked later ih =>
    have smaller := (tree.linked parent id child linked).1
    by_cases first : parent = 0
    · subst parent
      obtain rfl := tree.relayed_root later
      exact ⟨child,linked,le_rfl⟩
    · obtain ⟨hop,found,below⟩ := ih first
      exact ⟨hop,found,by omega⟩

end Tree
end Network
end Nak
