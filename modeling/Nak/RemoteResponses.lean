import Nak.Frontend
import Nak.RemoteTree

/-! Whose response it is. The frontend takes the id of a response for the remote that sent
it; the two are the same for the first backend and the backends it started itself. -/
namespace Nak.Network
open Library
variable {network : Network}

/-- Every response of a process arrives under the id the process was started with, and the
frontend accepts it as the awaited greeting of that remote. -/
structure Attributed (network : Network) (process id : Nat) : Prop where
  arrives : ∀ message, ∃ last, Relayed network process ⟨0,message⟩ last
  same : ∀ message last, Relayed network process ⟨0,message⟩ last → last.remoteId = id ∧ last.message = message
  ready : ∀ info last terminal trans, ∀ endpoint : Endpoint StackedRemotes,
    Relayed network process ⟨0,.remoteReady info⟩ last → endpoint.handler.waitingForRemote = some ⟨id⟩ →
    ∃ next, Endpoint.receive (StackedRemotes.handler terminal trans) last endpoint = .ok (.ok (),next)

def Direct (network : Network) (process id : Nat) : Prop := process = 0 ∨ network.subbackend 0 id = some process

theorem remoteReady_ok {id : RemoteId} {info : RemoteInfo} {endpoint next : Endpoint StackedRemotes} :
    StackedRemotes.remoteReady id info endpoint = .ok (.ok (),next) ↔
      endpoint.handler.waitingForRemote = some id ∧ next = { endpoint with handler := { endpoint.handler with
        waitingForRemote := none
        remotes := endpoint.handler.remotes ++ [(id,info)] } } := by
  unfold StackedRemotes.remoteReady
  rw [Action.get_bind,Action.lift_bind_ok]
  constructor
  · intro given
    obtain ⟨waiting,awaited,ok⟩ := given
    obtain ⟨_,same,last⟩ := Action.lift_bind_ok.mp ok
    obtain rfl := (Outcome.assert_ok _ _).mp same
    exact ⟨(Outcome.expect_ok _ _ _).mp awaited,(Prod.mk.inj (Except.ok.inj last)).2.symm⟩
  · intro given
    obtain ⟨awaited,rfl⟩ := given
    refine ⟨id,(Outcome.expect_ok _ _ _).mpr awaited,?_⟩
    exact Action.lift_bind_ok.mpr ⟨(),Outcome.assert_true rfl,rfl⟩

namespace Tree
variable (tree : Tree network)
include tree

theorem relayed_direct {process id : Nat} (started : network.startedFor process = some id)
    (direct : Direct network process id) {message : RemoteResponse} {last : Response}
    (relayed : Relayed network process ⟨0,message⟩ last) : last.remoteId = id := by
  rcases direct with rfl | linked
  · obtain rfl := tree.relayed_root relayed
    exact Option.some.inj (tree.root.symm.trans started)
  · cases relayed with
    | arrives =>
      have smaller := (tree.linked 0 id 0 linked).1
      omega
    | @relays parent key _ _ _ linked' later =>
      have same : key = id := by
        have started' := (tree.linked parent key process linked').2.2
        exact Option.some.inj (started'.symm.trans started)
      subst key
      obtain rfl := tree.single 0 parent id process linked linked'
      rw [tree.relayed_root later]

theorem direct_of_relayed {process id : Nat} (started : network.startedFor process = some id)
    {rpc last : Response} (relayed : Relayed network process rpc last) (same : last.remoteId = id) :
    Direct network process id := by
  by_cases first : process = 0
  · exact Or.inl first
  · obtain ⟨hop,found,_⟩ := tree.relayed_hop relayed first
    rw [same] at found
    have hopStarted := (tree.linked 0 id hop found).2.2
    rw [tree.distinct process hop id started hopStarted]
    exact Or.inr found

end Tree

/-- In every tree of backends the responses of a process are attributed to its remote if
and only if it is the first backend or was started by it. -/
theorem attributed_iff {trace : List (Nat × Nat)} (run : system.Run trace network) (process id : Nat)
    (started : network.startedFor process = some id) :
    Attributed network process id ↔ Direct network process id := by
  have tree := run_tree run
  constructor
  · intro attributed
    let greeting : RemoteResponse := .remoteReady ⟨"","",""⟩
    obtain ⟨last,relayed⟩ := attributed.arrives greeting
    exact tree.direct_of_relayed started relayed (attributed.same greeting last relayed).1
  · intro direct
    constructor
    · exact fun message => tree.relayed_exists process id started ⟨0,message⟩
    · exact fun message last relayed => ⟨tree.relayed_direct started direct relayed,relayed.message⟩
    · intro info last terminal trans endpoint relayed awaited
      have same := tree.relayed_direct started direct relayed
      have message := relayed.message
      obtain ⟨remoteId,message'⟩ := last
      obtain rfl : message' = .remoteReady info := message
      obtain rfl : remoteId = id := same
      exact ⟨_,remoteReady_ok.mpr ⟨awaited,rfl⟩⟩

private def chain : List (Nat × Nat) := [(0,1),(1,2)]

private theorem chain_run : system.Run chain ((new.beginRemote 0 1).beginRemote 1 2) := by
  apply System.Run.step (System.Run.step (System.Run.initial rfl) _)
  · exact ⟨by decide,by decide,by simp [new,beginRemote],rfl⟩
  · exact ⟨by decide,by decide,by simp [new],rfl⟩

theorem attributed_child : Attributed ((new.beginRemote 0 1).beginRemote 1 2) 1 1 :=
  (attributed_iff chain_run 1 1 rfl).mpr (Or.inr rfl)

/-- The greeting of a remote that hangs under another one arrives as one of the other, and
the frontend that waits for it panics. -/
theorem nested_misattributed : system.Run chain ((new.beginRemote 0 1).beginRemote 1 2) ∧
    (∀ message, Relayed ((new.beginRemote 0 1).beginRemote 1 2) 2 ⟨0,message⟩ ⟨1,message⟩) ∧
    ∀ info, StackedRemotes.remoteReady ⟨1⟩ info
      (Endpoint.new { StackedRemotes.new with waitingForRemote := some ⟨2⟩ }) = .error .assertion := by
  refine ⟨chain_run,fun message => ?_,fun info => rfl⟩
  apply Relayed.relays (show subbackend _ 1 2 = some 2 from rfl)
  exact .relays (show subbackend _ 0 1 = some 1 from rfl) (.arrives _)

end Nak.Network
