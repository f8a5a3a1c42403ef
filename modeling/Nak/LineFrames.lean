import Nak.OneLoop

/-! What holds between the endpoint before and after a line is begun, for every relation that
looks neither at what the endpoint counts and sends nor at what a line registers. -/
namespace Nak.Shell
open Library Action

structure Frame (trans : Transport Error) (relates : Endpoint StackedRemotes → Endpoint StackedRemotes → Prop) :
    Prop where
  own : ∀ (endpoint : Endpoint StackedRemotes) ids jobs pipes sent,
    relates endpoint { endpoint with ids, jobs, pipes, sent }
  registers : ∀ (endpoint : Endpoint StackedRemotes) waitingFor waitingForEof gatheringOutput cwdForRemote stdoutPipes
    stderrPipes, relates endpoint { endpoint with handler := { endpoint.handler with
      waitingFor, waitingForEof, gatheringOutput, cwdForRemote, stdoutPipes, stderrPipes } }
  closes : ∀ {endpoint next : Endpoint StackedRemotes} {value}, 1 < endpoint.handler.remotes.length →
    endRemote trans endpoint = .ok (value,next) → relates endpoint next

namespace Frame
variable {trans : Transport Error} {relates : Endpoint StackedRemotes → Endpoint StackedRemotes → Prop}
variable [IsPreorder _ relates]

theorem send (frame : Frame trans relates) (remote : RemoteId) (message : RemoteRequest) :
    Keeps relates (Endpoint.send trans remote message) :=
  (Keeps.propagate _).bind fun _ => .modify _ fun _ => frame.own _ _ _ _ _

theorem nextId (frame : Frame trans relates) : Keeps relates (Endpoint.nextId : Shell Nat) :=
  Keeps.get.bind fun _ => (Keeps.modify _ fun _ => frame.own _ _ _ _ _).bind fun _ => .pure _

theorem pipe (frame : Frame trans relates) : Keeps relates (Endpoint.pipe : Shell (ReadPipe × WritePipe)) :=
  frame.nextId.bind fun _ => (Keeps.modify _ fun _ => frame.own _ _ _ _ _).bind fun _ => .pure _

theorem assertOpen (remote : RemoteId) : Keeps relates (Endpoint.assertOpen remote : Shell Unit) :=
  Keeps.get.bind fun _ => .lift _

theorem command (frame : Frame trans relates) (remote : RemoteId) (command : Command)
    (blockFor : OrderedMap ProcessId Condition) (pipes : WritePipes) :
    Keeps relates (Endpoint.command trans remote command blockFor pipes) :=
  (assertOpen _).bind fun _ => frame.nextId.bind fun _ => (frame.send _ _).bind fun _ =>
    (Keeps.modify _ fun _ => frame.own _ _ _ _ _).bind fun _ => .pure _

theorem openOutputFile (frame : Frame trans relates) (remote : RemoteId) (path : String) :
    Keeps relates (Endpoint.openOutputFile trans remote path) :=
  (assertOpen _).bind fun _ => frame.nextId.bind fun _ => (Keeps.modify _ fun _ => frame.own _ _ _ _ _).bind fun _ =>
    (frame.send _ _).bind fun _ => .pure _

theorem curRemote : Keeps relates curRemote := Keeps.get.bind fun _ => (Keeps.lift _).bind fun _ => .pure _

theorem runStep (frame : Frame trans relates) (stage : Stage) (step : Step) :
    Keeps relates (runStep trans stage step) := by
  cases step with
  | pipe => exact frame.pipe.bind fun _ => .pure _
  | pager => exact .panic _
  | editor => exact .panic _
  | remote ref step =>
    cases step with
    | openInputFile path => exact .panic _
    | beginRemote cmd => exact .panic _
    | run cmd process =>
      exact curRemote.bind fun _ => (Keeps.lift _).bind fun _ => (Keeps.lift _).bind fun _ =>
        (Keeps.lift _).bind fun _ => (frame.command _ _ _ _).bind fun _ => .pure _
    | close =>
      refine ⟨fun {state value final} ok => ?_⟩
      simp only [Shell.runStep,get_bind] at ok
      split at ok
      · rename_i several
        cases value with
        | error e =>
          rcases bind_raised.mp ok with raised | ⟨_,_,_,last⟩
          · exact frame.closes several raised
          · cases last
        | ok after =>
          obtain ⟨_,_,closed,last⟩ := bind_ok.mp ok
          obtain ⟨_,rfl⟩ := pure_ok.mp last
          exact frame.closes several closed
      · cases ok
        exact Std.Refl.refl _
    | openOutputFile path => exact curRemote.bind fun _ => (frame.openOutputFile _ _).bind fun _ => .pure _

theorem runSteps (frame : Frame trans relates) (steps : List Step) (stage : Stage) :
    Keeps relates (runSteps trans steps stage) := by
  induction steps generalizing stage with
  | nil => exact .pure _
  | cons step steps ih =>
    refine (frame.runStep stage step).bind fun after => ?_
    cases after with
    | none => exact .pure _
    | some after => exact ih after

theorem beginDirectory (frame : Frame trans relates) (jobs : List Job) : Keeps relates (beginDirectory trans jobs) :=
  curRemote.bind fun _ => frame.pipe.bind fun _ => frame.pipe.bind fun _ => frame.pipe.bind fun _ =>
    (frame.command _ _ _ _).bind fun _ => (frame.send _ _).bind fun _ => (frame.send _ _).bind fun _ =>
      (frame.send _ _).bind fun _ => (frame.send _ _).bind fun _ =>
        (Keeps.modify _ fun _ => frame.registers _ _ _ _ _ _ _).bind fun _ => .pure _

theorem registerSink (frame : Frame trans relates) (pipe : GenericPipe) (sink : Sink) :
    Keeps relates (registerSink pipe sink) := by
  cases sink with
  | devNull => exact .pure _
  | stdout => exact .modify _ fun _ => frame.registers _ _ _ _ _ _ _
  | stderr => exact .modify _ fun _ => frame.registers _ _ _ _ _ _ _
  | gather => exact .panic _
  | pager => exact .panic _

theorem readSinks (frame : Frame trans relates) (remote : RemoteId) (index : Nat) (sinkMap : List (Option Sink))
    (pairs : List PipePair) : Keeps relates (readSinks trans remote index sinkMap pairs) := by
  induction sinkMap generalizing index pairs with
  | nil => exact .pure _
  | cons sink sinkMap ih =>
    cases sink with
    | none => exact ih (index + 1) pairs
    | some sink =>
      exact (Keeps.lift _).bind fun _ => (frame.send _ _).bind fun _ => (frame.send _ _).bind fun _ =>
        (frame.registerSink _ _).bind fun _ => (ih _ _).bind fun _ => .pure _

theorem beginLine (frame : Frame trans relates) (plan : Plan) : Keeps relates (beginLine trans plan) := by
  refine (frame.runSteps plan.steps _).bind fun stage => ?_
  cases stage with
  | none => exact .pure _
  | some stage =>
    exact (frame.beginDirectory _).bind fun _ => curRemote.bind fun _ => (frame.readSinks _ _ _ _).bind fun _ =>
      Keeps.get.bind fun _ => (Keeps.lift _).bind fun _ =>
        (Keeps.modify _ fun _ => frame.registers _ _ _ _ _ _ _).bind fun _ => .pure _

theorem readLine {inputs : Inputs} (frame : Frame inputs.trans relates) (prompts : Keeps relates prompt) :
    Keeps relates (readLine inputs) := by
  refine prompts.bind fun _ => (Keeps.lift _).bind fun _ => (Keeps.propagate _).bind fun plan => ?_
  refine (frame.beginLine plan).bind fun line => ?_
  cases line with
  | none => exact .pure _
  | some line => exact .pure _

end Frame

theorem setWorkingDir_ids {remote : RemoteId} {result : Bytes} {remotes after : List (RemoteId × RemoteInfo)}
    (ok : setWorkingDir remote result remotes = .ok after) : after.map Prod.fst = remotes.map Prod.fst := by
  induction remotes generalizing result after with
  | nil =>
    obtain rfl := Except.ok.inj ok
    rfl
  | cons entry remotes ih =>
    obtain ⟨id,rem⟩ := entry
    have others {result : Bytes} (ok : (do
        let remotes ← setWorkingDir remote result remotes
        pure ((id,rem) :: remotes) : Outcome _) = .ok after) : after.map Prod.fst = id :: remotes.map Prod.fst := by
      obtain ⟨rest,set,last⟩ := Outcome.bind_ok.mp ok
      obtain rfl := Except.ok.inj last
      exact congrArg (id :: ·) (ih set)
    unfold setWorkingDir at ok
    split at ok
    · split at ok
      · obtain ⟨text,_,last⟩ := Outcome.bind_ok.mp ok
        obtain rfl := Except.ok.inj last
        rfl
      · exact others ok
    · exact others ok

theorem drainCwd_shape {cwds : List (Σ _ : RemoteId, GenericPipe)} {handler last : StackedRemotes}
    (ok : drainCwd cwds handler = .ok last) : ∃ finishedOutput remotes,
      last = { handler with finishedOutput, remotes } ∧ remotes.map Prod.fst = handler.remotes.map Prod.fst ∧
        ∀ pipe output, finishedOutput.lookup pipe = some output → handler.finishedOutput.lookup pipe = some output := by
  induction cwds generalizing handler with
  | nil =>
    obtain rfl := Except.ok.inj ok
    exact ⟨_,_,rfl,rfl,fun _ _ => id⟩
  | cons entry cwds ih =>
    obtain ⟨_,_,ok⟩ := Outcome.bind_ok.mp ok
    obtain ⟨remotes,set,ok⟩ := Outcome.bind_ok.mp ok
    obtain ⟨finished,after,shape,ids,spares⟩ := ih ok
    refine ⟨finished,after,shape,ids.trans (setWorkingDir_ids set),fun pipe output found => ?_⟩
    have left := spares pipe output found
    dsimp only at left
    rw [FiniteMap.lookup_erase_if] at left
    split at left
    · cases left
    · exact left

theorem prompt_shape {endpoint next : Endpoint StackedRemotes} {text : Except Error String}
    (ok : prompt endpoint = .ok (text,next)) : ∃ finishedOutput remotes,
      next = { endpoint with handler := { endpoint.handler with finishedOutput, remotes, cwdForRemote := ∅ } } ∧
        remotes.map Prod.fst = endpoint.handler.remotes.map Prod.fst ∧ ∀ pipe output,
          finishedOutput.lookup pipe = some output → endpoint.handler.finishedOutput.lookup pipe = some output := by
  unfold prompt at ok
  rw [get_bind] at ok
  obtain ⟨handler,drained,ok⟩ := lift_bind_ok.mp ok
  rw [StackedRemotes.update,modify_bind] at ok
  obtain ⟨_,_,ok⟩ := lift_bind_ok.mp ok
  obtain ⟨_,rfl⟩ := Prod.mk.inj (Except.ok.inj ok)
  obtain ⟨finished,remotes,rfl,ids,spares⟩ := drainCwd_shape drained
  exact ⟨finished,remotes,rfl,ids,spares⟩

def Spares (start next : Endpoint StackedRemotes) : Prop :=
  ∀ pipe output, next.handler.finishedOutput.lookup pipe = some output →
    start.handler.finishedOutput.lookup pipe = some output

instance : IsPreorder (Endpoint StackedRemotes) Spares where
  refl _ _ _ := id
  trans _ _ _ first second pipe output found := first pipe output (second pipe output found)

variable {trans : Transport Error} {inputs : Inputs} {endpoint next : Endpoint StackedRemotes}

theorem spares_frame : Frame trans Spares where
  own _ _ _ _ _ := fun _ _ => id
  registers _ _ _ _ _ _ _ := fun _ _ => id
  closes := by
    intro endpoint next value _ ok
    have closing : Keeps Spares (endRemote trans) :=
      Keeps.get.bind fun _ => (Keeps.lift _).bind fun _ => (Keeps.modify _ fun _ _ _ => id).bind fun _ =>
        Keeps.get.bind fun _ => (Keeps.lift _).bind fun _ => (Keeps.modify _ fun _ _ _ => id).bind fun _ =>
          (Keeps.lift _).bind fun _ => (Keeps.propagate _).bind fun _ => .modify _ fun _ _ _ => id
    exact closing.after ok

theorem readLine_spares {turn : Turn} (ok : readLine inputs endpoint = .ok (.ok turn,next)) : Spares endpoint next := by
  refine (spares_frame.readLine ⟨fun ok => ?_⟩).after ok
  obtain ⟨_,_,rfl,_,spares⟩ := prompt_shape ok
  exact spares

end Nak.Shell
