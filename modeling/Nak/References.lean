import Nak.EndpointFrames
import Nak.Library.Transition

/-! Which remotes and jobs the endpoint refers to. Remotes form a tree under the root and
every job hangs on one of them, but closing a remote repairs neither its children nor its
jobs, and a finished process stays a job. -/
namespace Nak
open Library Action Frames

/-- The operations of the endpoint, the receipt of a response, and what the loop of the
shell does to the handler by itself. -/
inductive Operation where
  | remote (remote : RemoteId) (command : Command)
  | pipe
  | command (remote : RemoteId) (command : Command) (blockFor : OrderedMap ProcessId Condition) (pipes : WritePipes)
  | openOutputFile (remote : RemoteId) (path : String)
  | openInputFile (remote : RemoteId) (path : String)
  | closeRemote (remote : RemoteId)
  | closeProcess (id : ProcessId)
  | finishEdit (commandId : ProcessId) (editId : Nat) (data : Bytes)
  | pipeRead (remote : RemoteId) (id : ReadPipe) (readUpTo : Nat)
  | pipeBeginRead (remote : RemoteId) (id : ReadPipe)
  | receive (terminal : Terminal) (message : Response)
  | update (change : StackedRemotes → StackedRemotes)

inductive Answer where
  | done
  | remote (id : RemoteId)
  | pipe (ends : ReadPipe × WritePipe)
  | process (id : ProcessId)
  | output (pipe : WritePipe)
  | input (pipe : ReadPipe)

abbrev Performed : Type := Operation × Except Error Answer

namespace References

def trans : Transport Error := fun _ => .ok ()

def perform : Operation → Shell Answer
  | .remote remote command => do pure (.remote (← Endpoint.remote trans remote command))
  | .pipe => do pure (.pipe (← Endpoint.pipe))
  | .command remote command blockFor pipes => do
    pure (.process (← Endpoint.command trans remote command blockFor pipes))
  | .openOutputFile remote path => do pure (.output (← Endpoint.openOutputFile trans remote path))
  | .openInputFile remote path => do pure (.input (← Endpoint.openInputFile trans remote path))
  | .closeRemote remote => do
    Endpoint.closeRemote trans remote
    pure .done
  | .closeProcess id => do
    Endpoint.closeProcess trans id
    pure .done
  | .finishEdit commandId editId data => do
    Endpoint.finishEdit trans commandId editId data
    pure .done
  | .pipeRead remote id readUpTo => do
    Endpoint.pipeRead trans remote id readUpTo
    pure .done
  | .pipeBeginRead remote id => do
    Endpoint.pipeBeginRead trans remote id
    pure .done
  | .receive terminal message => do
    Endpoint.receive (StackedRemotes.handler terminal trans) message
    pure .done
  | .update change => do
    StackedRemotes.update change
    pure .done

def system : System (Endpoint StackedRemotes) Performed :=
  .ofFunction (Endpoint.new StackedRemotes.new) fun endpoint operation => perform operation endpoint

def Begins (performed : Performed) (pid : ProcessId) : Prop := performed.2 = .ok (.process pid)

def Ends (performed : Performed) (pid : ProcessId) : Prop :=
  performed.1 = .closeProcess pid ∨
    ∃ terminal remoteId exitCode, performed.1 = .receive terminal ⟨remoteId,.commandDone pid exitCode⟩

/-- The process was begun, and has been neither cancelled nor reported since. -/
def Outstanding (trace : List Performed) (pid : ProcessId) : Prop :=
  ∃ before performed after, trace = before ++ performed :: after ∧ Begins performed pid ∧
    ∀ later ∈ after, ¬Ends later pid

/-- The collections of the endpoint refer to what is open and outstanding, and so do the
requests to close, to cancel and to finish an edit. -/
structure Referential (trace : List Performed) (endpoint : Endpoint StackedRemotes) : Prop where
  root : Endpoint.root ∈ endpoint.remotes
  parents : ∀ id state, endpoint.remotes.lookup id = some state → id ≠ Endpoint.root →
    ∃ parent, state.parent = some parent ∧ parent ∈ endpoint.remotes
  jobs : ∀ pid parent, endpoint.jobs.lookup pid = some parent →
    Outstanding trace pid ∧ parent ∈ endpoint.remotes
  closeRemote : ∀ remote result next, Endpoint.closeRemote trans remote endpoint = .ok (result,next) →
    ∃ parent ∈ endpoint.remotes, next.sent = endpoint.sent ++ [⟨parent.val,.endRemote remote.val⟩]
  closeProcess : ∀ pid, Endpoint.closeProcess trans pid endpoint ≠ .error .assertion
  finishEdit : ∀ pid editId data, Endpoint.finishEdit trans pid editId data endpoint ≠ .error .assertion

/-- Only remotes without children and jobs are closed, and only processes that are no longer
jobs are reported. -/
def Tidy (endpoint : Endpoint StackedRemotes) (performed : Performed) : Prop :=
  match performed.1 with
  | .closeRemote remote =>
    (∀ id ∈ endpoint.remotes.keys, id ≠ remote → endpoint.remotes.lookup id ≠ some ⟨some remote⟩) ∧
      ∀ pid ∈ endpoint.jobs.keys, endpoint.jobs.lookup pid ≠ some remote
  | .receive _ ⟨_,.commandDone id _⟩ => id ∉ endpoint.jobs
  | _ => True

variable {endpoint next : Endpoint StackedRemotes}

inductive Refers (endpoint : Endpoint StackedRemotes) : Performed → Endpoint StackedRemotes → Prop
  | remote (parent command id next) (opened : parent ∈ endpoint.remotes) (fresh : endpoint.remotes.lookup id = none)
      (remotes : next.remotes = endpoint.remotes.insert id ⟨some parent⟩) (jobs : next.jobs = endpoint.jobs) :
      Refers endpoint (.remote parent command,.ok (.remote id)) next
  | command (remote command blockFor pipes pid next) (opened : remote ∈ endpoint.remotes)
      (remotes : next.remotes = endpoint.remotes) (jobs : next.jobs = endpoint.jobs.insert pid remote) :
      Refers endpoint (.command remote command blockFor pipes,.ok (.process pid)) next
  | closeRemote (remote parent next) (opened : endpoint.remotes.lookup remote = some ⟨some parent⟩)
      (remotes : next.remotes = endpoint.remotes.erase remote) (jobs : next.jobs = endpoint.jobs) :
      Refers endpoint (.closeRemote remote,.ok .done) next
  | closeProcess (pid next) (remotes : next.remotes = endpoint.remotes) (jobs : next.jobs = endpoint.jobs.erase pid) :
      Refers endpoint (.closeProcess pid,.ok .done) next
  | receive (terminal message result next) (same : Same endpoint next)
      (begins : ∀ pid, ¬Begins (.receive terminal message,result) pid) :
      Refers endpoint (.receive terminal message,result) next
  | other (operation result next) (same : Same endpoint next)
      (keeps : ∀ pid, ¬Begins (operation,result) pid ∧ ¬Ends (operation,result) pid)
      (tidy : Tidy endpoint (operation,result)) : Refers endpoint (operation,result) next

theorem send_errorless (remote : RemoteId) (message : RemoteRequest) :
    Errorless (Endpoint.send trans remote message : Shell Unit) :=
  (Errorless.propagate ()).bind fun _ => .modify _

theorem nextId_errorless : Errorless (Endpoint.nextId : Shell Nat) :=
  Errorless.get.bind fun _ => (Errorless.modify _).bind fun _ => .pure _

theorem assertOpen_errorless (remote : RemoteId) : Errorless (Endpoint.assertOpen remote : Shell Unit) :=
  Errorless.get.bind fun _ => .lift _

theorem closeRemote_errorless (remote : RemoteId) : Errorless (Endpoint.closeRemote trans remote : Shell Unit) :=
  Errorless.get.bind fun _ => (Errorless.lift _).bind fun _ => (Errorless.modify _).bind fun _ =>
    (Errorless.lift _).bind fun _ => send_errorless _ _

theorem perform_errorless (operation : Operation) (sends : ∀ terminal message, operation ≠ .receive terminal message) :
    Errorless (perform operation) := by
  have drawn {α : Type} {act : Nat → Shell α} (remote : RemoteId) (rest : ∀ id, Errorless (act id)) :
      Errorless (do Endpoint.assertOpen remote; let id ← Endpoint.nextId; act id) :=
    (assertOpen_errorless remote).bind fun _ => nextId_errorless.bind rest
  cases operation with
  | remote remote command =>
    refine (drawn remote fun id => ?_).bind fun _ => .pure _
    exact (send_errorless _ _).bind fun _ => Errorless.get.bind fun _ => (Errorless.modify _).bind fun _ =>
      (Errorless.lift _).bind fun _ => .pure _
  | pipe => exact (nextId_errorless.bind fun _ => (Errorless.modify _).bind fun _ => .pure _).bind fun _ => .pure _
  | command remote command blockFor pipes =>
    refine (drawn remote fun id => ?_).bind fun _ => .pure _
    exact (send_errorless _ _).bind fun _ => (Errorless.modify _).bind fun _ => .pure _
  | openOutputFile remote path =>
    refine (drawn remote fun id => ?_).bind fun _ => .pure _
    exact (Errorless.modify _).bind fun _ => (send_errorless _ _).bind fun _ => .pure _
  | openInputFile remote path =>
    refine (drawn remote fun id => ?_).bind fun _ => .pure _
    exact (Errorless.modify _).bind fun _ => (send_errorless _ _).bind fun _ => .pure _
  | closeRemote remote => exact (closeRemote_errorless remote).bind fun _ => .pure _
  | closeProcess id =>
    exact (Errorless.get.bind fun _ => (Errorless.lift _).bind fun _ => (Errorless.modify _).bind fun _ =>
      (assertOpen_errorless _).bind fun _ => send_errorless _ _).bind fun _ => .pure _
  | finishEdit commandId editId data =>
    exact (Errorless.get.bind fun _ => (Errorless.lift _).bind fun _ =>
      (assertOpen_errorless _).bind fun _ => send_errorless _ _).bind fun _ => .pure _
  | pipeRead remote id readUpTo => exact (send_errorless _ _).bind fun _ => .pure _
  | pipeBeginRead remote id => exact (send_errorless _ _).bind fun _ => .pure _
  | receive terminal message => exact absurd rfl (sends terminal message)
  | update change => exact (Errorless.modify _).bind fun _ => .pure _

theorem perform_refers {operation : Operation} {result : Except Error Answer}
    (ok : perform operation endpoint = .ok (result,next)) : Refers endpoint (operation,result) next := by
  have other {α : Type} {act : Shell α} {answer : α → Answer} {value : Answer} (keeps : Keeps Same act)
      (ok : (do pure (answer (← act)) : Shell Answer) endpoint = .ok (.ok value,next)) :
      Same endpoint next ∧ ∃ done, value = answer done := by
    obtain ⟨done,_,acted,last⟩ := bind_ok.mp ok
    obtain ⟨rfl,rfl⟩ := pure_ok.mp last
    exact ⟨keeps.after acted,done,rfl⟩
  by_cases handles : ∃ terminal message, operation = .receive terminal message
  · obtain ⟨terminal,message,rfl⟩ := handles
    refine .receive terminal message result next
      (((same_spared.receive terminal message).bind fun _ => .pure _).after ok) ?_
    intro pid begins
    obtain rfl : result = .ok (.process pid) := begins
    obtain ⟨_,_,_,last⟩ := bind_ok.mp ok
    cases last
  · have errorless := perform_errorless operation fun terminal message same => handles ⟨terminal,message,same⟩
    cases result with
    | error error => exact absurd ok errorless.never
    | ok value =>
      cases operation with
      | remote remote command =>
        obtain ⟨id,_,acted,last⟩ := bind_ok.mp ok
        obtain ⟨rfl,rfl⟩ := pure_ok.mp last
        obtain ⟨opened,fresh,drawn,rfl⟩ := Endpoint.remote_ok acted
        obtain rfl := Except.ok.inj drawn
        exact .remote remote command _ _ opened fresh rfl rfl
      | command remote command blockFor pipes =>
        obtain ⟨pid,_,acted,last⟩ := bind_ok.mp ok
        obtain ⟨rfl,rfl⟩ := pure_ok.mp last
        obtain ⟨opened,rfl,rfl⟩ := Endpoint.command_ok acted
        exact .command remote command blockFor pipes _ _ opened rfl rfl
      | closeRemote remote =>
        obtain ⟨_,_,acted,last⟩ := bind_ok.mp ok
        obtain ⟨rfl,rfl⟩ := pure_ok.mp last
        obtain ⟨parent,opened,rfl⟩ := Endpoint.closeRemote_ok acted
        exact .closeRemote remote parent _ opened rfl rfl
      | closeProcess id =>
        obtain ⟨_,_,acted,last⟩ := bind_ok.mp ok
        obtain ⟨rfl,rfl⟩ := pure_ok.mp last
        obtain ⟨parent,_,_,rfl⟩ := Endpoint.closeProcess_ok acted
        exact .closeProcess id _ rfl rfl
      | receive terminal message => exact absurd ⟨terminal,message,rfl⟩ handles
      | pipe =>
        obtain ⟨same,_,rfl⟩ := other newPipe_same ok
        exact .other _ _ _ same (by simp [Begins,Ends]) trivial
      | openOutputFile remote path =>
        obtain ⟨same,_,rfl⟩ := other (openOutputFile_same _ _) ok
        exact .other _ _ _ same (by simp [Begins,Ends]) trivial
      | openInputFile remote path =>
        obtain ⟨same,_,rfl⟩ := other (openInputFile_same _ _) ok
        exact .other _ _ _ same (by simp [Begins,Ends]) trivial
      | finishEdit commandId editId data =>
        obtain ⟨same,_,rfl⟩ := @other Unit _ (fun _ => .done) _ (same_spared.finishEdit _ _ _) ok
        exact .other _ _ _ same (by simp [Begins,Ends]) trivial
      | pipeRead remote id readUpTo =>
        obtain ⟨same,_,rfl⟩ := @other Unit _ (fun _ => .done) _ (same_spared.send _ _) ok
        exact .other _ _ _ same (by simp [Begins,Ends]) trivial
      | pipeBeginRead remote id =>
        obtain ⟨same,_,rfl⟩ := @other Unit _ (fun _ => .done) _ (same_spared.send _ _) ok
        exact .other _ _ _ same (by simp [Begins,Ends]) trivial
      | update change =>
        obtain ⟨same,_,rfl⟩ := @other Unit _ (fun _ => .done) _ (same_spared.update _) ok
        exact .other _ _ _ same (by simp [Begins,Ends]) trivial

section Outstanding
variable {trace : List Performed} {performed : Performed} {pid : ProcessId}

theorem outstanding_begun (begins : Begins performed pid) : Outstanding (trace ++ [performed]) pid :=
  ⟨trace,performed,[],rfl,begins,by simp⟩

theorem outstanding_later (outstanding : Outstanding trace pid) (going : ¬Ends performed pid) :
    Outstanding (trace ++ [performed]) pid := by
  obtain ⟨before,first,after,rfl,begins,all⟩ := outstanding
  refine ⟨before,first,after ++ [performed],by simp,begins,fun later member => ?_⟩
  rcases List.mem_append.mp member with old | new
  · exact all later old
  · exact List.mem_singleton.mp new ▸ going

theorem not_outstanding (ends : Ends performed pid) (begins : ¬Begins performed pid) :
    ¬Outstanding (trace ++ [performed]) pid := by
  intro given
  obtain ⟨before,first,after,shape,begun,all⟩ := given
  rcases List.eq_nil_or_concat after with rfl | ⟨init,last,rfl⟩
  · obtain ⟨_,same⟩ := List.append_inj' shape rfl
    obtain rfl : performed = first := by simpa using same
    exact begins begun
  · rw [List.concat_eq_append,← List.cons_append,← List.append_assoc] at shape
    obtain ⟨_,same⟩ := List.append_inj' shape rfl
    obtain rfl : performed = last := by simpa using same
    exact all performed (by simp) ends

end Outstanding

theorem run_root {trace : List Performed} (run : system.Run trace endpoint) :
    endpoint.remotes.lookup Endpoint.root = some ⟨none⟩ := by
  induction run with
  | initial start =>
    obtain rfl := start
    exact Finmap.lookup_singleton_eq
  | step before taken ih =>
    rename_i label next
    obtain ⟨operation,result⟩ := label
    cases perform_refers taken with
    | remote parent command id next opened fresh remotes jobs =>
      rw [remotes,FiniteMap.lookup_insert_if,if_neg,ih]
      intro same
      rw [← same,ih] at fresh
      cases fresh
    | command remote command blockFor pipes pid next opened remotes jobs => rw [remotes,ih]
    | closeRemote remote parent next opened remotes jobs =>
      rw [remotes,FiniteMap.lookup_erase_if,if_neg,ih]
      intro same
      rw [← same,ih] at opened
      cases opened
    | closeProcess pid next remotes jobs => rw [remotes,ih]
    | receive terminal message result next same begins => rw [same.1,ih]
    | other operation result next same keeps tidy => rw [same.1,ih]

def ParentsOpen (endpoint : Endpoint StackedRemotes) : Prop :=
  ∀ id state, endpoint.remotes.lookup id = some state → id ≠ Endpoint.root →
    ∃ parent, state.parent = some parent ∧ parent ∈ endpoint.remotes

def JobsOpen (trace : List Performed) (endpoint : Endpoint StackedRemotes) : Prop :=
  ∀ pid parent, endpoint.jobs.lookup pid = some parent → Outstanding trace pid ∧ parent ∈ endpoint.remotes

theorem closeProcess_passes {pid : ProcessId}
    (opened : ∀ parent, endpoint.jobs.lookup pid = some parent → parent ∈ endpoint.remotes) :
    Endpoint.closeProcess trans pid endpoint ≠ .error .assertion := by
  unfold Endpoint.closeProcess
  rw [get_bind]
  cases found : endpoint.jobs.lookup pid with
  | none => nofun
  | some parent =>
    have job : (lift (Outcome.expect "process not running" (some parent)) : Shell RemoteId) endpoint =
        .ok (.ok parent,endpoint) := rfl
    have passes : (Endpoint.assertOpen parent : Shell Unit) { endpoint with jobs := endpoint.jobs.erase pid } =
        .ok (.ok (),_) := Endpoint.assertOpen_passes (opened parent found)
    rw [ok_bind job,modify_bind,ok_bind passes]
    nofun

theorem finishEdit_passes {pid : ProcessId} {editId : Nat} {data : Bytes}
    (opened : ∀ parent, endpoint.jobs.lookup pid = some parent → parent ∈ endpoint.remotes) :
    Endpoint.finishEdit trans pid editId data endpoint ≠ .error .assertion := by
  unfold Endpoint.finishEdit
  rw [get_bind]
  cases found : endpoint.jobs.lookup pid with
  | none => nofun
  | some parent =>
    have job : (lift (Outcome.expect "process not running" (some parent)) : Shell RemoteId) endpoint =
        .ok (.ok parent,endpoint) := rfl
    rw [ok_bind job,ok_bind (Endpoint.assertOpen_passes (opened parent found))]
    nofun

theorem closeRemote_addressed (root : endpoint.remotes.lookup Endpoint.root = some ⟨none⟩)
    (parents : ParentsOpen endpoint) {remote : RemoteId} {result : Except Error Unit}
    (ok : Endpoint.closeRemote trans remote endpoint = .ok (result,next)) :
    ∃ parent ∈ endpoint.remotes, next.sent = endpoint.sent ++ [⟨parent.val,.endRemote remote.val⟩] := by
  cases result with
  | error error => exact absurd ok (closeRemote_errorless remote).never
  | ok done =>
    obtain ⟨parent,opened,rfl⟩ := Endpoint.closeRemote_ok ok
    have other : remote ≠ Endpoint.root := by
      intro same
      rw [same,root] at opened
      cases opened
    obtain ⟨_,same,member⟩ := parents remote _ opened other
    obtain rfl := Option.some.inj same
    exact ⟨parent,member,rfl⟩

theorem referential_of {trace : List Performed} (root : endpoint.remotes.lookup Endpoint.root = some ⟨none⟩)
    (parents : ParentsOpen endpoint) (jobs : JobsOpen trace endpoint) : Referential trace endpoint where
  root := FiniteMap.mem_of_lookup root
  parents := parents
  jobs := jobs
  closeRemote _ _ _ := closeRemote_addressed root parents
  closeProcess pid := closeProcess_passes fun parent found => (jobs pid parent found).2
  finishEdit pid _ _ := finishEdit_passes fun parent found => (jobs pid parent found).2

section Step
variable {trace : List Performed} {operation : Operation} {result : Except Error Answer}

theorem parents_kept (parents : ParentsOpen endpoint) (refers : Refers endpoint (operation,result) next)
    (tidy : Tidy endpoint (operation,result)) : ParentsOpen next := by
  cases refers with
  | remote parent command id next opened fresh remotes jobs =>
    intro other state found different
    rw [remotes,FiniteMap.lookup_insert_if] at found
    rw [remotes]
    split at found
    · obtain rfl := Option.some.inj found
      exact ⟨parent,rfl,Finmap.mem_insert.mpr (Or.inr opened)⟩
    · obtain ⟨above,same,member⟩ := parents other state found different
      exact ⟨above,same,Finmap.mem_insert.mpr (Or.inr member)⟩
  | command remote command blockFor pipes pid next opened remotes jobs =>
    rwa [ParentsOpen,remotes]
  | closeRemote remote parent next opened remotes jobs =>
    intro other state found different
    rw [remotes,FiniteMap.lookup_erase_if] at found
    rw [remotes]
    split at found
    · cases found
    · rename_i apart
      obtain ⟨above,same,member⟩ := parents other state found different
      refine ⟨above,same,Finmap.mem_erase.mpr ⟨fun equal => ?_,member⟩⟩
      obtain ⟨parent⟩ := state
      obtain rfl : parent = some above := same
      exact tidy.1 other (Finmap.mem_keys.mpr (FiniteMap.mem_of_lookup found)) apart (equal ▸ found)
  | closeProcess pid next remotes jobs => rwa [ParentsOpen,remotes]
  | receive terminal message result next same begins => rwa [ParentsOpen,same.1]
  | other operation result next same keeps _ => rwa [ParentsOpen,same.1]

theorem jobs_kept (kept : JobsOpen trace endpoint) (refers : Refers endpoint (operation,result) next)
    (tidy : Tidy endpoint (operation,result)) : JobsOpen (trace ++ [(operation,result)]) next := by
  cases refers with
  | remote parent command id next opened fresh remotes jobs =>
    intro pid parent found
    rw [jobs] at found
    obtain ⟨outstanding,member⟩ := kept pid parent found
    refine ⟨outstanding_later outstanding (by simp [Ends]),?_⟩
    rw [remotes]
    exact Finmap.mem_insert.mpr (Or.inr member)
  | command remote command blockFor pipes pid next opened remotes jobs =>
    intro other parent found
    rw [jobs,FiniteMap.lookup_insert_if] at found
    rw [remotes]
    split at found
    · rename_i same
      obtain rfl := Option.some.inj found
      exact ⟨outstanding_begun (by rw [same]; rfl),opened⟩
    · obtain ⟨outstanding,member⟩ := kept other parent found
      exact ⟨outstanding_later outstanding (by simp [Ends]),member⟩
  | closeRemote remote parent next opened remotes jobs =>
    intro pid above found
    rw [jobs] at found
    obtain ⟨outstanding,member⟩ := kept pid above found
    refine ⟨outstanding_later outstanding (by simp [Ends]),?_⟩
    rw [remotes]
    refine Finmap.mem_erase.mpr ⟨fun same => ?_,member⟩
    exact tidy.2 pid (Finmap.mem_keys.mpr (FiniteMap.mem_of_lookup found)) (same ▸ found)
  | closeProcess pid next remotes jobs =>
    intro other parent found
    rw [jobs,FiniteMap.lookup_erase_if] at found
    rw [remotes]
    split at found
    · cases found
    · rename_i different
      obtain ⟨outstanding,member⟩ := kept other parent found
      exact ⟨outstanding_later outstanding (by simp [Ends,Ne.symm different]),member⟩
  | receive terminal message result next same begins =>
    intro pid parent found
    rw [same.2] at found
    rw [same.1]
    obtain ⟨outstanding,member⟩ := kept pid parent found
    refine ⟨outstanding_later outstanding fun ends => ?_,member⟩
    rcases ends with cancelled | ⟨_,_,_,reported⟩
    · cases cancelled
    · cases reported
      exact tidy (FiniteMap.mem_of_lookup found)
  | other operation result next same keeps _ =>
    intro pid parent found
    rw [same.2] at found
    rw [same.1]
    obtain ⟨outstanding,member⟩ := kept pid parent found
    exact ⟨outstanding_later outstanding (keeps pid).2,member⟩

/-- A step that is not tidy leaves a child or a job without its parent, or a finished job. -/
theorem tidy_of_referential (root : endpoint.remotes.lookup Endpoint.root = some ⟨none⟩)
    (refers : Refers endpoint (operation,result) next)
    (referential : Referential (trace ++ [(operation,result)]) next) : Tidy endpoint (operation,result) := by
  cases refers with
  | remote => trivial
  | command => trivial
  | closeProcess => trivial
  | other operation result next same keeps tidy => exact tidy
  | closeRemote remote parent next opened remotes jobs =>
    constructor
    · intro id _ different below
      have found : next.remotes.lookup id = some ⟨some remote⟩ := by
        rw [remotes,Finmap.lookup_erase_ne different,below]
      have apart : id ≠ Endpoint.root := by
        intro same
        rw [same,root] at below
        cases below
      obtain ⟨above,same,member⟩ := referential.parents id _ found apart
      obtain rfl := Option.some.inj same
      rw [remotes] at member
      exact (Finmap.mem_erase.mp member).1 rfl
    · intro pid _ found
      obtain ⟨_,member⟩ := referential.jobs pid remote (by rw [jobs,found])
      rw [remotes] at member
      exact (Finmap.mem_erase.mp member).1 rfl
  | receive terminal message result next same begins =>
    obtain ⟨remoteId,message⟩ := message
    cases message with
    | commandDone id exitCode =>
      intro listed
      obtain ⟨parent,found⟩ := Finmap.mem_iff.mp listed
      refine not_outstanding ?_ (begins id) (referential.jobs id parent (by rw [same.2,found])).1
      exact Or.inr ⟨terminal,remoteId,exitCode,rfl⟩
    | remoteReady => trivial
    | directoryListing => trivial
    | editRequest => trivial
    | pipe => trivial

end Step

/-- The references stay intact through a run exactly when every step of it is tidy. -/
theorem referential_iff {trace : List Performed} (run : system.Run trace endpoint) :
    (∀ before after middle, trace = before ++ after → system.Run before middle → Referential before middle) ↔
      (system.restrict Tidy).Run trace endpoint := by
  refine System.Run.holds_iff (System.ofFunction_deterministic _ _) ?_ ?_ run
  · intro endpoint start
    obtain rfl := start
    refine referential_of (run_root (.initial rfl)) ?_ ?_
    · intro id state found different
      have listed : id ∈ (Endpoint.new StackedRemotes.new).remotes := FiniteMap.mem_of_lookup found
      exact absurd ((Finmap.mem_singleton _ _ _).mp listed) different
    · intro pid parent found
      cases found
  · intro trace endpoint performed next run referential taken
    obtain ⟨operation,result⟩ := performed
    have refers := perform_refers taken
    constructor
    · exact tidy_of_referential (run_root run) refers
    · intro tidy
      exact referential_of (run_root (.step run taken)) (parents_kept referential.parents refers tidy)
        (jobs_kept referential.jobs refers tidy)

def nested : List Operation :=
  [.pipe,.remote Endpoint.root (.unknown "ssh" []),.remote ⟨1⟩ (.unknown "ssh" []),
    .command ⟨2⟩ (.unknown "ls" []) ∅ ⟨⟨0⟩,⟨0⟩,⟨0⟩⟩,.closeProcess ⟨3⟩,.closeRemote ⟨2⟩,.closeRemote ⟨1⟩]

theorem performs {allowed : Endpoint StackedRemotes → Performed → Prop} {trace : List Performed} {answer : Answer}
    (operation : Operation) (run : (system.restrict allowed).Run trace endpoint)
    (ok : perform operation endpoint = .ok (.ok answer,next)) (permitted : allowed endpoint (operation,.ok answer)) :
    (system.restrict allowed).Run (trace ++ [(operation,.ok answer)]) next :=
  .step run ⟨ok,permitted⟩

theorem referential_nested : ∃ trace endpoint, system.Run trace endpoint ∧ trace.map Prod.fst = nested ∧
    ∀ before after middle, trace = before ++ after → system.Run before middle → Referential before middle := by
  have start : (system.restrict Tidy).Run [] _ := .initial rfl
  have piped := performs .pipe start rfl trivial
  have first := performs (.remote Endpoint.root (.unknown "ssh" [])) piped rfl trivial
  have second := performs (.remote ⟨1⟩ (.unknown "ssh" [])) first rfl trivial
  have begun := performs (.command ⟨2⟩ (.unknown "ls" []) ∅ ⟨⟨0⟩,⟨0⟩,⟨0⟩⟩) second rfl trivial
  have cancelled := performs (.closeProcess ⟨3⟩) begun rfl trivial
  have inner := performs (.closeRemote ⟨2⟩) cancelled rfl ⟨by decide,by decide⟩
  have outer := performs (.closeRemote ⟨1⟩) inner rfl ⟨by decide,by decide⟩
  exact ⟨_,_,outer.unrestricted,rfl,(referential_iff outer.unrestricted).mpr outer⟩

/-- The root's child is closed before its own child. -/
theorem referential_fails : ∃ trace endpoint, system.Run trace endpoint ∧
    trace.map Prod.fst = nested.take 3 ++ [.closeRemote ⟨1⟩] ∧ ¬Referential trace endpoint := by
  have start : (system.restrict fun _ _ => True).Run [] _ := .initial rfl
  have piped := performs .pipe start rfl trivial
  have first := performs (.remote Endpoint.root (.unknown "ssh" [])) piped rfl trivial
  have second := performs (.remote ⟨1⟩ (.unknown "ssh" [])) first rfl trivial
  have closed := performs (.closeRemote ⟨1⟩) second rfl trivial
  refine ⟨_,_,closed.unrestricted,rfl,fun referential => ?_⟩
  obtain ⟨parent,same,listed⟩ := referential.parents ⟨2⟩ ⟨some ⟨1⟩⟩ rfl (by decide)
  obtain rfl := Option.some.inj same
  revert listed
  decide

end References
end Nak
