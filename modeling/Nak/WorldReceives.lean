import Nak.WorldSession

/-! The frontend and what it is sent. Whatever the backend, its children and the scheduler do,
the loop has a place for every response, edit requests of cancelled processes apart. -/
namespace Nak
open Library Action

def Planned (getCommand : String → Outcome (Except Error Plan)) : Prop :=
  ∀ text, ∃ result, getCommand text = .ok result ∧ ∀ plan, result = .ok plan →
    ∃ remotes prefs cmd, planCommandSimple remotes prefs cmd = .ok (.ok plan)

namespace Shell
variable {trans : Transport Error} {inputs : Inputs} {endpoint next start : Endpoint StackedRemotes}
variable {received : List RemoteResponse}

def Employed (endpoint : Endpoint StackedRemotes) : Prop :=
  ∀ pid parent, endpoint.jobs.lookup pid = some parent → parent = Endpoint.root

theorem Employed.same (employed : Employed endpoint) (same : next.jobs = endpoint.jobs) : Employed next := by
  rw [Employed,same]
  exact employed

theorem Employed.insert (employed : Employed endpoint) {pid : ProcessId}
    (jobs : next.jobs = endpoint.jobs.insert pid Endpoint.root) : Employed next := by
  intro other parent found
  rw [jobs,FiniteMap.lookup_insert_if] at found
  split at found
  · exact (Option.some.inj found).symm
  · exact employed other parent found

theorem Employed.erase (employed : Employed endpoint) {pid : ProcessId} (jobs : next.jobs = endpoint.jobs.erase pid) :
    Employed next := by
  intro other parent found
  rw [jobs,FiniteMap.lookup_erase_if] at found
  split at found
  · cases found
  · exact employed other parent found

theorem runStep_employed (tracks : Session.Tracks received endpoint) (employed : Employed endpoint)
    {stage after : Stage}
    {step : Step} (cases : StepCases trans stage endpoint step after next) : Employed next := by
  cases cases with
  | pipe => exact employed.same rfl
  | run ref remote cmd process stdin stdout stderr one two three current =>
    obtain rfl := Session.curRemote_root tracks current
    exact employed.insert rfl
  | close ref next several ended => exact absurd ended (Session.endRemote_root tracks.hosts tracks.root)
  | openOutputFile => exact employed.same rfl

theorem Lays.employed {plan : Plan} {line : Line} (lays : Lays trans plan start line next)
    (tracks : Session.Tracks received start) (employed : Employed start) : Employed next := by
  cases lays with
  | laid stage middle second remote sinks last stepped begun current read =>
    obtain ⟨tracks,employed⟩ := runSteps_tracked (fun _ _ _ _ _ tracks before =>
      runStep_employed tracks before) tracks employed stepped
    obtain ⟨_,remote,hosted,rfl⟩ := beginDirectory_shape begun
    obtain rfl := Session.curRemote_root tracks hosted
    have kept := (readSinks_same _ _ _ _).after read
    apply Employed.same _ kept.2
    exact employed.insert rfl

theorem readLine_employed (tracks : Session.Tracks received start) (employed : Employed start) {line : Line}
    (ok : readLine inputs start = .ok (.ok (.begun line),next)) : Employed next := by
  obtain ⟨text,middle,plan,prompted,lays⟩ := readLine_lays ok
  obtain ⟨finished,remotes,rfl,_⟩ := prompt_shape prompted
  exact lays.employed (Session.prompt_tracks tracks prompted).1 (employed.same rfl)

theorem cancelAll_tracks {order : List ProcessId} (tracks : Session.Tracks received endpoint)
    (employed : Employed endpoint) (ok : cancelAll trans order endpoint = .ok (.ok (),next)) :
    Session.Tracks received next ∧ Employed next := by
  induction order generalizing endpoint with
  | nil =>
    obtain ⟨_,rfl⟩ := pure_ok.mp ok
    exact ⟨tracks,employed⟩
  | cons id order ih =>
    obtain ⟨_,_,cancelled,rest⟩ := bind_ok.mp ok
    obtain ⟨parent,_,_,rfl⟩ := Endpoint.closeProcess_ok cancelled
    refine ih ?_ (employed.erase rfl) rest
    obtain ⟨drawn,reads,answered,gathered,directories,hosts,waits,root⟩ := tracks
    refine ⟨drawn,fun pipe member => reads pipe ?_,answered,gathered,directories,hosts,waits,root⟩
    have same : begunReads (endpoint.sent ++ [⟨parent.val,.cancelCommand id⟩]) = begunReads endpoint.sent :=
      (Session.begunReads_append _ _).trans (List.append_nil _)
    exact same ▸ member

end Shell

/-- The copy of the file can be made and read again, and the editor exits successfully. -/
structure Terminal.Edits (terminal : Terminal) (path : String) (data : Bytes) : Prop where
  create : terminal.create path = .ok ()
  writeFile : terminal.writeFile path data = .ok ()
  status : terminal.status path data = .ok true
  openFile : terminal.openFile path = .ok ()
  readToEnd : ∃ newData, terminal.readToEnd path data = .ok newData

/-- What the response asks of the terminal succeeds. -/
structure Terminal.Works (terminal : Terminal) (response : RemoteResponse) : Prop where
  writeAll : terminal.writeAll = .ok ()
  write : ∃ size, terminal.write = .ok size
  edits : ∀ pid editId name data, response = .editRequest pid editId name data →
    ∃ dir, terminal.tempdir = .ok dir ∧ terminal.Edits (join dir (fileName name)) data

theorem Terminal.works_working (response : RemoteResponse) : Terminal.Works .working response :=
  ⟨rfl,⟨0,rfl⟩,fun _ _ _ data _ => ⟨"/tmp/.tmp",rfl,rfl,rfl,rfl,rfl,data,rfl⟩⟩

namespace Session
open Shell
variable {session after : Session} {inputs : Inputs} {terminal : Terminal} {trans : Transport Error} {msg : Response}

/-- The loop has a place for all that it may be sent. -/
structure Receptive (session : Session) : Prop where
  tracks : Tracks session.received session.endpoint
  counted : session.Counted
  employed : Employed session.endpoint
  starts : session.received = [] → session.endpoint.handler.waitingForRemote = some Endpoint.root

theorem receptive_new : Receptive new where
  tracks := tracks_new
  counted pid outstanding := absurd outstanding.1 List.not_mem_nil
  employed pid parent found := by cases found
  starts _ := rfl

theorem turns_receptive (receptive : session.Receptive) (planned : ¬session.Awaits → Planned inputs.getCommand)
    (conforms : session.Conforms inputs) (turns : session.Turns inputs after) : after.Receptive := by
  have counted := turns_counted receptive.counted turns
  obtain ⟨tracks,_,employed,starts⟩ := receptive
  cases turns with
  | prompt line endpoint idle read =>
    have shows (text : String) (plan : Plan) (given : inputs.getCommand text = .ok (.ok plan)) : Shows plan := by
      obtain ⟨result,read,built⟩ := planned idle text
      obtain ⟨remotes,prefs,cmd,ok⟩ := built plan (Except.ok.inj (read.symm.trans given))
      intro sink member
      rw [planCommandSimple_sinks remotes prefs ok] at member
      simpa using member
    refine ⟨readLine_tracks tracks shows read,counted,readLine_employed tracks employed read,fun none => ?_⟩
    exact absurd (Or.inl (by rw [starts none]; rfl)) idle
  | message msg endpoint awaits given handled =>
    unfold Conforms at conforms
    rw [given] at conforms
    have same : Frames.Same session.endpoint endpoint := (Frames.same_spared.receive _ _).after handled
    refine ⟨tracks.receipt (answers_open (conforms awaits)) (receive_receipt handled),counted,employed.same same.2,?_⟩
    exact fun none => absurd none (by simp)
  | interrupt endpoint awaits given cancelled =>
    obtain ⟨tracks,employed⟩ := cancelAll_tracks tracks employed cancelled
    refine ⟨tracks,counted,employed,fun none => ?_⟩
    exact (congrArg StackedRemotes.waitingForRemote (cancelAll_ok cancelled).2).trans (starts none)

private theorem update_returns (change : StackedRemotes → StackedRemotes) (endpoint : Endpoint StackedRemotes) :
    Returns (StackedRemotes.update change) endpoint := ⟨(),_,rfl⟩

private theorem print_returns {stream : Stream} {source : Option GenericPipe} {data : Bytes} {next : Unit → Shell Unit}
    {endpoint : Endpoint StackedRemotes} (returns : ∀ after : Endpoint StackedRemotes, after.jobs = endpoint.jobs →
      after.remotes = endpoint.remotes → Returns (next ()) after) :
    Returns (StackedRemotes.print stream source data >>= next) endpoint :=
  returns_bind.mpr ⟨(),_,rfl,returns _ rfl rfl⟩

private theorem finishEdit_returns {endpoint : Endpoint StackedRemotes} {pid : ProcessId}
    (found : endpoint.jobs.lookup pid = some Endpoint.root) (opened : Endpoint.root ∈ endpoint.remotes)
    (sends : ∀ request, trans request = .ok ()) (editId : Nat) (data : Bytes) :
    Returns (Endpoint.finishEdit trans pid editId data) endpoint := by
  refine returns_get.mpr (returns_lift.mpr ⟨_,(Outcome.expect_ok _ _ _).mpr found,?_⟩)
  refine returns_bind.mpr ⟨(),endpoint,?_,returns_propagate.mpr ⟨(),sends _,(),_,rfl⟩⟩
  rw [Endpoint.assertOpen,get_bind]
  exact lift_ok.mpr ⟨(),(Outcome.assert_ok _ _).mpr opened,rfl,rfl⟩

private theorem opened_returns {name : String} {data : Bytes} {dir : String} (made : terminal.tempdir = .ok dir)
    (edits : terminal.Edits (join dir (fileName name)) data) (endpoint : Endpoint StackedRemotes) :
    Returns (terminal.edit name data : Shell Bytes) endpoint := by
  obtain ⟨created,written,success,opened,newData,read⟩ := edits
  refine returns_propagate.mpr ⟨dir,made,returns_propagate.mpr ⟨(),created,returns_propagate.mpr ⟨(),written,?_⟩⟩⟩
  refine returns_propagate.mpr ⟨true,success,returns_lift.mpr ⟨(),rfl,returns_propagate.mpr ⟨(),opened,?_⟩⟩⟩
  exact ⟨newData,endpoint,by rw [read]; rfl⟩

private theorem edit_returns (receptive : session.Receptive) {pid : ProcessId} (job : pid ∈ session.endpoint.jobs)
    {editId : Nat} {name : String} {data : Bytes} (works : terminal.Works (.editRequest pid editId name data))
    (sends : ∀ request, trans request = .ok ()) :
    Returns (StackedRemotes.editRequest terminal trans editId pid name data) session.endpoint := by
  obtain ⟨size,taken⟩ := works.write
  obtain ⟨dir,made,edits⟩ := works.edits _ _ _ _ rfl
  obtain ⟨parent,found⟩ := Finmap.mem_iff.mp job
  obtain rfl := receptive.employed pid parent found
  refine returns_bind.mpr ⟨(),_,StackedRemotes.println_ok.mpr ⟨works.writeAll,rfl⟩,?_⟩
  refine returns_propagate.mpr ⟨size,taken,print_returns fun last jobs remotes => ?_⟩
  obtain ⟨newData,after,edited⟩ := opened_returns made edits last
  obtain ⟨_,rfl⟩ := Terminal.edit_ok.mp edited
  refine returns_bind.mpr ⟨newData,_,edited,finishEdit_returns ?_ ?_ sends _ _⟩
  · rw [jobs]
    exact found
  · rw [remotes]
    exact FiniteMap.mem_of_lookup receptive.tracks.root

private theorem data_returns (shows : terminal.writeAll = .ok ()) {pipe : GenericPipe}
    {endpoint : Endpoint StackedRemotes}
    (registered : Registered endpoint.handler pipe) (data : Bytes) (endOffset : Nat) :
    Returns (StackedRemotes.pipe terminal pipe (.data data endOffset)) endpoint := by
  have shown (stream : Stream) : Returns (do
      propagate terminal.writeAll
      StackedRemotes.print stream (some pipe) data : Shell Unit) endpoint :=
    returns_propagate.mpr ⟨(),shows,update_returns _ _⟩
  refine returns_get.mpr ?_
  split
  · exact update_returns _ _
  · rename_i absent
    rcases registered with gathers | registered
    · rw [absent] at gathers
      cases gathers
    · split
      · exact shown .stdout
      · rename_i other
        rw [if_pos (registered.resolve_left other)]
        exact shown .stderr

/-- The loop takes any answer, unless it is an edit request for a process that was cancelled. -/
theorem receive_returns (receptive : session.Receptive) (answers : session.Answers msg)
    (jobs : ∀ pid editId name data, msg.message = .editRequest pid editId name data → pid ∈ session.endpoint.jobs)
    (works : terminal.Works msg.message) (sends : ∀ request, trans request = .ok ()) :
    Returns (Endpoint.receive (StackedRemotes.handler terminal trans) msg) session.endpoint := by
  have edits := @edit_returns _ terminal trans receptive
  obtain ⟨tracks,counted,_,starts⟩ := receptive
  obtain ⟨remoteId,message⟩ := msg
  have known {id : Nat} (reading : session.Reading ⟨id⟩) :
      Outcome.assert (id ∈ session.endpoint.pipes) = .ok () :=
    (Outcome.assert_ok _ _).mpr (tracks.reads _ reading.1).1
  cases message with
  | remoteReady info =>
    obtain ⟨root,none⟩ := answers
    refine returns_get.mpr (returns_lift.mpr ⟨_,(Outcome.expect_ok _ _ _).mpr (starts none),?_⟩)
    refine returns_lift.mpr ⟨(),(Outcome.assert_ok _ _).mpr (congrArg RemoteId.mk root.symm),update_returns _ _⟩
  | commandDone id exitCode =>
    exact returns_get.mpr (returns_lift.mpr ⟨(),(Outcome.assert_ok _ _).mpr (counted id answers),update_returns _ _⟩)
  | directoryListing => exact answers.elim
  | editRequest commandId editId name data => exact edits (jobs _ _ _ _ rfl) works sends
  | pipe envelope =>
    obtain ⟨id,msg⟩ := envelope
    cases msg with
    | data data endOffset =>
      refine returns_get.mpr (returns_lift.mpr ⟨(),known answers,returns_get.mpr ?_⟩)
      exact data_returns works.writeAll ((tracks.reads _ answers.1).2.resolve_left answers.2) data endOffset
    | closed endOffset =>
      refine returns_get.mpr (returns_lift.mpr ⟨(),known answers,returns_modify.mpr (returns_get.mpr ?_)⟩)
      split
      · exact update_returns _ _
      · exact ⟨(),_,rfl⟩
    | beginRead => exact answers.elim
    | read => exact answers.elim

end Session

namespace World
variable {world after : World} {info : RemoteInfo} {trace : List Move}

/-- The user's commands become plans of `parse_command_simple`. -/
def Simple (_ : World) : Move → Prop
  | .prompt getCommand => Planned getCommand
  | _ => True

theorem run_receptive (run : ((system info).restrict Simple).Run trace world) : world.session.Receptive := by
  refine run.invariant (fun _ world => world.session.Receptive) ?_ ?_
  · intro world start
    obtain rfl : world = new info := start
    exact Session.receptive_new
  · intro trace world move after run receptive taken
    obtain ⟨ok,simple⟩ := taken
    rcases (reachable_coherent run.unrestricted.reachable).seen ok with same | ⟨inputs,gives,stepped,conforms⟩
    · exact same ▸ receptive
    · refine Session.turns_receptive receptive (fun idle => ?_) conforms (Session.next_ok stepped).2
      cases gives with
      | prompt getCommand => exact simple
      | receive terminal response waits => exact absurd (session_awaits.mpr waits) idle
      | interrupt order waits => exact absurd (session_awaits.mpr waits) idle

theorem Coherent.receives (coherent : Coherent world) (receptive : world.session.Receptive) (waits : ¬world.AtPrompt)
    {response : RemoteResponse} (found : world.output[world.received]? = some response)
    (jobs : ∀ pid editId name data, response = .editRequest pid editId name data → pid ∈ world.frontend.jobs)
    {terminal : Terminal} (works : terminal.Works response) : ∃ after, world.next (.receive terminal) = .ok after := by
  have answers := World.answers coherent.ledger coherent.streaming found
  obtain ⟨_,frontend,received⟩ :=
    @Session.receive_returns _ terminal (fun _ => .ok ()) _ receptive answers jobs works fun _ => rfl
  have turned : Shell.turn ⟨terminal,fun _ => .ok (),.ok (.remote ⟨0,response⟩),fun _ => .error .explicit,[]⟩
      world.frontend = .ok (.ok .handled,frontend) := by
    rw [turn_remote waits rfl]
    exact bind_ok.mpr ⟨(),frontend,received,rfl⟩
  refine ⟨{ world with frontend, received := world.received + 1 },?_⟩
  refine Outcome.bind_ok.mpr ⟨(),(Outcome.assert_ok _ _).mpr waits,?_⟩
  refine Outcome.bind_ok.mpr ⟨response,(Outcome.unwrap_ok _ _).mpr found,?_⟩
  refine Outcome.bind_ok.mpr ⟨(.handled,{ world with frontend }),?_,rfl⟩
  exact Outcome.bind_ok.mpr ⟨(.ok .handled,frontend),turned,rfl⟩

/-- The loop takes every response when it comes, whatever happened before, if stdout can be
written and the editor returns, unless it is an edit request for a process that was cancelled. -/
theorem receive_succeeds (run : ((system info).restrict Simple).Run trace world) (waits : ¬world.AtPrompt)
    {response : RemoteResponse} (found : world.output[world.received]? = some response)
    (jobs : ∀ pid editId name data, response = .editRequest pid editId name data → pid ∈ world.frontend.jobs)
    {terminal : Terminal} (works : terminal.Works response) : ∃ after, world.next (.receive terminal) = .ok after :=
  (reachable_coherent run.unrestricted.reachable).receives (run_receptive run) waits found jobs works

theorem planned_sleeping : Planned fun _ => .ok (.ok Session.sleeping) := by
  intro text
  refine ⟨_,rfl,fun plan same => ⟨⟨[⟨0⟩]⟩,⟨[]⟩,.cmd ⟨none,[.normal "sleep",.normal "9"]⟩,?_⟩⟩
  obtain rfl : Session.sleeping = plan := Except.ok.inj same
  rfl

private def sleeper : Process := ⟨⟨3⟩,.fromPipe 0 ⟨2⟩,.fromPipe 1 ⟨0⟩,.fromPipe 2 ⟨1⟩⟩

private def early : List Move :=
  [.receive .working,.prompt fun _ => .ok (.ok Session.sleeping),.route ∅,.route (AList.insert ⟨3⟩ none ∅)] ++
  List.replicate 8 (.route ∅) ++ [.execute .working,.write sleeper .stdout [65],.interrupt [⟨3⟩,⟨7⟩]] ++
  List.replicate 9 (.execute .working) ++ [.forward (⟨0⟩,.fromPipe 1 ⟨0⟩) 1,.execute .working]

private theorem early_simple {label : Move} (member : label ∈ early) (world : World) : world.Simple label := by
  cases label with
  | prompt getCommand =>
    obtain rfl : getCommand = fun _ => .ok (.ok Session.sleeping) := by simpa [early] using member
    exact planned_sleeping
  | _ => trivial

theorem receive_succeeds_early : ∃ trace world, ((system ⟨"localhost","nak","/"⟩).restrict Simple).Run trace world ∧
    (∃ order, .interrupt order ∈ trace) ∧ world.output[world.received]? = some (.pipe ⟨0,.data [65] 0⟩) ∧
    ∃ after, world.next (.receive .working) = .ok after := by
  obtain ⟨world,run,waits,found⟩ := System.ends_run (new ⟨"localhost","nak","/"⟩) next (fun _ _ => True)
    (fun world => ¬world.AtPrompt ∧ world.output[world.received]? = some (.pipe ⟨0,.data [65] 0⟩))
    (show System.ends (new ⟨"localhost","nak","/"⟩) next _ _ early = true by decide +kernel)
  have simple := run.permitted fun label member state _ => early_simple member state
  exact ⟨_,world,simple,⟨[⟨3⟩,⟨7⟩],by simp [early]⟩,found,
    receive_succeeds simple waits found nofun (Terminal.works_working _)⟩

end World
end Nak
