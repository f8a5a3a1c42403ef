import Nak.EndpointFrames
import Nak.Receipts
import Nak.Session
import Nak.Library.Triple

/-! Ctrl-C while processes are waited for. A line enters all its processes into the jobs and
nothing but cancelling takes one out, so the first Ctrl-C leaves `waiting_for` without jobs. -/
namespace Nak
open Library Action Frames

namespace Shell
variable {inputs : Inputs} {trans : Transport Error} {endpoint next start : Endpoint StackedRemotes}

def Listed (jobs : List Job) (endpoint : Endpoint StackedRemotes) : Prop := ∀ job ∈ jobs, job.id ∈ endpoint.jobs

theorem Listed.same {jobs : List Job} (listed : Listed jobs endpoint) (same : Same endpoint next) : Listed jobs next :=
  fun job member => same.2 ▸ listed job member

theorem runStep_listed {stage after : Stage} {step : Step} (before : Listed stage.jobs endpoint)
    (cases : StepCases trans stage endpoint step after next) : Listed after.jobs next := by
  cases cases with
  | pipe => exact before
  | run =>
    intro job member
    rcases List.mem_append.mp member with old | new
    · exact Finmap.mem_insert.mpr (Or.inr (before job old))
    · rw [List.mem_singleton.mp new]
      exact Finmap.mem_insert.mpr (Or.inl rfl)
  | close ref next several ended =>
    obtain ⟨_,_,rfl⟩ := endRemote_ok ended
    exact before
  | openOutputFile => exact before

theorem runSteps_listed {steps : List Step} {stage after : Stage} (listed : Listed stage.jobs endpoint)
    (ok : runSteps trans steps stage endpoint = .ok (.ok (some after),next)) : Listed after.jobs next :=
  runSteps_keeps (fun _ _ _ _ _ before => runStep_listed before) listed ok

theorem beginDirectory_listed {jobs : List Job} {directory : Job} (listed : Listed jobs endpoint)
    (ok : beginDirectory trans jobs endpoint = .ok (.ok directory,next)) : Listed (jobs ++ [directory]) next := by
  obtain ⟨rfl,_,_,rfl⟩ := beginDirectory_shape ok
  intro job member
  apply Finmap.mem_insert.mpr
  rcases List.mem_append.mp member with old | new
  · exact Or.inr (listed job old)
  · rw [List.mem_singleton.mp new]
    exact Or.inl rfl

theorem registerSink_same (pipe : GenericPipe) (sink : Sink) : Keeps Same (registerSink pipe sink) := by
  unfold registerSink
  cases sink with
  | devNull => exact .pure _
  | stdout => exact same_spared.update _
  | stderr => exact same_spared.update _
  | gather => exact .panic _
  | pager => exact .panic _

theorem readSinks_same (remote : RemoteId) (index : Nat) (sinkMap : List (Option Sink)) (pairs : List PipePair) :
    Keeps Same (readSinks trans remote index sinkMap pairs) := by
  induction sinkMap generalizing index pairs with
  | nil => exact .pure _
  | cons sink sinkMap ih =>
    cases sink with
    | none => exact ih (index + 1) pairs
    | some sink =>
      exact (Keeps.lift _).bind fun _ => (same_spared.send _ _).bind fun _ => (same_spared.send _ _).bind fun _ =>
        (registerSink_same _ _).bind fun _ => (ih _ _).bind fun _ => .pure _

theorem beginLine_listed {plan : Plan} {line : Line} (ok : beginLine trans plan start = .ok (.ok (some line),next)) :
    Listed line.all next := by
  obtain ⟨stage?,middle,stepped,rest⟩ := bind_ok.mp ok
  cases stage? with
  | none => cases rest
  | some stage =>
    have listed := runSteps_listed (fun _ member => absurd member (List.not_mem_nil)) stepped
    obtain ⟨directory,second,begun,rest₁⟩ := bind_ok.mp rest
    obtain ⟨remote,third,current,rest₂⟩ := bind_ok.mp rest₁
    obtain rfl := curRemote_ok current
    obtain ⟨sinks,last,read,rest₃⟩ := bind_ok.mp rest₂
    rw [get_bind] at rest₃
    obtain ⟨_,_,rest₄⟩ := lift_bind_ok.mp rest₃
    obtain ⟨_,_,updated,rest₅⟩ := bind_ok.mp rest₄
    obtain ⟨_,rfl⟩ := Prod.mk.inj (Except.ok.inj updated)
    obtain ⟨same,rfl⟩ := pure_ok.mp rest₅
    obtain rfl := Option.some.inj same
    have kept : Same third last := (readSinks_same _ _ _ _).after read
    exact (beginDirectory_listed listed begun).same kept

theorem readLine_listed {line : Line} (ok : readLine inputs start = .ok (.ok (.begun line),next)) :
    Listed line.all next := by
  obtain ⟨text,middle,prompted,rest⟩ := bind_ok.mp ok
  obtain ⟨plan,_,rest₁⟩ := lift_bind_ok.mp rest
  obtain ⟨got,_,propagated,rest₂⟩ := bind_ok.mp rest₁
  obtain ⟨done,_,begun,last⟩ := bind_ok.mp rest₂
  cases done with
  | none => cases last
  | some other =>
    obtain ⟨same,rfl⟩ := pure_ok.mp last
    obtain rfl := Turn.begun.inj same
    exact beginLine_listed begun

theorem cancelAll_jobs {order : List ProcessId} (ok : cancelAll trans order endpoint = .ok (.ok (),next)) :
    ∀ pid ∈ order, pid ∉ next.jobs := by
  have removed (order : List ProcessId) (start last : Endpoint StackedRemotes)
      (ok : cancelAll trans order start = .ok (.ok (),last)) (pid : ProcessId)
      (gone : pid ∉ start.jobs ∨ pid ∈ order) : pid ∉ last.jobs := by
    induction order generalizing start with
    | nil =>
      obtain ⟨_,rfl⟩ := pure_ok.mp ok
      exact gone.resolve_right List.not_mem_nil
    | cons id order ih =>
      obtain ⟨_,_,cancelled,rest⟩ := bind_ok.mp ok
      obtain ⟨parent,_,_,rfl⟩ := Endpoint.closeProcess_ok cancelled
      apply ih _ rest
      rcases gone with absent | listed
      · exact Or.inl fun member => absent (Finmap.mem_erase.mp member).2
      · rcases List.mem_cons.mp listed with same | later
        · exact Or.inl fun member => (Finmap.mem_erase.mp member).1 same
        · exact Or.inr later
  exact fun pid member => removed order endpoint next ok pid (Or.inr member)

def NotRunning (panic : Panic) : Prop := panic = .expect "process not running"

theorem send_free (remote : RemoteId) (message : RemoteRequest) :
    Triple.Free NotRunning (Endpoint.send trans remote message : Shell Unit) :=
  (Triple.Free.propagate _).bind fun _ => .modify _

theorem assertOpen_free (remote : RemoteId) :
    Triple.Free NotRunning (Endpoint.assertOpen remote : Shell Unit) :=
  Triple.Free.get.bind fun _ => .assert nofun

theorem update_free (change : StackedRemotes → StackedRemotes) :
    Triple.Free NotRunning (StackedRemotes.update change) := .modify _

theorem parent_free {pid : ProcessId} {first : Endpoint StackedRemotes} :
    Triple NotRunning (fun state => first = state ∧ pid ∈ state.jobs)
      (lift (Outcome.expect "process not running" (first.jobs.lookup pid)) : Shell RemoteId) fun _ _ => True := by
  refine .lift (fun state panic given raised _ => ?_) (fun _ _ _ _ => trivial)
  obtain ⟨rfl,listed⟩ := given
  have absent := ((Outcome.expect_error _ _ _).mp raised).1
  exact Finmap.lookup_eq_none.mp absent listed

theorem closeProcess_free {pid : ProcessId} : Triple NotRunning (fun state => pid ∈ state.jobs)
    (Endpoint.closeProcess trans pid : Shell Unit) fun _ _ => True :=
  Triple.get.bind fun _ => parent_free.bind fun _ => (Triple.Free.modify _).bind fun _ =>
    (assertOpen_free _).bind fun _ => send_free _ _

theorem finishEdit_free {pid : ProcessId} {editId : Nat} {data : Bytes} :
    Triple NotRunning (fun state => pid ∈ state.jobs) (Endpoint.finishEdit trans pid editId data : Shell Unit)
      fun _ _ => True :=
  Triple.get.bind fun _ => parent_free.bind fun _ => (assertOpen_free _).bind fun _ => send_free _ _

theorem cancelAll_free {order : List ProcessId} (distinct : order.Nodup) :
    Triple NotRunning (fun state => ∀ pid ∈ order, pid ∈ state.jobs) (cancelAll trans order) fun _ _ => True := by
  induction order with
  | nil => exact .pure fun _ _ => trivial
  | cons id order ih =>
    obtain ⟨absent,distinct⟩ := List.nodup_cons.mp distinct
    refine Triple.bind ⟨?_,?_⟩ fun _ => ih distinct
    · exact fun listed => closeProcess_free.panics (listed id (List.mem_cons_self ..))
    · intro state _ final listed ok
      obtain ⟨parent,_,_,rfl⟩ := Endpoint.closeProcess_ok ok
      intro pid member
      refine Finmap.mem_erase.mpr ⟨fun same => absent (same ▸ member),listed pid (List.mem_cons_of_mem _ member)⟩

theorem pipe_free (terminal : Terminal) (id : GenericPipe) (message : PipeMessage) :
    Triple.Free NotRunning (StackedRemotes.pipe terminal id message) := by
  cases message with
  | data data endOffset =>
    refine Triple.Free.get.bind fun endpoint => ?_
    have printed (stream : Stream) : Triple.Free NotRunning (do
        Action.propagate terminal.writeAll
        StackedRemotes.print stream (some id) data : Shell Unit) :=
      (Triple.Free.propagate _).bind fun _ => update_free _
    split
    · exact update_free _
    · split
      · exact printed .stdout
      · split
        · exact printed .stderr
        · exact .panic (by simp [NotRunning])
  | closed endOffset =>
    refine (update_free _).bind fun _ => Triple.Free.get.bind fun endpoint => ?_
    split
    · exact update_free _
    · exact .pure _
  | beginRead => exact .panic nofun
  | read => exact .panic nofun

/-- An edit request is the only response that needs its process among the jobs. -/
theorem receive_free {terminal : Terminal} {msg : Response} :
    Triple NotRunning (fun state => ∀ commandId editId name data,
      msg.message = .editRequest commandId editId name data → commandId ∈ state.jobs)
      (Endpoint.receive (StackedRemotes.handler terminal trans) msg) fun _ _ => True := by
  obtain ⟨remoteId,message⟩ := msg
  cases message with
  | remoteReady info =>
    refine Triple.weaken ?_ fun _ _ => trivial
    exact Triple.Free.get.bind fun _ => (Triple.Free.expect (by simp [NotRunning])).bind fun _ =>
      (Triple.Free.assert nofun).bind fun _ => update_free _
  | commandDone id exitCode =>
    refine Triple.weaken ?_ fun _ _ => trivial
    exact Triple.Free.get.bind fun _ => (Triple.Free.assert nofun).bind fun _ => update_free _
  | directoryListing id items => exact .panic nofun
  | pipe envelope =>
    refine Triple.weaken ?_ fun _ _ => trivial
    exact Triple.Free.get.bind fun _ => (Triple.Free.assert nofun).bind fun _ => pipe_free _ _ _
  | editRequest commandId editId name data =>
    let Job (state : Endpoint StackedRemotes) : Prop := commandId ∈ state.jobs
    have print (data : Bytes) : Triple NotRunning Job (StackedRemotes.print .stdout none data) fun _ => Job :=
      .modify fun _ listed => listed
    have propagate {α : Type} (result : Except Error α) : Triple NotRunning Job (Action.propagate result) fun _ =>
      Job :=
      .propagate fun _ _ listed _ => listed
    have line (text : String) : Triple NotRunning Job (StackedRemotes.println terminal text) fun _ => Job := by
      refine Triple.bind (.lift (fun _ _ _ raised barred => ?_) fun _ _ listed _ => listed) fun _ => print _
      obtain ⟨_,same⟩ := (Outcome.expect_error _ _ _).mp raised
      exact absurd (same.symm.trans barred) (by simp)
    have assert (success : Bool) : Triple NotRunning Job (Action.lift (Outcome.assert success) : Shell _) fun _ =>
      Job :=
      .lift (fun _ _ _ raised barred => by cases barred; simp at raised) fun _ _ listed _ => listed
    have edit : Triple NotRunning Job (terminal.edit name data : Shell Bytes) fun _ => Job :=
      (propagate _).bind fun _ => (propagate _).bind fun _ => (propagate _).bind fun _ => (propagate _).bind fun _ =>
        (assert _).bind fun _ => (propagate _).bind fun _ => propagate _
    refine Triple.weaken ?_ fun state named => named commandId editId name data rfl
    exact (line _).bind fun _ => (propagate _).bind fun _ => (print _).bind fun _ => edit.bind fun _ =>
      finishEdit_free

theorem oneLoop_rule {barred : Panic → Prop} (explicit : ¬barred .explicit)
    (prompts : endpoint.handler.waitingForRemote.isSome = false → endpoint.handler.waitingFor.card = 0 ∧
      endpoint.handler.waitingForEof.card = 0 → Triple barred (· = endpoint) (readLine inputs) fun _ _ => True)
    (handles : ∀ msg, inputs.recv = .ok (.remote msg) → (endpoint.handler.waitingForRemote.isSome ∨
      ¬(endpoint.handler.waitingFor.card = 0 ∧ endpoint.handler.waitingForEof.card = 0)) → Triple barred (· = endpoint)
        (Endpoint.receive (StackedRemotes.handler inputs.terminal inputs.trans) msg) fun _ _ => True)
    (cancels : inputs.recv = .ok .ctrlC →
      Triple barred (· = endpoint) (cancelAll inputs.trans inputs.order) fun _ _ => True) :
    Triple barred (· = endpoint) (oneLoop inputs) fun _ _ => True := by
  have recv : Triple barred (· = endpoint) (propagate inputs.recv : Shell Event) fun event state =>
      inputs.recv = .ok event ∧ state = endpoint := .propagate fun _ _ same taken => ⟨taken,same⟩
  have message (msg : Response) (given : inputs.recv = .ok (.remote msg)) (busy) :
      Triple barred (· = endpoint) (receive inputs msg) fun _ _ => True :=
    (handles msg given busy).bind fun _ => .pure fun _ _ => trivial
  have turned : Triple barred (· = endpoint) (turn inputs) fun _ _ => True := by
    refine Triple.get.bind fun first => .pointwise fun state given => ?_
    obtain ⟨rfl,rfl⟩ := given
    split
    · rename_i waiting
      refine recv.bind fun taken => .pointwise fun state given => ?_
      obtain ⟨given,rfl⟩ := given
      cases taken with
      | remote msg => exact message msg given (Or.inl waiting)
      | ctrlC => exact .panic explicit
      | key => exact .panic explicit
    · split
      · rename_i started idle
        exact prompts (Bool.eq_false_iff.mpr started) idle
      · rename_i busy
        refine recv.bind fun taken => .pointwise fun state given => ?_
        obtain ⟨given,rfl⟩ := given
        cases taken with
        | remote msg => exact message msg given (Or.inr busy)
        | ctrlC => exact (cancels given).bind fun _ => .pure fun _ _ => trivial
        | key => exact .panic explicit
  refine turned.bind fun turn => ?_
  cases turn with
  | handled => exact .pure fun _ _ => trivial
  | begun line => exact .pure fun _ _ => trivial
  | closed => exact .pure fun _ _ => trivial

theorem oneLoop_free (busy : endpoint.handler.waitingForRemote.isSome ∨
      ¬(endpoint.handler.waitingFor.card = 0 ∧ endpoint.handler.waitingForEof.card = 0))
    (distinct : inputs.order.Nodup) (listed : ∀ pid ∈ inputs.order, pid ∈ endpoint.jobs)
    (named : ∀ remoteId commandId editId name data,
      inputs.recv = .ok (.remote ⟨remoteId,.editRequest commandId editId name data⟩) → commandId ∈ endpoint.jobs) :
    oneLoop inputs endpoint ≠ .error (.expect "process not running") := by
  have looped : Triple NotRunning (· = endpoint) (oneLoop inputs) fun _ _ => True := by
    refine oneLoop_rule nofun ?_ ?_ ?_
    · intro started idle
      rw [started] at busy
      exact absurd idle (busy.resolve_left nofun)
    · intro msg given _
      refine receive_free.weaken ?_
      intro state same commandId editId name data shape
      obtain ⟨remoteId,message⟩ := msg
      obtain rfl := same
      obtain rfl : message = _ := shape
      exact named remoteId commandId editId name data given
    · intro _
      refine (cancelAll_free distinct).weaken ?_
      intro state same
      exact same ▸ listed
  exact fun panics => looped.panics rfl panics rfl

end Shell

namespace Session
variable {session after : Session} {inputs : Inputs}

theorem begunCommands_append (sent more : List Request) :
    begunCommands (sent ++ more) = begunCommands sent ++ begunCommands more := List.filterMap_append ..

theorem reportedCommands_append (received more : List RemoteResponse) :
    reportedCommands (received ++ more) = reportedCommands received ++ reportedCommands more :=
  List.filterMap_append ..

theorem begunCommands_idle {more : List Request} (idle : ∀ request ∈ more, Shell.Idle request) :
    begunCommands more = [] := by
  refine List.filterMap_eq_nil_iff.mpr fun request member => ?_
  rcases idle request member with given | given
  · obtain ⟨id,same⟩ := given
    rw [same]
    rfl
  · obtain ⟨editId,data,same⟩ := given
    rw [same]
    rfl

theorem begunCommands_line {line : Line} {lo hi : Nat} {more : List Request}
    (sends : ∀ request ∈ more, line.Sends lo hi request.message) {pid : ProcessId}
    (begun : pid ∈ begunCommands more) : ∃ job ∈ line.all, job.id = pid := by
  obtain ⟨request,member,begins⟩ := List.mem_filterMap.mp begun
  have sent := sends request member
  revert begins
  generalize request.message = message at sent
  intro begins
  cases sent with
  | job blockFor job listed blocks => exact ⟨job,listed,Option.some.inj begins⟩
  | file => cases begins
  | remote => cases begins
  | pipe => cases begins

/-- Every process that the backend may still report is waited for. -/
def Counted (session : Session) : Prop :=
  ∀ pid, session.Outstanding pid → pid ∈ session.endpoint.handler.waitingFor

theorem waitingFor_idle (idle : ¬session.Awaits) : session.endpoint.handler.waitingFor = ∅ := by
  have both := not_not.mp (not_or.mp idle).2
  exact Finset.card_eq_zero.mp both.1

theorem Counted.quiet (counted : session.Counted)
    (begun : begunCommands after.endpoint.sent = begunCommands session.endpoint.sent)
    (reported : ∀ pid, pid ∈ reportedCommands session.received → pid ∈ reportedCommands after.received)
    (waiting : after.endpoint.handler.waitingFor = session.endpoint.handler.waitingFor) : after.Counted := by
  intro pid outstanding
  rw [waiting]
  exact counted pid ⟨begun ▸ outstanding.1,fun given => outstanding.2 (reported pid given)⟩

theorem turns_counted (counted : session.Counted) (turns : session.Turns inputs after) : after.Counted := by
  cases turns with
  | prompt line endpoint idle read =>
    intro pid outstanding
    have begins := Shell.readLine_begins read
    obtain ⟨more,appended,sends⟩ := begins.sent
    have begun := outstanding.1
    rw [appended,begunCommands_append] at begun
    rcases List.mem_append.mp begun with old | new
    · have listed := counted pid ⟨old,outstanding.2⟩
      rw [waitingFor_idle idle] at listed
      exact absurd listed (Finset.notMem_empty pid)
    · obtain ⟨job,listed,rfl⟩ := begunCommands_line sends new
      rw [begins.waitingFor]
      rcases List.mem_append.mp listed with step | last
      · exact Finset.mem_insert.mpr (Or.inr (List.mem_toFinset.mpr (List.mem_map_of_mem step)))
      · rw [List.mem_singleton.mp last]
        exact Finset.mem_insert_self ..
  | message msg endpoint awaits given handled =>
    have kept (pid : ProcessId) (reported : pid ∈ reportedCommands session.received) :
        pid ∈ reportedCommands (session.received ++ [msg.message]) := by
      rw [reportedCommands_append]
      exact List.mem_append_left _ reported
    cases receive_receipt handled with
    | done remoteId id exitCode listed =>
      intro pid outstanding
      have reported := outstanding.2
      simp only [reportedCommands_append,List.mem_append,not_or] at reported
      refine Finset.mem_erase.mpr ⟨fun same => reported.2 ?_,counted pid ⟨outstanding.1,reported.1⟩⟩
      rw [same]
      exact List.mem_singleton.mpr rfl
    | edited remoteId commandId editId name data parent newData shown told job =>
      refine counted.quiet ?_ kept rfl
      exact (begunCommands_append _ _).trans (List.append_nil _)
    | ready => exact counted.quiet rfl kept rfl
    | gathered => exact counted.quiet rfl kept rfl
    | shown => exact counted.quiet rfl kept rfl
    | finished => exact counted.quiet rfl kept rfl
    | closed => exact counted.quiet rfl kept rfl
  | interrupt endpoint awaits given cancelled =>
    obtain ⟨⟨_,more,sent,idle⟩,handler⟩ := Shell.cancelAll_ok cancelled
    refine counted.quiet ?_ (fun _ => id) ?_
    · change begunCommands endpoint.sent = _
      rw [sent,begunCommands_append,begunCommands_idle idle,List.append_nil]
    · exact congrArg StackedRemotes.waitingFor handler

theorem run_counted {allowed : Session → Inputs → Prop} {trace : List Inputs}
    (run : (system.restrict allowed).Run trace session) : session.Counted := by
  refine run.invariant (fun _ session => session.Counted) ?_ ?_
  · intro session start pid outstanding
    obtain rfl := start
    exact absurd outstanding.1 List.not_mem_nil
  · intro _ session inputs after _ counted taken
    exact turns_counted counted (next_ok taken.1).2

/-- Every process that is waited for is a job, and no event that a conforming backend or the
user can give the next turn finds one that is not. -/
structure Interruptible (session : Session) : Prop where
  jobs : ∀ pid ∈ session.endpoint.handler.waitingFor, pid ∈ session.endpoint.jobs
  survives : ∀ inputs, session.Awaits → session.Ordered inputs → session.Conforms inputs →
    Shell.oneLoop inputs session.endpoint ≠ .error (.expect "process not running")

/-- No Ctrl-C is handled while processes are waited for. -/
def Uninterrupted (session : Session) (inputs : Inputs) : Prop :=
  match inputs.recv with
  | .ok .ctrlC => session.endpoint.handler.waitingFor = ∅
  | _ => True

instance (session : Session) : (inputs : Inputs) → Decidable (session.Uninterrupted inputs)
  | ⟨_,_,.ok .ctrlC,_,_⟩ => decEq session.endpoint.handler.waitingFor ∅
  | ⟨_,_,.ok .key,_,_⟩ => isTrue trivial
  | ⟨_,_,.ok (.remote _),_,_⟩ => isTrue trivial
  | ⟨_,_,.error _,_,_⟩ => isTrue trivial

theorem interruptible_of (counted : session.Counted)
    (jobs : ∀ pid ∈ session.endpoint.handler.waitingFor, pid ∈ session.endpoint.jobs) : session.Interruptible where
  jobs := jobs
  survives := by
    intro inputs awaits ordered conforms
    refine Shell.oneLoop_free awaits ordered.1 ?_ ?_
    · exact fun pid member => jobs pid (ordered.2 ▸ List.mem_toFinset.mpr member)
    · intro remoteId commandId editId name data given
      unfold Conforms at conforms
      rw [given] at conforms
      exact jobs commandId (counted commandId (conforms awaits))

/-- A step keeps the jobs that are waited for exactly when it is no interrupt of them. -/
theorem turns_jobs (ordered : session.Ordered inputs)
    (jobs : ∀ pid ∈ session.endpoint.handler.waitingFor, pid ∈ session.endpoint.jobs)
    (turns : session.Turns inputs after) :
    (∀ pid ∈ after.endpoint.handler.waitingFor, pid ∈ after.endpoint.jobs) ↔ session.Uninterrupted inputs := by
  unfold Uninterrupted
  cases turns with
  | prompt line endpoint idle read =>
    have listed := Shell.readLine_listed read
    refine ⟨fun _ => ?_,fun _ pid waiting => ?_⟩
    · split
      · exact waitingFor_idle idle
      · trivial
    · rw [(Shell.readLine_begins read).waitingFor] at waiting
      rcases Finset.mem_insert.mp waiting with rfl | step
      · exact listed line.directory (List.mem_append_right _ (List.mem_singleton.mpr rfl))
      · obtain ⟨job,member,rfl⟩ := List.mem_map.mp (List.mem_toFinset.mp step)
        exact listed job (List.mem_append_left _ member)
  | message msg endpoint awaits given handled =>
    rw [given]
    refine ⟨fun _ => trivial,fun _ pid waiting => ?_⟩
    have same : Same session.endpoint endpoint := (same_spared.receive _ _).after handled
    have fewer : pid ∈ session.endpoint.handler.waitingFor := by
      cases receive_receipt handled with
      | done => exact (Finset.mem_erase.mp waiting).2
      | edited => exact waiting
      | ready => exact waiting
      | gathered => exact waiting
      | shown => exact waiting
      | finished => exact waiting
      | closed => exact waiting
    exact same.2 ▸ jobs pid fewer
  | interrupt endpoint awaits given cancelled =>
    rw [given]
    have handler := (Shell.cancelAll_ok cancelled).2
    change (∀ pid ∈ endpoint.handler.waitingFor, pid ∈ endpoint.jobs) ↔ session.endpoint.handler.waitingFor = ∅
    rw [handler]
    constructor
    · intro listed
      refine Finset.eq_empty_of_forall_notMem fun pid waiting => ?_
      have cancels : pid ∈ inputs.order := List.mem_toFinset.mp (ordered.2 ▸ waiting)
      exact Shell.cancelAll_jobs cancelled pid cancels (listed pid waiting)
    · intro none pid waiting
      rw [none] at waiting
      exact absurd waiting (Finset.notMem_empty pid)

/-- With a conforming backend every state of a run is interruptible exactly when no Ctrl-C
came while processes were waited for. -/
theorem interruptible_iff {trace : List Inputs} (run : (system.restrict Conforms).Run trace session) :
    (∀ before after middle, trace = before ++ after → (system.restrict Conforms).Run before middle →
      middle.Interruptible) ↔ ((system.restrict Conforms).restrict Uninterrupted).Run trace session := by
  refine System.Run.holds_iff ((System.ofPartial_deterministic new next).restrict _) ?_ ?_ run
  · intro session start
    refine interruptible_of (run_counted (.initial start)) ?_
    obtain rfl := start
    exact fun pid member => absurd member (Finset.notMem_empty pid)
  · intro trace session inputs after run interruptible taken
    obtain ⟨ordered,turns⟩ := next_ok taken.1
    have jobs := turns_jobs ordered interruptible.jobs turns
    refine ⟨fun given => jobs.mp given.jobs,fun given => ?_⟩
    exact interruptible_of (run_counted (.step run taken)) (jobs.mpr given)

def sleeping : Plan := ⟨[.pipe,.pipe,.pipe,.remote ⟨0⟩ (.run (.unknown "sleep" ["9"]) ⟨0,2,0,1⟩)],some 2,0,0,
  [some .stdout,some .stderr]⟩

def given (event : Event) (order : List ProcessId) : Inputs :=
  ⟨.working,fun _ => .ok (),.ok event,fun _ => .ok (.ok sleeping),order⟩

def interrupt : Inputs := given .ctrlC [⟨3⟩,⟨7⟩]

def begun : List Inputs := [given (.remote ⟨0,.remoteReady ⟨"localhost","nak","/"⟩⟩) [],given .key []]

theorem interruptible_done : ∃ trace session, (system.restrict Conforms).Run trace session ∧ session.Awaits ∧
    (∃ inputs ∈ trace, inputs.recv = .ok .ctrlC) ∧
    ∀ before after middle, trace = before ++ after → (system.restrict Conforms).Run before middle →
      middle.Interruptible := by
  obtain ⟨session,run,awaits⟩ := System.ends_run new next
    (fun session inputs => session.Conforms inputs ∧ session.Uninterrupted inputs) Awaits
    (show System.ends new next _ _ (begun ++ [given (.remote ⟨0,.commandDone ⟨3⟩ 0⟩) [⟨3⟩,⟨7⟩],
      given (.remote ⟨0,.commandDone ⟨7⟩ 0⟩) [⟨7⟩],given .ctrlC []]) = true by decide +kernel)
  have conforming := run.restricted.unrestricted
  exact ⟨_,session,conforming,awaits,⟨given .ctrlC [],by simp,rfl⟩,(interruptible_iff conforming).mpr run.restricted⟩

/-- The second Ctrl-C comes while the first has not taken effect. -/
theorem interruptible_fails : ∃ trace session, (system.restrict Conforms).Run trace session ∧
    trace = begun ++ [interrupt] ∧ session.Awaits ∧ session.Ordered interrupt ∧
    Shell.oneLoop interrupt session.endpoint = .error (.expect "process not running") ∧ ¬session.Interruptible := by
  obtain ⟨session,run,awaits,ordered,panics⟩ := System.ends_run new next Conforms
    (fun session => session.Awaits ∧ session.Ordered interrupt ∧
      (Shell.oneLoop interrupt session.endpoint).panic? = some (.expect "process not running"))
    (show System.ends new next _ _ (begun ++ [interrupt]) = true by decide +kernel)
  have crash := Outcome.panic?_eq_some.mp panics
  refine ⟨_,session,run,rfl,awaits,ordered,crash,fun interruptible => ?_⟩
  exact interruptible.survives interrupt awaits ordered trivial crash

end Session
end Nak
