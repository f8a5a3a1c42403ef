import Nak.ExecPending

/-! The output pipes of the commands that have been reported. A command gives its write ends
away when it is run; a command that was edited and one that was refused never do, so whoever
reads their pipes later opens pipes whose write ends stay in `open_handles`. -/
namespace Nak.ExecInternal
open Library Action
variable {os : Os} {exec next final state : ExecInternal} {event : ExecEvent} {pid : ProcessId} {cmd : RunCmd}
  {trace more : List (Os × ExecEvent)} {label : Os × ExecEvent} {pipe : GenericPipe}

def Held (exec : ExecInternal) (pipe : GenericPipe) : Prop :=
  ∃ read output, exec.openHandles.lookup pipe = some ⟨read,some output⟩

/-- The command was enqueued for the pid when the executor was in the state. -/
def EnqueuedAt (trace : List (Os × ExecEvent)) (pid : ProcessId) (cmd : RunCmd) (state : ExecInternal) : Prop :=
  ∃ before os blockFor after, trace = before ++ (os,.enqueue pid cmd blockFor) :: after ∧ system.Run before state

def Reported (trace : List (Os × ExecEvent)) (exec : ExecInternal) (pid : ProcessId) (cmd : RunCmd) : Prop :=
  ∃ state, EnqueuedAt trace pid cmd state ∧ reports pid state < reports pid exec

/-- No output pipe of a reported command has its write end in `open_handles`, now or ever
after, whatever the events are. -/
def Released (trace : List (Os × ExecEvent)) (exec : ExecInternal) : Prop :=
  ∀ pid cmd, Reported trace exec pid cmd → ∀ pipe, cmd.pipes.output pipe →
    ∀ more final, system.Run (trace ++ more) final → ¬Held final pipe

/-- The last command enqueued for the pid. -/
def Given (trace : List (Os × ExecEvent)) (pid : ProcessId) (cmd : RunCmd) : Prop :=
  ∃ before os blockFor after, trace = before ++ (os,.enqueue pid cmd blockFor) :: after ∧
    ∀ label ∈ after, ∀ cmd blockFor, label.2 ≠ .enqueue pid cmd blockFor

/-- A command that the event refuses, or whose edit it ends, has no write end left to
hand out. -/
structure Releases (trace : List (Os × ExecEvent)) (exec : ExecInternal) (label : Os × ExecEvent) : Prop where
  refused : ∀ pid cmd blockFor, label.2 = .enqueue pid cmd blockFor →
    (∃ entry ∈ blockFor.entries, exec.machine.Refuses entry) → HandsOut exec cmd.pipes
  edited : ∀ pid cmd, Completes exec label.2 pid → exec.machine.running.lookup pid = some .awaitingEdit →
    Given trace pid cmd → HandsOut exec cmd.pipes

theorem taken_forever (run : system.Run trace exec) (later : system.Run (trace ++ more) final) :
    KeepsTaken exec final := by
  refine run.onward system_deterministic ?_ later
  intro trace exec label next _ taken
  exact handle_taken taken

theorem Taken.not_held (taken : Taken exec.openHandles pipe) : ¬Held exec pipe := by
  intro held
  obtain ⟨read,lookup⟩ := taken
  obtain ⟨read',output,found⟩ := held
  rw [lookup] at found
  cases found

theorem enqueuedAt_step : EnqueuedAt (trace ++ [label]) pid cmd state ↔ EnqueuedAt trace pid cmd state ∨
    (∃ os blockFor, label = (os,.enqueue pid cmd blockFor)) ∧ system.Run trace state := by
  constructor
  · intro enqueued
    obtain ⟨before,os,blockFor,after,shape,run⟩ := enqueued
    rcases List.eq_nil_or_concat after with rfl | ⟨init,last,rfl⟩
    · obtain ⟨rfl,same⟩ := List.append_inj' shape rfl
      exact Or.inr ⟨⟨os,blockFor,List.singleton_inj.mp same⟩,run⟩
    · rw [List.concat_eq_append,← List.cons_append,← List.append_assoc] at shape
      obtain ⟨rfl,_⟩ := List.append_inj' shape rfl
      exact Or.inl ⟨before,os,blockFor,init,rfl,run⟩
  · intro either
    rcases either with ⟨before,os,blockFor,after,rfl,run⟩ | ⟨⟨os,blockFor,rfl⟩,run⟩
    · exact ⟨before,os,blockFor,after ++ [label],by simp,run⟩
    · exact ⟨trace,os,blockFor,[],rfl,run⟩

/-- Every enqueued command is pending, and is the one its pid runs, or has been reported
and has handed out its write ends. -/
def Accounted (trace : List (Os × ExecEvent)) (exec : ExecInternal) : Prop :=
  ∀ pid cmd state, EnqueuedAt trace pid cmd state →
    (reports pid exec = reports pid state ∧ Pending exec pid cmd ∧ Given trace pid cmd) ∨
      (reports pid state < reports pid exec ∧ HandsOut exec cmd.pipes)

def KeepsReports (exec next : ExecInternal) : Prop := ∀ pid, reports pid exec ≤ reports pid next

instance : IsPreorder ExecInternal KeepsReports where
  refl _ _ := le_rfl
  trans _ _ _ first second pid := (first pid).trans (second pid)

theorem reports_forever (run : system.Run trace exec) (later : system.Run (trace ++ more) final) :
    KeepsReports exec final := by
  refine run.onward system_deterministic ?_ later
  intro trace exec label next run taken pid
  have handled := handle_handled (reachable_machine run.reachable) (reachable_named run.reachable) taken
  rw [reports,reports,handled.appended,results,results,List.filterMap_append,List.length_append]
  exact Nat.le_add_right _ _

private theorem Given.step (given : Given trace pid cmd) (other : ∀ cmd blockFor, label.2 ≠ .enqueue pid cmd blockFor) :
    Given (trace ++ [label]) pid cmd := by
  obtain ⟨before,os,blockFor,after,rfl,last⟩ := given
  refine ⟨before,os,blockFor,after ++ [label],by simp,?_⟩
  intro later member
  rcases List.mem_append.mp member with old | new
  · exact last later old
  · exact List.mem_singleton.mp new ▸ other

theorem Accounted.step (accounted : Accounted trace exec) (run : system.Run trace exec)
    (taken : system.step exec label next) (releases : Releases trace exec label) :
    Accounted (trace ++ [label]) next := by
  have inv := reachable_machine run.reachable
  have kept := handle_taken taken
  intro pid cmd state enqueued
  rcases enqueuedAt_step.mp enqueued with old | ⟨⟨os,blockFor,rfl⟩,before⟩
  · rcases accounted pid cmd state old with ⟨same,pending,given⟩ | ⟨more,hands⟩
    · have other (cmd' : RunCmd) (blockFor : OrderedMap ProcessId Condition) :
          label.2 ≠ .enqueue pid cmd' blockFor := by
        intro arrives
        change handle label.1 label.2 exec = .ok next at taken
        rw [arrives] at taken
        exact (handle_enqueued inv taken).1 pending.known
      rcases handle_pending inv taken pending with ⟨quiet,pending⟩ | ⟨sent,hands | ⟨completes,awaits⟩⟩
      · exact Or.inl ⟨quiet.trans same,pending,given.step other⟩
      · exact Or.inr ⟨same ▸ sent,hands⟩
      · exact Or.inr ⟨same ▸ sent,(releases.edited pid cmd completes awaits given).kept kept⟩
    · exact Or.inr ⟨more.trans_le (reports_forever run (.step run taken) pid),hands.kept kept⟩
  · obtain rfl := before.unique system_deterministic run
    change handle os (.enqueue pid cmd blockFor) state = .ok next at taken
    rcases (handle_enqueued inv taken).2 with ⟨quiet,pending⟩ | ⟨sent,either⟩
    · exact Or.inl ⟨quiet,pending,trace,os,blockFor,[],rfl,by simp⟩
    · rcases either with hands | refused
      · exact Or.inr ⟨sent,hands⟩
      · exact Or.inr ⟨sent,(releases.refused pid cmd blockFor rfl refused).kept kept⟩

/-- In every run whose steps all release, the executor has let go of the output pipes of
every command it has reported, for good. -/
theorem reported_released (run : system.Run trace exec)
    (releases : ∀ before label after state, trace = before ++ label :: after → system.Run before state →
      Releases before state label) : Released trace exec := by
  have accounted : Accounted trace exec := by
    induction run with
    | initial start =>
      intro pid cmd state enqueued
      obtain ⟨before,os,blockFor,after,shape,_⟩ := enqueued
      simp at shape
    | step earlier taken ih =>
      rename_i trace exec label next
      have before := ih fun before other after state shape run =>
        releases before other (after ++ [label]) state (by rw [shape]; simp) run
      exact before.step earlier taken (releases trace label [] exec rfl earlier)
  intro pid cmd reported pipe output more final later
  obtain ⟨state,enqueued,sent⟩ := reported
  rcases accounted pid cmd state enqueued with ⟨same,_⟩ | ⟨_,hands⟩
  · omega
  · exact Taken.not_held (taken_forever run later pipe (hands pipe output))

private theorem beginRead_holds (absent : pipe ∉ exec.openHandles) :
    ∃ next, handle .working (.pipeMessage pipe .beginRead) exec = .ok next ∧ Held next pipe := by
  have opened : readEnd .working pipe.toRead exec = .ok (.ok (.fromPipe exec.opened pipe),{ exec with
      opened := exec.opened + 1
      openHandles := exec.openHandles.insert pipe ⟨none,some (.fromPipe exec.opened pipe)⟩ }) := by
    unfold readEnd
    rw [get_bind,if_neg (show pipe.toRead.toGeneric ∉ exec.openHandles from absent)]
    rfl
  obtain ⟨next,done,same⟩ : ∃ next, pipeMessage .working pipe .beginRead exec = .ok (.ok (),next) ∧
      next.openHandles = exec.openHandles.insert pipe ⟨none,some (.fromPipe exec.opened pipe)⟩ := by
    simp only [pipeMessage]
    rw [ok_bind opened]
    exact ⟨_,rfl,rfl⟩
  exact ⟨next,handle_ok.mpr done,none,_,by rw [same]; exact Finmap.lookup_insert _⟩

/-- A pipe that nothing can make the executor hold is one whose write end it has handed out. -/
theorem taken_iff_never_held (run : system.Run trace exec) : Taken exec.openHandles pipe ↔
    ∀ more final, system.Run (trace ++ more) final → ¬Held final pipe := by
  constructor
  · intro taken more final later
    exact Taken.not_held (taken_forever run later pipe taken)
  · intro never
    cases found : exec.openHandles.lookup pipe with
    | none =>
      obtain ⟨next,taken,held⟩ := beginRead_holds (Finmap.lookup_eq_none.mp found)
      have later : system.Run (trace ++ [(.working,.pipeMessage pipe .beginRead)]) next := .step run taken
      exact absurd held (never _ next later)
    | some pair =>
      obtain ⟨read,_ | output⟩ := pair
      · exact ⟨read,found⟩
      · exact absurd ⟨read,output,found⟩ (never [] exec (by rwa [List.append_nil]))

/-- A step after which the property holds met the condition, as far as no command that is
waiting shares an output pipe with the one whose edit ended. -/
theorem releases_needed (run : system.Run trace exec) (taken : system.step exec label next)
    (released : Released (trace ++ [label]) next) :
    (∀ pid cmd blockFor, label.2 = .enqueue pid cmd blockFor →
      (∃ entry ∈ blockFor.entries, exec.machine.Refuses entry) → HandsOut exec cmd.pipes) ∧
    ∀ pid cmd, Completes exec label.2 pid → Given trace pid cmd → ∀ pipe, cmd.pipes.output pipe →
      Taken exec.openHandles pipe ∨ ∃ other cmd', Requested exec label.2 other cmd' ∧ cmd'.pipes.output pipe := by
  have inv := reachable_machine run.reachable
  have after : system.Run (trace ++ [label]) next := .step run taken
  constructor
  · intro pid cmd blockFor arrives refused
    obtain ⟨os,event⟩ := label
    subst arrives
    have enqueued : EnqueuedAt (trace ++ [(os,.enqueue pid cmd blockFor)]) pid cmd exec :=
      enqueuedAt_step.mpr (Or.inr ⟨⟨os,blockFor,rfl⟩,run⟩)
    obtain ⟨sent,same⟩ := handle_refused taken refused
    intro pipe output
    rw [← same]
    exact (taken_iff_never_held after).mpr (released pid cmd ⟨exec,enqueued,sent⟩ pipe output)
  · intro pid cmd completes given pipe output
    obtain ⟨before,os,blockFor,later,rfl,_⟩ := given
    obtain ⟨state,_,earlier,_⟩ := run.cut
    have enqueued : EnqueuedAt (before ++ (os,.enqueue pid cmd blockFor) :: later ++ [label]) pid cmd state :=
      ⟨before,os,blockFor,later ++ [label],by simp,earlier⟩
    have sent := (reports_forever earlier run pid).trans_lt (completes_reports inv taken completes)
    have hands := (taken_iff_never_held after).mpr (released pid cmd ⟨state,enqueued,sent⟩ pipe output)
    have handled := handle_handled inv (reachable_named run.reachable) taken
    rcases handled.taken pipe hands with old | ⟨input,path,opens⟩ | ⟨other,cmd',requested,shared,_⟩
    · exact Or.inl old
    · rw [opens] at completes
      exact completes.elim
    · exact Or.inr ⟨other,cmd',requested,shared⟩

private def listing : Os × ExecEvent := (.working,.enqueue ⟨0⟩ ⟨.getDirectory,⟨1⟩,⟨2⟩,⟨3⟩⟩ ∅)

private def watching : Os × ExecEvent := (.working,.pipeMessage ⟨2⟩ .beginRead)

private theorem fed (labels : List (Os × ExecEvent))
    (ok : labels.foldlM (fun exec label => handle label.1 label.2 exec) new = .ok exec) : system.Run labels exec :=
  System.feed_run new _ ok

private theorem reported_since {before after : List (Os × ExecEvent)} {blockFor : OrderedMap ProcessId Condition}
    (run : system.Run before state) (sent : reports pid state < reports pid exec) :
    Reported (before ++ (os,.enqueue pid cmd blockFor) :: after) exec pid cmd :=
  ⟨state,⟨before,os,blockFor,after,rfl,run⟩,sent⟩

/-- The directory is listed, and the reader that begins afterwards finds no write end. -/
theorem reported_released_listing : ∃ exec, system.Run [listing,watching] exec ∧
    Reported [listing,watching] exec ⟨0⟩ ⟨.getDirectory,⟨1⟩,⟨2⟩,⟨3⟩⟩ ∧ Released [listing,watching] exec := by
  obtain ⟨exec,ok,sent⟩ : ∃ exec, [listing,watching].foldlM (fun exec label => handle label.1 label.2 exec) new =
    .ok exec ∧ reports ⟨0⟩ new < reports ⟨0⟩ exec := ⟨_,rfl,by decide⟩
  refine ⟨exec,fed _ ok,reported_since (.initial rfl) sent,reported_released (fed _ ok) ?_⟩
  intro before label after state shape run
  have member : label ∈ [listing,watching] := by simp [shape]
  constructor
  · intro pid cmd blockFor arrives refused
    rcases List.mem_pair.mp member with rfl | rfl
    · obtain ⟨_,_,rfl⟩ := ExecEvent.enqueue.inj arrives
      obtain ⟨entry,listed,_⟩ := refused
      cases listed
    · cases arrives
  · intro pid cmd completes
    rcases List.mem_pair.mp member with rfl | rfl
    · exact completes.elim
    · exact completes.elim

private def editing : Os × ExecEvent := (.working,.enqueue ⟨0⟩ ⟨.edit "notes",⟨1⟩,⟨2⟩,⟨3⟩⟩ ∅)

private def edited : Os × ExecEvent := (.working,.editComplete 0 [])

private def contradicted : Os × ExecEvent :=
  (.working,.enqueue ⟨1⟩ ⟨.getDirectory,⟨1⟩,⟨4⟩,⟨5⟩⟩ (AList.insert ⟨0⟩ (some .failure) ∅))

private def watchingRefused : Os × ExecEvent := (.working,.pipeMessage ⟨4⟩ .beginRead)

/-- An edit is complete and reported, a command whose condition has failed is reported, and
the write end of its output stays with whoever begins to read it. -/
theorem reported_held :
    (∃ exec, system.Run [editing,edited,watching] exec ∧ ¬Released [editing,edited,watching] exec) ∧
    (∃ exec, system.Run [editing,watching,edited] exec ∧ ¬Released [editing,watching,edited] exec) ∧
    ∃ exec, system.Run [listing,contradicted,watchingRefused] exec ∧
      ¬Released [listing,contradicted,watchingRefused] exec := by
  refine ⟨?_,?_,?_⟩
  · obtain ⟨exec,ok,sent,held⟩ : ∃ exec, [editing,edited,watching].foldlM
        (fun exec label => handle label.1 label.2 exec) new = .ok exec ∧ reports ⟨0⟩ new < reports ⟨0⟩ exec ∧
        Held exec ⟨2⟩ := ⟨_,rfl,by decide,_,_,rfl⟩
    refine ⟨exec,fed _ ok,fun released => ?_⟩
    exact released ⟨0⟩ _ (reported_since (.initial rfl) sent) ⟨2⟩ (Or.inl rfl) [] exec (fed _ ok) held
  · obtain ⟨exec,ok,sent,held⟩ : ∃ exec, [editing,watching,edited].foldlM
        (fun exec label => handle label.1 label.2 exec) new = .ok exec ∧ reports ⟨0⟩ new < reports ⟨0⟩ exec ∧
        Held exec ⟨2⟩ := ⟨_,rfl,by decide,_,_,rfl⟩
    refine ⟨exec,fed _ ok,fun released => ?_⟩
    exact released ⟨0⟩ _ (reported_since (.initial rfl) sent) ⟨2⟩ (Or.inl rfl) [] exec (fed _ ok) held
  · obtain ⟨state,exec,before,ok,sent,held⟩ : ∃ state exec, [listing].foldlM
        (fun exec label => handle label.1 label.2 exec) new = .ok state ∧ [listing,contradicted,watchingRefused].foldlM
        (fun exec label => handle label.1 label.2 exec) new = .ok exec ∧ reports ⟨1⟩ state < reports ⟨1⟩ exec ∧
        Held exec ⟨4⟩ := ⟨_,_,rfl,rfl,by decide,_,_,rfl⟩
    refine ⟨exec,fed _ ok,fun released => ?_⟩
    exact released ⟨1⟩ _ (reported_since (fed _ before) sent) ⟨4⟩ (Or.inl rfl) [] exec (fed _ ok) held

end Nak.ExecInternal
