import Nak.LineRequests
import Nak.Library.Log

/-! The order in which a line asks for things. Every end of a pipe is asked for once, and a
request names only commands that were begun and files that were opened before it. -/
namespace Nak
open Library Action Session

/-- The pipes whose read end the request takes; a file that is opened has none to give. -/
def RemoteRequest.inputs : RemoteRequest → List GenericPipe
  | .beginCommand _ process _ => [⟨process.stdin⟩]
  | .openOutputFile id _ => [⟨id⟩]
  | .pipe ⟨id,.beginRead⟩ => [⟨id⟩]
  | _ => []

def RemoteRequest.outputs : RemoteRequest → List GenericPipe
  | .beginCommand _ process _ => [⟨process.stdout⟩,⟨process.stderr⟩]
  | _ => []

structure Proper (before : List Request) (request : Request) : Prop where
  inputs : Unclaimed (fun request : Request => request.message.inputs) before request
  outputs : Unclaimed (fun request : Request => request.message.outputs) before request
  commands : Unclaimed (fun request : Request => request.message.begins?.toList) before request
  apart : request.message.outputs.Nodup
  blocks : ∀ blockFor process command, request.message = .beginCommand blockFor process command →
    ∀ entry ∈ blockFor.entries, entry.1 ∈ begunCommands before ∧ entry.2 = none
  file : ∀ id path, request.message = .openOutputFile id path → ∀ other ∈ before, ⟨id⟩ ∉ other.message.outputs

/-- The ids in the request have been drawn. -/
structure RemoteRequest.Below (hi : Nat) (message : RemoteRequest) : Prop where
  inputs : ∀ pipe ∈ message.inputs, pipe.val < hi
  outputs : ∀ pipe ∈ message.outputs, pipe.val < hi
  commands : ∀ pid ∈ message.begins?, pid.val < hi

theorem RemoteRequest.Below.mono {hi hi' : Nat} {message : RemoteRequest} (below : message.Below hi)
    (later : hi ≤ hi') :
    message.Below hi' where
  inputs pipe member := (below.inputs pipe member).trans_le later
  outputs pipe member := (below.outputs pipe member).trans_le later
  commands pid member := (below.commands pid member).trans_le later

theorem Proper.plain {before : List Request} {request : Request} (inputs : request.message.inputs = [])
    (outputs : request.message.outputs = []) (command : request.message.begins? = none) : Proper before request where
  inputs := by simp [Unclaimed,inputs]
  outputs := by simp [Unclaimed,outputs]
  commands := by simp [Unclaimed,command]
  apart := by simp [outputs]
  blocks blockFor process other shape := by simp [shape,RemoteRequest.begins?] at command
  file id path shape := by simp [shape,RemoteRequest.inputs] at inputs

theorem RemoteRequest.Below.plain {hi : Nat} {message : RemoteRequest} (inputs : message.inputs = [])
    (outputs : message.outputs = []) (command : message.begins? = none) : message.Below hi where
  inputs := by simp [inputs]
  outputs := by simp [outputs]
  commands := by simp [command]

theorem mem_begunCommands {sent : List Request} {pid : ProcessId} :
    pid ∈ begunCommands sent ↔ ∃ request ∈ sent, request.message.begins? = some pid := List.mem_filterMap

namespace Shell
variable {trans : Transport Error} {inputs : Inputs} {endpoint next start : Endpoint StackedRemotes}

structure Ordered (endpoint : Endpoint StackedRemotes) : Prop where
  proper : Guarded Proper endpoint.sent
  below : ∀ request ∈ endpoint.sent, request.message.Below endpoint.ids.nextId

namespace Ordered

theorem send (ordered : Ordered endpoint) {request : Request} (proper : Proper endpoint.sent request)
    (below : request.message.Below next.ids.nextId) (sent : next.sent = endpoint.sent ++ [request])
    (later : endpoint.ids.nextId ≤ next.ids.nextId) : Ordered next where
  proper := sent ▸ ordered.proper.snoc proper
  below other member := by
    rw [sent] at member
    rcases List.mem_append.mp member with old | new
    · exact (ordered.below other old).mono later
    · exact List.mem_singleton.mp new ▸ below

theorem plain (ordered : Ordered endpoint) {request : Request} (inputs : request.message.inputs = [])
    (outputs : request.message.outputs = []) (command : request.message.begins? = none)
    (sent : next.sent = endpoint.sent ++ [request]) (later : endpoint.ids.nextId ≤ next.ids.nextId) : Ordered next :=
  ordered.send (.plain inputs outputs command) (.plain inputs outputs command) sent later

theorem same (ordered : Ordered endpoint) (sent : next.sent = endpoint.sent)
    (later : endpoint.ids.nextId ≤ next.ids.nextId) : Ordered next where
  proper := sent ▸ ordered.proper
  below request member := (ordered.below request (sent ▸ member)).mono later

/-- An id that was not drawn is in no request. -/
theorem fresh_input (ordered : Ordered endpoint) {pipe : GenericPipe} (undrawn : endpoint.ids.nextId ≤ pipe.val) :
    ∀ request ∈ endpoint.sent, pipe ∉ request.message.inputs := by
  intro request member taken
  exact absurd ((ordered.below request member).inputs pipe taken) (not_lt.mpr undrawn)

theorem fresh_output (ordered : Ordered endpoint) {pipe : GenericPipe} (undrawn : endpoint.ids.nextId ≤ pipe.val) :
    ∀ request ∈ endpoint.sent, pipe ∉ request.message.outputs := by
  intro request member taken
  exact absurd ((ordered.below request member).outputs pipe taken) (not_lt.mpr undrawn)

theorem fresh_command (ordered : Ordered endpoint) {pid : ProcessId} (undrawn : endpoint.ids.nextId ≤ pid.val) :
    ∀ request ∈ endpoint.sent, pid ∉ request.message.begins?.toList := by
  intro request member begun
  exact absurd ((ordered.below request member).commands pid (Option.mem_toList.mp begun)) (not_lt.mpr undrawn)

theorem read (ordered : Ordered endpoint) {remote : RemoteId} {pipe : ReadPipe}
    (free : ∀ request ∈ endpoint.sent, pipe.toGeneric ∉ request.message.inputs) (drawn : pipe.val < next.ids.nextId)
    (sent : next.sent = endpoint.sent ++ [⟨remote.val,.pipe ⟨pipe.val,.beginRead⟩⟩])
    (later : endpoint.ids.nextId ≤ next.ids.nextId) : Ordered next := by
  refine ordered.send ⟨?_,by simp [Unclaimed,RemoteRequest.outputs],by simp [Unclaimed,RemoteRequest.begins?],
    by simp [RemoteRequest.outputs],fun _ _ _ shape => (by cases shape),fun _ _ shape => (by cases shape)⟩
      ⟨?_,by simp [RemoteRequest.outputs],by simp [RemoteRequest.begins?]⟩ sent later
  · intro other member key claimed
    obtain rfl := List.mem_singleton.mp claimed
    exact free other member
  · intro key claimed
    obtain rfl := List.mem_singleton.mp claimed
    exact drawn

theorem command (ordered : Ordered endpoint) {remote : RemoteId} {blockFor : OrderedMap ProcessId Condition}
    {pid : ProcessId} {cmd : Command} {pipes : WritePipes}
    (fresh : endpoint.ids.nextId ≤ pid.val)
    (stdin : ∀ request ∈ endpoint.sent, pipes.stdin.toGeneric ∉ request.message.inputs)
    (outputs : ∀ pipe, pipes.output pipe → ∀ request ∈ endpoint.sent, pipe ∉ request.message.outputs)
    (apart : pipes.stdout.toGeneric ≠ pipes.stderr.toGeneric)
    (blocks : ∀ entry ∈ blockFor.entries, entry.1 ∈ begunCommands endpoint.sent ∧ entry.2 = none)
    (drawn : pid.val < next.ids.nextId)
    (used : ∀ pipe, pipes.input pipe ∨ pipes.output pipe → pipe.val < next.ids.nextId)
    (sent : next.sent = endpoint.sent ++ [⟨remote.val,.beginCommand blockFor
      ⟨pid,pipes.stdin.val,pipes.stdout.val,pipes.stderr.val⟩ cmd⟩])
    (later : endpoint.ids.nextId ≤ next.ids.nextId) : Ordered next := by
  have among (pipe : GenericPipe)
      (member : pipe ∈ [(⟨pipes.stdout.val⟩ : GenericPipe),⟨pipes.stderr.val⟩]) : pipes.output pipe := by
    rcases List.mem_cons.mp member with rfl | member
    · exact Or.inl rfl
    · exact Or.inr (List.mem_singleton.mp member)
  refine ordered.send ⟨?_,?_,?_,?_,?_,fun _ _ shape => by cases shape⟩ ⟨?_,?_,?_⟩ sent later
  · intro other member key claimed
    obtain rfl := List.mem_singleton.mp claimed
    exact stdin other member
  · intro other member key claimed
    exact outputs key (among key claimed) other member
  · intro other member key claimed
    obtain rfl : key = pid := by simpa [RemoteRequest.begins?] using claimed
    exact ordered.fresh_command fresh other member
  · refine List.nodup_cons.mpr ⟨?_,List.nodup_singleton _⟩
    exact fun member => apart (List.mem_singleton.mp member)
  · intro other process command shape
    cases shape
    exact blocks
  · intro key claimed
    obtain rfl := List.mem_singleton.mp claimed
    exact used _ (Or.inl rfl)
  · intro key claimed
    exact used key (Or.inr (among key claimed))
  · intro key claimed
    obtain rfl := Option.some.inj claimed
    exact drawn

theorem file (ordered : Ordered endpoint) {remote : RemoteId} {path : String}
    (drawn : endpoint.ids.nextId < next.ids.nextId)
    (sent : next.sent = endpoint.sent ++ [⟨remote.val,.openOutputFile endpoint.ids.nextId path⟩]) : Ordered next := by
  refine ordered.send ⟨?_,by simp [Unclaimed,RemoteRequest.outputs],by simp [Unclaimed,RemoteRequest.begins?],
    by simp [RemoteRequest.outputs],fun _ _ _ shape => (by cases shape),?_⟩
    ⟨?_,by simp [RemoteRequest.outputs],by simp [RemoteRequest.begins?]⟩ sent drawn.le
  · intro other member key claimed
    obtain rfl := List.mem_singleton.mp claimed
    exact ordered.fresh_input le_rfl other member
  · intro id path shape
    obtain ⟨rfl,_⟩ := RemoteRequest.openOutputFile.inj shape
    exact ordered.fresh_output le_rfl
  · intro key claimed
    obtain rfl := List.mem_singleton.mp claimed
    exact drawn

end Ordered

/-- The ends that are left were asked for by no one, and the jobs have been begun. -/
structure Orderly (stage : Stage) (endpoint : Endpoint StackedRemotes) : Prop where
  ordered : Ordered endpoint
  reads : ∀ read ∈ readEnds stage.pipePairs, read.val < endpoint.ids.nextId ∧
    ∀ request ∈ endpoint.sent, read.toGeneric ∉ request.message.inputs
  writes : ∀ write ∈ writeEnds stage.pipePairs, write.val < endpoint.ids.nextId ∧
    ∀ request ∈ endpoint.sent, write.toGeneric ∉ request.message.outputs
  readsOnce : (readEnds stage.pipePairs).Nodup
  writesOnce : (writeEnds stage.pipePairs).Nodup
  jobs : ∀ job ∈ stage.jobs, job.id ∈ begunCommands endpoint.sent

theorem orderly_start (ordered : Ordered start) : Orderly ⟨[],[]⟩ start :=
  ⟨ordered,by simp [readEnds],by simp [writeEnds],by simp [readEnds],by simp [writeEnds],by simp⟩

namespace Orderly
variable {stage : Stage}

theorem kept (orderly : Orderly stage endpoint) (ordered : Ordered next) {more : List Request}
    (sent : next.sent = endpoint.sent ++ more) (later : endpoint.ids.nextId ≤ next.ids.nextId)
    (inputs : ∀ read ∈ readEnds stage.pipePairs, ∀ request ∈ more, read.toGeneric ∉ request.message.inputs)
    (outputs : ∀ write ∈ writeEnds stage.pipePairs, ∀ request ∈ more, write.toGeneric ∉ request.message.outputs) :
    Orderly stage next where
  ordered := ordered
  reads read left := by
    obtain ⟨drawn,free⟩ := orderly.reads read left
    refine ⟨drawn.trans_le later,fun request member => ?_⟩
    rw [sent] at member
    exact (List.mem_append.mp member).elim (free request) (inputs read left request)
  writes write left := by
    obtain ⟨drawn,free⟩ := orderly.writes write left
    refine ⟨drawn.trans_le later,fun request member => ?_⟩
    rw [sent] at member
    exact (List.mem_append.mp member).elim (free request) (outputs write left request)
  readsOnce := orderly.readsOnce
  writesOnce := orderly.writesOnce
  jobs job member := by
    rw [sent,begunCommands_append]
    exact List.mem_append_left _ (orderly.jobs job member)

theorem opened (orderly : Orderly stage endpoint) {pair : PipePair} (ordered : Ordered next)
    (drawn : next.ids.nextId = endpoint.ids.nextId + 1) {more : List Request} (sent : next.sent = endpoint.sent ++ more)
    (read : ∀ read ∈ pair.read, read.val = endpoint.ids.nextId)
    (write : ∀ write ∈ pair.write, write.val = endpoint.ids.nextId)
    (inputs : ∀ read ∈ readEnds (stage.pipePairs ++ [pair]), ∀ request ∈ more, read.toGeneric ∉ request.message.inputs)
    (outputs : ∀ request ∈ more, request.message.outputs = []) :
    Orderly { stage with pipePairs := stage.pipePairs ++ [pair] } next := by
  have later : endpoint.ids.nextId ≤ next.ids.nextId := by omega
  have reads : readEnds (stage.pipePairs ++ [pair]) = readEnds stage.pipePairs ++ pair.read.toList := by
    cases found : pair.read <;> simp [readEnds,found]
  have writes : writeEnds (stage.pipePairs ++ [pair]) = writeEnds stage.pipePairs ++ pair.write.toList := by
    cases found : pair.write <;> simp [writeEnds,found]
  have kept := orderly.kept ordered sent later
    (fun end' left => inputs end' (by rw [reads]; exact List.mem_append_left _ left))
    (fun end' _ request member => by simp [outputs request member])
  refine ⟨ordered,?_,?_,?_,?_,kept.jobs⟩
  · intro end' left
    rw [reads] at left
    rcases List.mem_append.mp left with old | new
    · exact kept.reads end' old
    · have value := read end' (Option.mem_toList.mp new)
      refine ⟨by omega,fun request member => ?_⟩
      rw [sent] at member
      rcases List.mem_append.mp member with early | late
      · exact orderly.ordered.fresh_input value.ge request early
      · exact inputs end' (by rw [reads]; exact List.mem_append_right _ new) request late
  · intro end' left
    rw [writes] at left
    rcases List.mem_append.mp left with old | new
    · exact kept.writes end' old
    · have value := write end' (Option.mem_toList.mp new)
      refine ⟨by omega,fun request member => ?_⟩
      rw [sent] at member
      rcases List.mem_append.mp member with early | late
      · exact orderly.ordered.fresh_output value.ge request early
      · simp [outputs request late]
  · rw [reads]
    refine orderly.readsOnce.append (by cases pair.read <;> simp) ?_
    intro end' old new
    exact absurd (orderly.reads end' old).1 (not_lt.mpr (read end' (Option.mem_toList.mp new)).ge)
  · rw [writes]
    refine orderly.writesOnce.append (by cases pair.write <;> simp) ?_
    intro end' old new
    exact absurd (orderly.writes end' old).1 (not_lt.mpr (write end' (Option.mem_toList.mp new)).ge)

/-- A job takes ends that were left and leaves the others. -/
theorem run (orderly : Orderly stage endpoint) {stdin : ReadPipe} {stdout stderr : WritePipe}
    {one two three : List PipePair} {pr : PlanProcess} (first : takeWrite stage.pipePairs pr.stdout = .ok (stdout,one))
    (second : takeWrite one pr.stderr = .ok (stderr,two)) (third : takeRead two pr.stdin = .ok (stdin,three))
    (remote : RemoteId) (cmd : Command) : Orderly
    ⟨three,stage.jobs ++ [⟨⟨endpoint.ids.nextId⟩,cmd,⟨stdin,stdout,stderr⟩⟩]⟩
    { endpoint with
      ids := ⟨endpoint.ids.nextId + 1⟩
      sent := endpoint.sent ++ [⟨remote.val,.beginCommand ∅
        ⟨⟨endpoint.ids.nextId⟩,stdin.val,stdout.val,stderr.val⟩ cmd⟩]
      jobs := endpoint.jobs.insert ⟨endpoint.ids.nextId⟩ remote } := by
  obtain ⟨perm₁,same₁⟩ := takeWrite_ok first
  obtain ⟨perm₂,same₂⟩ := takeWrite_ok second
  obtain ⟨perm₃,same₃⟩ := takeRead_ok third
  have reads : (readEnds stage.pipePairs).Perm (stdin :: readEnds three) := by rwa [← same₁,← same₂]
  have writes : (writeEnds stage.pipePairs).Perm (stdout :: stderr :: writeEnds three) := by
    rw [same₃]
    exact perm₁.trans (perm₂.cons stdout)
  obtain ⟨stdinOnce,readsOnce⟩ := List.nodup_cons.mp (reads.nodup_iff.mp orderly.readsOnce)
  obtain ⟨stdoutOnce,others⟩ := List.nodup_cons.mp (writes.nodup_iff.mp orderly.writesOnce)
  obtain ⟨stderrOnce,writesOnce⟩ := List.nodup_cons.mp others
  obtain ⟨stdinDrawn,stdinFree⟩ := orderly.reads stdin (reads.mem_iff.mpr (List.mem_cons_self ..))
  obtain ⟨stdoutDrawn,stdoutFree⟩ := orderly.writes stdout (writes.mem_iff.mpr (List.mem_cons_self ..))
  obtain ⟨stderrDrawn,stderrFree⟩ := orderly.writes stderr
    (writes.mem_iff.mpr (List.mem_cons_of_mem _ (List.mem_cons_self ..)))
  have generic {one two : WritePipe} (same : one.toGeneric = two.toGeneric) : one = two := by
    cases one
    cases two
    exact congrArg WritePipe.mk (GenericPipe.mk.inj same)
  have ordered := @Ordered.command _ { endpoint with
      ids := ⟨endpoint.ids.nextId + 1⟩
      sent := endpoint.sent ++ [⟨remote.val,
        .beginCommand ∅ ⟨⟨endpoint.ids.nextId⟩,stdin.val,stdout.val,stderr.val⟩ cmd⟩]
      jobs := endpoint.jobs.insert ⟨endpoint.ids.nextId⟩ remote } orderly.ordered remote ∅ ⟨endpoint.ids.nextId⟩ cmd
    ⟨stdin,stdout,stderr⟩ le_rfl stdinFree (fun pipe output => output.elim (fun same => same ▸ stdoutFree)
      fun same => same ▸ stderrFree) (fun same =>
        stdoutOnce (@generic stdout stderr same ▸ List.mem_cons_self ..)) nofun
    (Nat.lt_succ_self _) ?_ rfl (Nat.le_succ _)
  · refine ⟨ordered,?_,?_,readsOnce,writesOnce,?_⟩
    · intro read left
      obtain ⟨drawn,free⟩ := orderly.reads read (reads.mem_iff.mpr (List.mem_cons_of_mem _ left))
      refine ⟨drawn.trans (Nat.lt_succ_self _),fun request member => ?_⟩
      rcases List.mem_append.mp member with old | new
      · exact free request old
      · rw [List.mem_singleton.mp new]
        intro taken
        obtain rfl : read = stdin := ReadPipe.toGeneric_injective (List.mem_singleton.mp taken)
        exact stdinOnce left
    · intro write left
      obtain ⟨drawn,free⟩ := orderly.writes write
        (writes.mem_iff.mpr (List.mem_cons_of_mem _ (List.mem_cons_of_mem _ left)))
      refine ⟨drawn.trans (Nat.lt_succ_self _),fun request member => ?_⟩
      rcases List.mem_append.mp member with old | new
      · exact free request old
      · rw [List.mem_singleton.mp new]
        intro taken
        rcases List.mem_cons.mp taken with same | same
        · obtain rfl : write = stdout := generic same
          exact stdoutOnce (List.mem_cons_of_mem _ left)
        · obtain rfl : write = stderr := generic (List.mem_singleton.mp same)
          exact stderrOnce left
    · intro job member
      rw [begunCommands_append]
      rcases List.mem_append.mp member with old | new
      · exact List.mem_append_left _ (orderly.jobs job old)
      · rw [List.mem_singleton.mp new]
        exact List.mem_append_right _ (List.mem_singleton.mpr rfl)
  · intro pipe used
    rcases used with rfl | rfl | rfl
    · exact stdinDrawn.trans (Nat.lt_succ_self _)
    · exact stdoutDrawn.trans (Nat.lt_succ_self _)
    · exact stderrDrawn.trans (Nat.lt_succ_self _)

end Orderly

theorem runStep_orderly {stage after : Stage} {step : Step} (orderly : Orderly stage endpoint)
    (cases : StepCases trans stage endpoint step after next) : Orderly after next := by
  cases cases with
  | pipe =>
    have ordered : Ordered { endpoint with
        ids := ⟨endpoint.ids.nextId + 1⟩
        pipes := insert endpoint.ids.nextId endpoint.pipes } := orderly.ordered.same rfl (Nat.le_succ _)
    apply orderly.opened ordered rfl (List.append_nil _).symm
    · intro read some
      rw [← Option.some.inj some]
    · intro write some
      rw [← Option.some.inj some]
    · simp
    · simp
  | run ref remote cmd pr stdin stdout stderr one two three current first second third =>
    exact orderly.run first second third remote cmd
  | close ref next several ended =>
    obtain ⟨parent,remote,rfl⟩ := endRemote_ok ended
    refine orderly.kept (orderly.ordered.plain rfl rfl rfl rfl le_rfl) rfl le_rfl ?_ ?_
    · simp [RemoteRequest.inputs]
    · simp [RemoteRequest.outputs]
  | openOutputFile ref remote path current =>
    have ordered : Ordered { endpoint with
        ids := ⟨endpoint.ids.nextId + 1⟩
        pipes := insert endpoint.ids.nextId endpoint.pipes
        sent := endpoint.sent ++ [⟨remote.val,.openOutputFile endpoint.ids.nextId path⟩] } :=
      orderly.ordered.file (Nat.lt_succ_self _) rfl
    apply orderly.opened ordered rfl rfl
    · nofun
    · intro write some
      rw [← Option.some.inj some]
    · intro read left request member taken
      have old : read ∈ readEnds stage.pipePairs := by simpa [readEnds] using left
      rw [List.mem_singleton.mp member] at taken
      have value := congrArg GenericPipe.val (List.mem_singleton.mp taken)
      exact absurd (orderly.reads read old).1 (not_lt.mpr value.ge)
    · simp [RemoteRequest.outputs]

theorem blockOn_entries {jobs : List Job} {entry : Σ _ : ProcessId, Condition}
    (member : entry ∈ (blockOn jobs).entries) : (∃ job ∈ jobs, job.id = entry.1) ∧ entry.2 = none := by
  suffices grows : ∀ (later : List Job) (block : OrderedMap ProcessId Condition), (∀ job ∈ later, job ∈ jobs) →
      (∀ pid cond, block.lookup pid = some cond → (∃ job ∈ jobs, job.id = pid) ∧ cond = none) →
      ∀ pid cond, (later.foldl (fun block job => block.insert job.id none) block).lookup pid = some cond →
        (∃ job ∈ jobs, job.id = pid) ∧ cond = none by
    have found : (blockOn jobs).lookup entry.1 = some entry.2 := AList.mem_lookup_iff.mpr member
    exact grows jobs ∅ (fun _ => id) (by simp) entry.1 entry.2 found
  intro later
  induction later with
  | nil => exact fun block _ before => before
  | cons job later ih =>
    intro block among before
    refine ih _ (fun other member => among other (List.mem_cons_of_mem _ member)) ?_
    intro pid cond found
    by_cases same : pid = job.id
    · subst same
      rw [AList.lookup_insert] at found
      exact ⟨⟨job,among job (List.mem_cons_self ..),rfl⟩,(Option.some.inj found).symm⟩
    · rw [AList.lookup_insert_ne same] at found
      exact before pid cond found

theorem beginDirectory_orderly {stage : Stage} {directory : Job} (orderly : Orderly stage endpoint)
    (ok : beginDirectory trans stage.jobs endpoint = .ok (.ok directory,next)) : Orderly stage next := by
  obtain ⟨_,ids,⟨remote,sent⟩,_⟩ := beginDirectory_ok ok
  have later : endpoint.ids.nextId ≤ next.ids.nextId := by simp [ids]
  have drawn {id : Nat} (close : id < endpoint.ids.nextId + 4) : id < next.ids.nextId := by rwa [ids]
  let first := endpoint.ids.nextId
  let asking (more : List RemoteRequest) : Endpoint StackedRemotes :=
    { next with sent := endpoint.sent ++ more.map (Request.mk remote.val) }
  have begun : Ordered (asking [.beginCommand (blockOn stage.jobs) (directoryAt first).process .getDirectory]) := by
    refine @Ordered.command _ _ orderly.ordered remote (blockOn stage.jobs) ⟨first + 3⟩ .getDirectory
      (directoryAt first).pipes ?_ ?_ ?_ ?_ ?_ ?_ ?_ rfl later
    · simp [first]
    · exact orderly.ordered.fresh_input (Nat.le_add_right _ 2)
    · intro pipe output
      rcases output with rfl | rfl
      · exact orderly.ordered.fresh_output le_rfl
      · exact orderly.ordered.fresh_output (Nat.le_add_right _ 1)
    · simp [directoryAt,WritePipe.toGeneric]
    · intro entry member
      obtain ⟨⟨job,listed,same⟩,none⟩ := blockOn_entries member
      exact ⟨same ▸ orderly.jobs job listed,none⟩
    · exact drawn (by simp [first])
    · intro pipe used
      rcases used with rfl | rfl | rfl
      · exact drawn (by simp [directoryAt,ReadPipe.toGeneric,first])
      · exact drawn (by simp [directoryAt,WritePipe.toGeneric,first])
      · exact drawn (by simp [directoryAt,WritePipe.toGeneric,first])
  have grown (more : List RemoteRequest) (message : RemoteRequest) :
      (asking (more ++ [message])).sent = (asking more).sent ++ [⟨remote.val,message⟩] := by
    simp [asking,List.append_assoc]
  have reading (more : List RemoteRequest) (id : Nat) (before : Ordered (asking more)) (undrawn : first ≤ id)
      (close : id < first + 4) (free : ∀ message ∈ more, ⟨id⟩ ∉ message.inputs) :
      Ordered (asking (more ++ [.pipe ⟨id,.beginRead⟩])) := by
    refine @Ordered.read _ _ before remote ⟨id⟩ ?_ (drawn close) (grown more _) le_rfl
    intro request member
    rcases List.mem_append.mp member with old | new
    · exact orderly.ordered.fresh_input undrawn request old
    · obtain ⟨message,listed,rfl⟩ := List.mem_map.mp new
      exact free message listed
  have limiting (more : List RemoteRequest) (id limit : Nat) (before : Ordered (asking more)) :
      Ordered (asking (more ++ [.pipe ⟨id,.read limit⟩])) := before.plain rfl rfl rfl (grown more _) le_rfl
  have stdout := reading _ first begun le_rfl (by omega) (by simp [RemoteRequest.inputs,directoryAt,Job.process])
  have stderr := reading _ (first + 1) stdout (by omega) (by omega)
    (by simp [RemoteRequest.inputs,directoryAt,Job.process])
  have whole := limiting _ (first + 1) (1024 * 1024) (limiting _ first (1024 * 1024) stderr)
  refine orderly.kept (whole.same sent le_rfl) sent later ?_ ?_
  · intro read left request member taken
    obtain ⟨message,listed,rfl⟩ := List.mem_map.mp member
    have below := (orderly.reads read left).1
    simp only [directoryRequests,List.mem_cons,List.not_mem_nil,or_false] at listed
    rcases listed with rfl | rfl | rfl | rfl | rfl
    all_goals
      simp only [RemoteRequest.inputs,directoryAt,Job.process,ReadPipe.toGeneric,List.mem_cons,GenericPipe.mk.injEq,
        List.not_mem_nil,or_false] at taken
    all_goals omega
  · intro write left request member taken
    obtain ⟨message,listed,rfl⟩ := List.mem_map.mp member
    have below := (orderly.writes write left).1
    simp only [directoryRequests,List.mem_cons,List.not_mem_nil,or_false] at listed
    rcases listed with rfl | rfl | rfl | rfl | rfl
    · simp only [RemoteRequest.outputs,directoryAt,Job.process,WritePipe.toGeneric,List.mem_cons,GenericPipe.mk.injEq,
        List.not_mem_nil,or_false] at taken
      omega
    all_goals cases taken

theorem readSinks_ordered {remote : RemoteId} {index : Nat} {sinkMap : List (Option Sink)} {stage : Stage}
    {sinks : List (GenericPipe × Sink)} (orderly : Orderly stage endpoint)
    (ok : readSinks trans remote index sinkMap stage.pipePairs endpoint = .ok (.ok sinks,next)) : Ordered next := by
  induction sinkMap generalizing index stage endpoint sinks with
  | nil =>
    obtain ⟨_,rfl⟩ := pure_ok.mp ok
    exact orderly.ordered
  | cons sink sinkMap ih =>
    cases sink with
    | none => exact ih orderly ok
    | some sink =>
      obtain ⟨read,left,middle,later,taken,_,registered,others⟩ := readSinks_some ok
      obtain ⟨ids,sent,_⟩ := registerSink_ok registered
      obtain ⟨perm,same⟩ := takeRead_ok taken
      obtain ⟨once,readsOnce⟩ := List.nodup_cons.mp (perm.nodup_iff.mp orderly.readsOnce)
      obtain ⟨drawn,free⟩ := orderly.reads read (perm.mem_iff.mpr (List.mem_cons_self ..))
      have left' : Orderly { stage with pipePairs := left } endpoint := by
        refine ⟨orderly.ordered,?_,?_,readsOnce,?_,orderly.jobs⟩
        · exact fun other member => orderly.reads other (perm.mem_iff.mpr (List.mem_cons_of_mem _ member))
        · rw [same]
          exact orderly.writes
        · rw [same]
          exact orderly.writesOnce
      have began : Ordered { endpoint with sent := endpoint.sent ++ [⟨remote.val,.pipe ⟨read.val,.beginRead⟩⟩] } :=
        orderly.ordered.read free drawn rfl le_rfl
      have asked : Ordered middle := by
        refine began.plain rfl rfl rfl sent ?_
        rw [ids]
      refine @ih middle (index + 1) { stage with pipePairs := left } later ?_ others
      refine left'.kept asked (sent.trans (List.append_assoc ..)) (by rw [ids]) ?_ ?_
      · intro other member request listed claimed
        rcases List.mem_cons.mp listed with rfl | listed
        · obtain rfl : other = read := ReadPipe.toGeneric_injective (List.mem_singleton.mp claimed)
          exact once member
        · obtain rfl := List.mem_singleton.mp listed
          cases claimed
      · intro other member request listed claimed
        rcases List.mem_cons.mp listed with rfl | listed
        · cases claimed
        · obtain rfl := List.mem_singleton.mp listed
          cases claimed

theorem Lays.ordered {plan : Plan} {line : Line} (lays : Lays trans plan start line next) (ordered : Ordered start) :
    Ordered next := by
  cases lays with
  | laid stage middle second remote sinks last stepped begun current read =>
    have orderly := runSteps_keeps (fun _ _ _ _ _ before => runStep_orderly before) (orderly_start ordered) stepped
    have ordered := readSinks_ordered (beginDirectory_orderly orderly begun) read
    exact ordered.same rfl le_rfl

theorem readLine_ordered {line : Line} (ordered : Ordered start)
    (ok : readLine inputs start = .ok (.ok (.begun line),next)) : Ordered next := by
  obtain ⟨text,middle,plan,prompted,lays⟩ := readLine_lays ok
  obtain ⟨_,ids,sent⟩ := prompt_ok prompted
  exact lays.ordered (ordered.same sent (by rw [ids]))

def Expected : RemoteRequest → Prop
  | .beginCommand _ _ _ => True
  | .openOutputFile _ _ => True
  | .finishEdit _ _ => True
  | .pipe ⟨_,.beginRead⟩ => True
  | .pipe ⟨_,.read _⟩ => True
  | _ => False

def Addressed (endpoint : Endpoint StackedRemotes) : Prop :=
  ∀ request ∈ endpoint.sent, request.remoteId = 0 ∧ Expected request.message

theorem Addressed.more (addressed : Addressed endpoint) {messages : List RemoteRequest}
    (expected : ∀ message ∈ messages, Expected message)
    (sent : next.sent = endpoint.sent ++ messages.map (Request.mk Endpoint.root.val)) : Addressed next := by
  intro request member
  rw [sent] at member
  rcases List.mem_append.mp member with old | new
  · exact addressed request old
  · obtain ⟨message,listed,rfl⟩ := List.mem_map.mp new
    exact ⟨rfl,expected message listed⟩

theorem Addressed.same (addressed : Addressed endpoint) (sent : next.sent = endpoint.sent) : Addressed next := by
  rw [Addressed,sent]
  exact addressed

theorem curRemote_hosted (hosts : ∀ entry ∈ endpoint.handler.remotes, entry.1 = Endpoint.root) {remote : RemoteId}
    (ok : curRemote endpoint = .ok (.ok remote,next)) : remote = Endpoint.root := by
  unfold curRemote at ok
  rw [get_bind] at ok
  obtain ⟨⟨id,rem⟩,last,ok⟩ := lift_bind_ok.mp ok
  obtain ⟨same,_⟩ := Prod.mk.inj (Except.ok.inj ok)
  obtain rfl : id = remote := Except.ok.inj same
  exact hosts _ (List.mem_of_getLast? ((Outcome.unwrap_ok _ _).mp last))

section Addresses
variable {received : List RemoteResponse}

theorem runStep_addressed (tracks : Tracks received endpoint) (addressed : Addressed endpoint) {stage after : Stage}
    {step : Step} (cases : StepCases trans stage endpoint step after next) : Addressed next := by
  cases cases with
  | pipe => exact addressed.same rfl
  | run ref remote cmd pr stdin stdout stderr one two three current =>
    obtain rfl := curRemote_root tracks current
    refine @Addressed.more _ _ addressed [.beginCommand ∅ ⟨⟨endpoint.ids.nextId⟩,stdin.val,stdout.val,
      stderr.val⟩ cmd] ?_ rfl
    simp [Expected]
  | close ref next several ended => exact absurd ended (endRemote_root tracks.hosts tracks.root)
  | openOutputFile ref remote path current =>
    obtain rfl := curRemote_root tracks current
    refine @Addressed.more _ _ addressed [.openOutputFile endpoint.ids.nextId path] ?_ rfl
    simp [Expected]

theorem readSinks_addressed {index : Nat} {sinkMap : List (Option Sink)} {pairs : List PipePair}
    {sinks : List (GenericPipe × Sink)} (addressed : Addressed endpoint)
    (ok : readSinks trans Endpoint.root index sinkMap pairs endpoint = .ok (.ok sinks,next)) : Addressed next := by
  induction sinkMap generalizing index pairs endpoint sinks with
  | nil =>
    obtain ⟨_,rfl⟩ := pure_ok.mp ok
    exact addressed
  | cons sink sinkMap ih =>
    cases sink with
    | none => exact ih addressed ok
    | some sink =>
      obtain ⟨read,left,middle,later,_,_,registered,others⟩ := readSinks_some ok
      obtain ⟨_,sent,_⟩ := registerSink_ok registered
      refine ih (@Addressed.more _ _ addressed [.pipe ⟨read.val,.beginRead⟩,.pipe ⟨read.val,.read (1024 * 1024)⟩] ?_ ?_)
        others
      · simp [Expected]
      · rw [sent,List.append_assoc]
        rfl

theorem Lays.addressed {plan : Plan} {line : Line} (lays : Lays trans plan start line next)
    (tracks : Tracks received start) (addressed : Addressed start) : Addressed next := by
  cases lays with
  | laid stage middle second remote sinks last stepped begun current read =>
    obtain ⟨tracks,addressed⟩ := runSteps_tracked (fun _ _ _ _ _ tracks before =>
      runStep_addressed tracks before) tracks addressed stepped
    obtain ⟨_,remote,hosted,rfl⟩ := beginDirectory_shape begun
    obtain rfl := curRemote_root tracks hosted
    obtain rfl := curRemote_hosted (by exact tracks.hosts) current
    have told : Addressed last := by
      refine readSinks_addressed ?_ read
      refine @Addressed.more middle _ addressed (directoryRequests stage.jobs middle.ids.nextId) ?_ rfl
      simp [directoryRequests,Expected]
    exact told.same rfl

theorem readLine_addressed (tracks : Tracks received start) (addressed : Addressed start) {line : Line}
    (ok : readLine inputs start = .ok (.ok (.begun line),next)) : Addressed next := by
  obtain ⟨text,middle,plan,prompted,lays⟩ := readLine_lays ok
  obtain ⟨_,_,sent⟩ := prompt_ok prompted
  exact lays.addressed (prompt_tracks tracks prompted).1 (addressed.same sent)

end Addresses

end Shell
end Nak
