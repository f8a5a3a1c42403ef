import Nak.EndpointRules
import Nak.LineFrames

/-! The lines that the loop of the shell begins. All ids of a line are drawn while it is
begun, every end of a pipe is used once, and the `GetDirectory` at its end waits for every
process of it. -/
namespace Nak
open Library Action

def Within (lo hi id : Nat) : Prop := lo ≤ id ∧ id < hi

theorem Within.mono {lo hi hi' id : Nat} (within : Within lo hi id) (more : hi ≤ hi') : Within lo hi' id :=
  ⟨within.1,within.2.trans_le more⟩

def Job.process (job : Job) : AbstractProcess := ⟨job.id,job.pipes.stdin.val,job.pipes.stdout.val,job.pipes.stderr.val⟩

namespace Line

def all (line : Line) : List Job := line.jobs ++ [line.directory]

def Reads (line : Line) (pipe : GenericPipe) : Prop :=
  line.directory.pipes.output pipe ∨ ∃ sink, (pipe,sink) ∈ line.sinks

structure Sound (line : Line) (lo hi : Nat) : Prop where
  ids : ∀ job ∈ line.all, Within lo hi job.id.val
  pipes : ∀ job ∈ line.all, ∀ pipe, job.pipes.input pipe ∨ job.pipes.output pipe → Within lo hi pipe.val
  sinks : ∀ entry ∈ line.sinks, Within lo hi entry.1.val
  last : ∀ job ∈ line.jobs, job.id.val < line.directory.id.val
  unread : ∀ entry ∈ line.sinks, ∀ job ∈ line.all, ¬job.pipes.input entry.1
  apart : ∀ entry ∈ line.sinks, ¬line.directory.pipes.output entry.1
  cwd : ∀ job ∈ line.jobs, ¬job.pipes.output line.cwd

inductive Sends (line : Line) (lo hi : Nat) : RemoteRequest → Prop
  | job (blockFor job) (member : job ∈ line.all)
      (blocks : job = line.directory → ∀ other ∈ line.jobs, other.id ∈ blockFor) :
      Sends line lo hi (.beginCommand blockFor job.process job.command)
  | file (id path) (within : Within lo hi id) : Sends line lo hi (.openOutputFile id path)
  | remote (id) : Sends line lo hi (.endRemote id)
  | pipe (id msg) (reads : line.Reads ⟨id⟩) : Sends line lo hi (.pipe ⟨id,msg⟩)

end Line

namespace Shell
/-- The parts of the handler that only the directory at the end of a line changes. -/
structure Kept (handler next : StackedRemotes) : Prop where
  waitingForRemote : next.waitingForRemote = handler.waitingForRemote
  waitingFor : next.waitingFor = handler.waitingFor
  waitingForEof : next.waitingForEof = handler.waitingForEof
  gatheringOutput : next.gatheringOutput = handler.gatheringOutput
  shown : next.shown = handler.shown

theorem Kept.refl {handler : StackedRemotes} : Kept handler handler := ⟨rfl,rfl,rfl,rfl,rfl⟩

theorem Kept.trans {handler middle last : StackedRemotes} (first : Kept handler middle) (second : Kept middle last) :
    Kept handler last where
  waitingForRemote := second.waitingForRemote.trans first.waitingForRemote
  waitingFor := second.waitingFor.trans first.waitingFor
  waitingForEof := second.waitingForEof.trans first.waitingForEof
  gatheringOutput := second.gatheringOutput.trans first.gatheringOutput
  shown := second.shown.trans first.shown

variable {trans : Transport Error} {endpoint next start : Endpoint StackedRemotes}

theorem curRemote_ok {remote : RemoteId} (ok : curRemote endpoint = .ok (.ok remote,next)) : next = endpoint := by
  unfold curRemote at ok
  rw [get_bind] at ok
  obtain ⟨_,_,ok⟩ := lift_bind_ok.mp ok
  exact (Prod.mk.inj (Except.ok.inj ok)).2.symm

theorem prompt_ok {text : String} (ok : prompt endpoint = .ok (.ok text,next)) :
    Kept endpoint.handler next.handler ∧ next.ids = endpoint.ids ∧ next.sent = endpoint.sent := by
  obtain ⟨_,_,rfl,-⟩ := prompt_shape ok
  exact ⟨⟨rfl,rfl,rfl,rfl,rfl⟩,rfl,rfl⟩

def readEnds (pairs : List PipePair) : List ReadPipe := pairs.filterMap PipePair.read

def writeEnds (pairs : List PipePair) : List WritePipe := pairs.filterMap PipePair.write

theorem taken_end {α β : Type} (own : PipePair → Option α) (other : PipePair → Option β) {pairs : List PipePair}
    {index : Nat} {pair left : PipePair} {taken : α} (found : pairs[index]? = some pair) (some : own pair = some taken)
    (gone : own left = none) (same : other left = other pair) :
    (pairs.filterMap own).Perm (taken :: (pairs.set index left).filterMap own) ∧
      (pairs.set index left).filterMap other = pairs.filterMap other := by
  obtain ⟨inside,rfl⟩ := List.getElem?_eq_some_iff.mp found
  obtain ⟨before,after,shape,_,set⟩ := List.exists_of_set inside
  rw [set]
  generalize pairs[index] = pair at *
  subst shape
  simp only [List.filterMap_append,List.filterMap_cons,some,gone,same]
  exact ⟨List.perm_middle,trivial⟩

theorem takeRead_ok {pairs rest : List PipePair} {index : Nat} {read : ReadPipe}
    (ok : takeRead pairs index = .ok (read,rest)) :
    (readEnds pairs).Perm (read :: readEnds rest) ∧ writeEnds rest = writeEnds pairs := by
  unfold takeRead at ok
  split at ok
  · cases ok
  · rename_i pair found
    obtain ⟨taken,some,last⟩ := Outcome.bind_ok.mp ok
    obtain ⟨rfl,rfl⟩ := Prod.mk.inj (Except.ok.inj last)
    exact taken_end PipePair.read PipePair.write found ((Outcome.unwrap_ok _ _).mp some) rfl rfl

theorem takeWrite_ok {pairs rest : List PipePair} {index : Nat} {write : WritePipe}
    (ok : takeWrite pairs index = .ok (write,rest)) :
    (writeEnds pairs).Perm (write :: writeEnds rest) ∧ readEnds rest = readEnds pairs := by
  unfold takeWrite at ok
  split at ok
  · cases ok
  · rename_i pair found
    obtain ⟨taken,some,last⟩ := Outcome.bind_ok.mp ok
    obtain ⟨rfl,rfl⟩ := Prod.mk.inj (Except.ok.inj last)
    exact taken_end PipePair.write PipePair.read found ((Outcome.unwrap_ok _ _).mp some) rfl rfl

theorem endRemote_ok (ok : endRemote trans endpoint = .ok (.ok (),next)) : ∃ parent ended :
    RemoteId, next = { endpoint with
    handler := { endpoint.handler with remotes := endpoint.handler.remotes.dropLast }
    remotes := endpoint.remotes.erase ended
    sent := endpoint.sent ++ [⟨parent.val,.endRemote ended.val⟩] } := by
  unfold endRemote at ok
  rw [get_bind] at ok
  obtain ⟨⟨ended,_⟩,_,ok⟩ := lift_bind_ok.mp ok
  obtain ⟨_,_,updated,ok⟩ := bind_ok.mp ok
  obtain ⟨_,rfl⟩ := Prod.mk.inj (Except.ok.inj updated)
  obtain ⟨parent,_,rfl⟩ := Endpoint.closeRemote_ok ok
  exact ⟨parent,ended,rfl⟩

inductive StepCases (trans : Transport Error) (stage : Stage) (endpoint : Endpoint StackedRemotes) :
    Step → Stage → Endpoint StackedRemotes → Prop
  | pipe : StepCases trans stage endpoint .pipe
      { stage with pipePairs := stage.pipePairs ++ [⟨some ⟨endpoint.ids.nextId⟩,some ⟨endpoint.ids.nextId⟩⟩] }
      { endpoint with
        ids := ⟨endpoint.ids.nextId + 1⟩
        pipes := insert endpoint.ids.nextId endpoint.pipes }
  | run (ref) (remote : RemoteId) (cmd pr stdin stdout stderr one two three)
      (current : curRemote endpoint = .ok (.ok remote,endpoint))
      (first : takeWrite stage.pipePairs pr.stdout = .ok (stdout,one))
      (second : takeWrite one pr.stderr = .ok (stderr,two))
      (third : takeRead two pr.stdin = .ok (stdin,three)) : StepCases trans stage endpoint (.remote ref (.run cmd pr))
      ⟨three,stage.jobs ++ [⟨⟨endpoint.ids.nextId⟩,cmd,⟨stdin,stdout,stderr⟩⟩]⟩
      { endpoint with
        ids := ⟨endpoint.ids.nextId + 1⟩
        sent := endpoint.sent ++ [⟨remote.val,.beginCommand ∅
          ⟨⟨endpoint.ids.nextId⟩,stdin.val,stdout.val,stderr.val⟩ cmd⟩]
        jobs := endpoint.jobs.insert ⟨endpoint.ids.nextId⟩ remote }
  | close (ref next) (several : endpoint.handler.remotes.length > 1)
      (ended : endRemote trans endpoint = .ok (.ok (),next)) :
      StepCases trans stage endpoint (.remote ref .close) stage next
  | openOutputFile (ref) (remote : RemoteId) (path) (current : curRemote endpoint = .ok (.ok remote,endpoint)) :
      StepCases trans stage endpoint (.remote ref (.openOutputFile path))
      { stage with pipePairs := stage.pipePairs ++ [⟨none,some ⟨endpoint.ids.nextId⟩⟩] }
      { endpoint with
        ids := ⟨endpoint.ids.nextId + 1⟩
        pipes := insert endpoint.ids.nextId endpoint.pipes
        sent := endpoint.sent ++ [⟨remote.val,.openOutputFile endpoint.ids.nextId path⟩] }

theorem runStep_cases {stage after : Stage} {step : Step}
    (ok : runStep trans stage step endpoint = .ok (.ok (some after),next)) :
    StepCases trans stage endpoint step after next := by
  cases step with
  | pipe =>
    obtain ⟨ends,_,made,last⟩ := bind_ok.mp ok
    obtain ⟨rfl,rfl⟩ := Endpoint.pipe_ok made rfl
    obtain ⟨same,rfl⟩ := pure_ok.mp last
    exact Option.some.inj same ▸ .pipe
  | pager => cases ok
  | editor => cases ok
  | remote ref step =>
    cases step with
    | openInputFile => cases ok
    | beginRemote => cases ok
    | run cmd pr =>
      obtain ⟨remote,_,current,rest⟩ := bind_ok.mp ok
      obtain rfl := curRemote_ok current
      obtain ⟨⟨stdout,one⟩,first,rest⟩ := lift_bind_ok.mp rest
      obtain ⟨⟨stderr,two⟩,second,rest⟩ := lift_bind_ok.mp rest
      obtain ⟨⟨stdin,three⟩,third,rest⟩ := lift_bind_ok.mp rest
      obtain ⟨pid,_,begun,last⟩ := bind_ok.mp rest
      obtain ⟨_,rfl,rfl⟩ := Endpoint.command_ok begun
      obtain ⟨same,rfl⟩ := pure_ok.mp last
      exact Option.some.inj same ▸
        .run ref remote cmd pr stdin stdout stderr one two three current first second third
    | close =>
      rw [runStep,get_bind] at ok
      split at ok
      · rename_i several
        obtain ⟨_,_,ended,last⟩ := bind_ok.mp ok
        obtain ⟨same,rfl⟩ := pure_ok.mp last
        exact Option.some.inj same ▸ .close ref _ several ended
      · cases ok
    | openOutputFile path =>
      obtain ⟨remote,_,current,rest⟩ := bind_ok.mp ok
      obtain rfl := curRemote_ok current
      obtain ⟨handle,_,opened,last⟩ := bind_ok.mp rest
      obtain ⟨_,rfl,rfl⟩ := Endpoint.openOutputFile_ok opened
      obtain ⟨same,rfl⟩ := pure_ok.mp last
      exact Option.some.inj same ▸ .openOutputFile ref remote path current

theorem runSteps_keeps {holds : Stage → Endpoint StackedRemotes → Prop}
    (keeps : ∀ stage endpoint step after next, holds stage endpoint → StepCases trans stage endpoint step after next →
      holds after next) {steps : List Step} {stage after : Stage} (before : holds stage endpoint)
    (ok : runSteps trans steps stage endpoint = .ok (.ok (some after),next)) : holds after next := by
  induction steps generalizing stage endpoint with
  | nil =>
    obtain ⟨same,rfl⟩ := pure_ok.mp ok
    exact Option.some.inj same ▸ before
  | cons step steps ih =>
    obtain ⟨done,middle,one,rest⟩ := bind_ok.mp ok
    cases done with
    | none => cases rest
    | some stage => exact ih (keeps _ _ _ _ _ before (runStep_cases one)) rest

inductive StageSends (jobs : List Job) (lo hi : Nat) : RemoteRequest → Prop
  | job (blockFor job) (member : job ∈ jobs) : StageSends jobs lo hi (.beginCommand blockFor job.process job.command)
  | file (id path) (within : Within lo hi id) : StageSends jobs lo hi (.openOutputFile id path)
  | remote (id) : StageSends jobs lo hi (.endRemote id)

theorem StageSends.mono {jobs jobs' : List Job} {lo hi hi' : Nat} {message : RemoteRequest}
    (sends : StageSends jobs lo hi message) (more : ∀ job ∈ jobs, job ∈ jobs') (later : hi ≤ hi') :
    StageSends jobs' lo hi' message := by
  cases sends with
  | job blockFor job member => exact .job blockFor job (more job member)
  | file id path within => exact .file id path (within.mono later)
  | remote id => exact .remote id

/-- What the steps have drawn lies between the ids; ends that are left are no job's. -/
structure Staged (start : Endpoint StackedRemotes) (stage : Stage) (endpoint : Endpoint StackedRemotes) : Prop where
  grows : start.ids.nextId ≤ endpoint.ids.nextId
  kept : Kept start.handler endpoint.handler
  sent : ∃ more, endpoint.sent = start.sent ++ more ∧
    ∀ request ∈ more, StageSends stage.jobs start.ids.nextId endpoint.ids.nextId request.message
  ids : ∀ job ∈ stage.jobs, Within start.ids.nextId endpoint.ids.nextId job.id.val
  pipes : ∀ job ∈ stage.jobs, ∀ pipe, job.pipes.input pipe ∨ job.pipes.output pipe →
    Within start.ids.nextId endpoint.ids.nextId pipe.val
  reads : ∀ read ∈ readEnds stage.pipePairs, Within start.ids.nextId endpoint.ids.nextId read.val
  writes : ∀ write ∈ writeEnds stage.pipePairs, Within start.ids.nextId endpoint.ids.nextId write.val
  distinct : (readEnds stage.pipePairs).Nodup
  unread : ∀ read ∈ readEnds stage.pipePairs, ∀ job ∈ stage.jobs, job.pipes.stdin ≠ read

theorem staged_start : Staged start ⟨[],[]⟩ start where
  grows := le_rfl
  kept := .refl
  sent := ⟨[],by rw [List.append_nil],by simp⟩
  ids := by simp
  pipes := by simp
  reads := by simp [readEnds]
  writes := by simp [writeEnds]
  distinct := by simp [readEnds]
  unread := by simp [readEnds]

namespace Staged
variable {stage : Stage}

private theorem sends (staged : Staged start stage endpoint) {jobs : List Job} {hi : Nat} {request : Request}
    (more : ∀ job ∈ stage.jobs, job ∈ jobs) (later : endpoint.ids.nextId ≤ hi)
    (last : StageSends jobs start.ids.nextId hi request.message) :
    ∃ more, endpoint.sent ++ [request] = start.sent ++ more ∧
      ∀ request ∈ more, StageSends jobs start.ids.nextId hi request.message := by
  obtain ⟨before,sent,all⟩ := staged.sent
  refine ⟨before ++ [request],by rw [sent,List.append_assoc],?_⟩
  intro other member
  rcases List.mem_append.mp member with early | late
  · exact (all other early).mono more later
  · exact List.mem_singleton.mp late ▸ last

theorem pipe (staged : Staged start stage endpoint) : Staged start
    { stage with pipePairs := stage.pipePairs ++ [⟨some ⟨endpoint.ids.nextId⟩,some ⟨endpoint.ids.nextId⟩⟩] }
    { endpoint with
      ids := ⟨endpoint.ids.nextId + 1⟩
      pipes := insert endpoint.ids.nextId endpoint.pipes } := by
  have later : endpoint.ids.nextId ≤ endpoint.ids.nextId + 1 := Nat.le_succ _
  have drawn : Within start.ids.nextId (endpoint.ids.nextId + 1) endpoint.ids.nextId :=
    ⟨staged.grows,Nat.lt_succ_self _⟩
  have fresh : (⟨endpoint.ids.nextId⟩ : ReadPipe) ∉ readEnds stage.pipePairs := fun member =>
    lt_irrefl _ (staged.reads _ member).2
  constructor
  · exact staged.grows.trans later
  · exact staged.kept
  · obtain ⟨more,sent,all⟩ := staged.sent
    exact ⟨more,sent,fun request member => (all request member).mono (fun _ => id) later⟩
  · exact fun job member => (staged.ids job member).mono later
  · exact fun job member pipe used => (staged.pipes job member pipe used).mono later
  · intro read member
    simp only [readEnds,List.filterMap_append,List.mem_append] at member
    rcases member with old | new
    · exact (staged.reads read old).mono later
    · obtain rfl : read = ⟨endpoint.ids.nextId⟩ := by simpa using new
      exact drawn
  · intro write member
    simp only [writeEnds,List.filterMap_append,List.mem_append] at member
    rcases member with old | new
    · exact (staged.writes write old).mono later
    · obtain rfl : write = ⟨endpoint.ids.nextId⟩ := by simpa using new
      exact drawn
  · simp only [readEnds,List.filterMap_append]
    refine List.nodup_append.mpr ⟨staged.distinct,by simp,?_⟩
    intro read old other new same
    obtain rfl : other = ⟨endpoint.ids.nextId⟩ := by simpa using new
    exact fresh (same ▸ old)
  · intro read member job listed
    simp only [readEnds,List.filterMap_append,List.mem_append] at member
    rcases member with old | new
    · exact staged.unread read old job listed
    · obtain rfl : read = ⟨endpoint.ids.nextId⟩ := by simpa using new
      intro same
      have before := (staged.pipes job listed _ (Or.inl rfl)).2
      rw [same] at before
      exact lt_irrefl _ before

theorem file (staged : Staged start stage endpoint) (remote : RemoteId) (path : String) : Staged start
    { stage with pipePairs := stage.pipePairs ++ [⟨none,some ⟨endpoint.ids.nextId⟩⟩] }
    { endpoint with
      ids := ⟨endpoint.ids.nextId + 1⟩
      pipes := insert endpoint.ids.nextId endpoint.pipes
      sent := endpoint.sent ++ [⟨remote.val,.openOutputFile endpoint.ids.nextId path⟩] } := by
  have later : endpoint.ids.nextId ≤ endpoint.ids.nextId + 1 := Nat.le_succ _
  have drawn : Within start.ids.nextId (endpoint.ids.nextId + 1) endpoint.ids.nextId :=
    ⟨staged.grows,Nat.lt_succ_self _⟩
  have same : readEnds (stage.pipePairs ++ [⟨none,some ⟨endpoint.ids.nextId⟩⟩]) = readEnds stage.pipePairs := by
    simp [readEnds]
  constructor
  · exact staged.grows.trans later
  · exact staged.kept
  · exact staged.sends (fun _ => id) later (.file _ path drawn)
  · exact fun job member => (staged.ids job member).mono later
  · exact fun job member pipe used => (staged.pipes job member pipe used).mono later
  · rw [same]
    exact fun read member => (staged.reads read member).mono later
  · intro write member
    simp only [writeEnds,List.filterMap_append,List.mem_append] at member
    rcases member with old | new
    · exact (staged.writes write old).mono later
    · obtain rfl : write = ⟨endpoint.ids.nextId⟩ := by simpa using new
      exact drawn
  · rw [same]
    exact staged.distinct
  · rw [same]
    exact staged.unread

theorem run (staged : Staged start stage endpoint) {stdin : ReadPipe} {stdout stderr : WritePipe}
    {one two three : List PipePair} {pr : PlanProcess} (first : takeWrite stage.pipePairs pr.stdout = .ok (stdout,one))
    (second : takeWrite one pr.stderr = .ok (stderr,two)) (third : takeRead two pr.stdin = .ok (stdin,three))
    (remote : RemoteId) (cmd : Command) : Staged start
    ⟨three,stage.jobs ++ [⟨⟨endpoint.ids.nextId⟩,cmd,⟨stdin,stdout,stderr⟩⟩]⟩
    { endpoint with
      ids := ⟨endpoint.ids.nextId + 1⟩
      sent := endpoint.sent ++ [⟨remote.val,.beginCommand ∅
        ⟨⟨endpoint.ids.nextId⟩,stdin.val,stdout.val,stderr.val⟩ cmd⟩]
      jobs := endpoint.jobs.insert ⟨endpoint.ids.nextId⟩ remote } := by
  have later : endpoint.ids.nextId ≤ endpoint.ids.nextId + 1 := Nat.le_succ _
  obtain ⟨perm₁,same₁⟩ := takeWrite_ok first
  obtain ⟨perm₂,same₂⟩ := takeWrite_ok second
  obtain ⟨perm₃,same₃⟩ := takeRead_ok third
  have reads : (readEnds stage.pipePairs).Perm (stdin :: readEnds three) := by rwa [← same₁,← same₂]
  have distinct := reads.nodup_iff.mp staged.distinct
  have taken : Within start.ids.nextId endpoint.ids.nextId stdin.val :=
    staged.reads stdin (reads.mem_iff.mpr (List.mem_cons_self ..))
  have out : Within start.ids.nextId endpoint.ids.nextId stdout.val :=
    staged.writes stdout (perm₁.mem_iff.mpr (List.mem_cons_self ..))
  have err : Within start.ids.nextId endpoint.ids.nextId stderr.val :=
    staged.writes stderr (perm₁.mem_iff.mpr (List.mem_cons_of_mem _ (perm₂.mem_iff.mpr (List.mem_cons_self ..))))
  constructor
  · exact staged.grows.trans later
  · exact staged.kept
  · exact staged.sends (fun _ member => List.mem_append_left _ member) later
      (.job ∅ _ (List.mem_append_right _ (List.mem_singleton.mpr rfl)))
  · intro job member
    rcases List.mem_append.mp member with old | new
    · exact (staged.ids job old).mono later
    · rw [List.mem_singleton.mp new]
      exact ⟨staged.grows,Nat.lt_succ_self _⟩
  · intro job member pipe used
    rcases List.mem_append.mp member with old | new
    · exact (staged.pipes job old pipe used).mono later
    · rw [List.mem_singleton.mp new] at used
      rcases used with input | output | output
      · exact input ▸ taken.mono later
      · exact output ▸ out.mono later
      · exact output ▸ err.mono later
  · intro read member
    exact (staged.reads read (reads.mem_iff.mpr (List.mem_cons_of_mem _ member))).mono later
  · intro write member
    rw [same₃] at member
    have left := perm₁.mem_iff.mpr (List.mem_cons_of_mem _ (perm₂.mem_iff.mpr (List.mem_cons_of_mem _ member)))
    exact (staged.writes write left).mono later
  · exact (List.nodup_cons.mp distinct).2
  · intro read member job listed
    rcases List.mem_append.mp listed with old | new
    · exact staged.unread read (reads.mem_iff.mpr (List.mem_cons_of_mem _ member)) job old
    · rw [List.mem_singleton.mp new]
      intro same
      obtain rfl := same
      exact (List.nodup_cons.mp distinct).1 member

theorem closed (staged : Staged start stage endpoint) {remotes : List (RemoteId × RemoteInfo)}
    {left : FiniteMap RemoteId RemoteState} (parent ended : RemoteId) : Staged start stage { endpoint with
      handler := { endpoint.handler with remotes }
      remotes := left
      sent := endpoint.sent ++ [⟨parent.val,.endRemote ended.val⟩] } where
  grows := staged.grows
  kept := staged.kept.trans ⟨rfl,rfl,rfl,rfl,rfl⟩
  sent := staged.sends (fun _ => id) le_rfl (.remote _)
  ids := staged.ids
  pipes := staged.pipes
  reads := staged.reads
  writes := staged.writes
  distinct := staged.distinct
  unread := staged.unread

end Staged

theorem runStep_staged {stage after : Stage} {step : Step} (before : Staged start stage endpoint)
    (cases : StepCases trans stage endpoint step after next) : Staged start after next := by
  cases cases with
  | pipe => exact before.pipe
  | run ref remote cmd pr stdin stdout stderr one two three current first second third =>
    exact before.run first second third remote cmd
  | close ref next several ended =>
    obtain ⟨parent,remote,rfl⟩ := endRemote_ok ended
    exact before.closed parent remote
  | openOutputFile ref remote path current => exact before.file remote path

theorem runSteps_staged {steps : List Step} {stage after : Stage} (staged : Staged start stage endpoint)
    (ok : runSteps trans steps stage endpoint = .ok (.ok (some after),next)) : Staged start after next :=
  runSteps_keeps (fun _ _ _ _ _ before => runStep_staged before) staged ok

theorem mem_blockOn {jobs : List Job} {job : Job} (member : job ∈ jobs) : job.id ∈ blockOn jobs := by
  have grows (jobs : List Job) (block : OrderedMap ProcessId Condition) (pid : ProcessId)
      (listed : pid ∈ block ∨ pid ∈ jobs.map Job.id) :
      pid ∈ (jobs.foldl (fun block job => block.insert job.id none) block : OrderedMap ProcessId Condition) := by
    induction jobs generalizing block with
    | nil => exact listed.resolve_right (by simp)
    | cons first jobs ih =>
      apply ih
      rcases listed with old | new
      · exact Or.inl ((AList.mem_insert _).mpr (Or.inr old))
      · rcases List.mem_cons.mp new with same | later
        · exact Or.inl ((AList.mem_insert _).mpr (Or.inl same))
        · exact Or.inr later
  exact grows jobs ∅ job.id (Or.inr (List.mem_map_of_mem member))

def directoryAt (first : Nat) : Job := ⟨⟨first + 3⟩,.getDirectory,⟨⟨first + 2⟩,⟨first⟩,⟨first + 1⟩⟩⟩

def directoryRequests (jobs : List Job) (first : Nat) : List RemoteRequest :=
  [.beginCommand (blockOn jobs) (directoryAt first).process .getDirectory,.pipe ⟨first,.beginRead⟩,
    .pipe ⟨first + 1,.beginRead⟩,.pipe ⟨first,.read (1024 * 1024)⟩,.pipe ⟨first + 1,.read (1024 * 1024)⟩]

/-- Everything that beginning the `GetDirectory` of a line changes. -/
theorem beginDirectory_shape {jobs : List Job} {directory : Job}
    (ok : beginDirectory trans jobs endpoint = .ok (.ok directory,next)) :
    directory = directoryAt endpoint.ids.nextId ∧
      ∃ remote, curRemote endpoint = .ok (.ok remote,endpoint) ∧ next = { endpoint with
        ids := ⟨endpoint.ids.nextId + 4⟩
        pipes := insert (endpoint.ids.nextId + 2) (insert (endpoint.ids.nextId + 1)
          (insert endpoint.ids.nextId endpoint.pipes))
        jobs := endpoint.jobs.insert ⟨endpoint.ids.nextId + 3⟩ remote
        sent := endpoint.sent ++ (directoryRequests jobs endpoint.ids.nextId).map (Request.mk remote.val)
        handler := { endpoint.handler with
          gatheringOutput := endpoint.handler.gatheringOutput.insert ⟨endpoint.ids.nextId⟩ []
          waitingForEof := insert ⟨endpoint.ids.nextId⟩ endpoint.handler.waitingForEof
          stderrPipes := insert ⟨endpoint.ids.nextId + 1⟩ endpoint.handler.stderrPipes
          cwdForRemote := endpoint.handler.cwdForRemote.insert remote ⟨endpoint.ids.nextId⟩ } } := by
  obtain ⟨remote,_,current,rest⟩ := bind_ok.mp ok
  have unmoved := curRemote_ok current
  rw [unmoved] at rest current
  obtain ⟨_,_,made₁,rest⟩ := bind_ok.mp rest
  obtain ⟨rfl,rfl⟩ := Endpoint.pipe_ok made₁ rfl
  obtain ⟨_,_,made₂,rest⟩ := bind_ok.mp rest
  obtain ⟨rfl,rfl⟩ := Endpoint.pipe_ok made₂ rfl
  obtain ⟨_,_,made₃,rest⟩ := bind_ok.mp rest
  obtain ⟨rfl,rfl⟩ := Endpoint.pipe_ok made₃ rfl
  obtain ⟨pid,_,begun,rest⟩ := bind_ok.mp rest
  obtain ⟨_,rfl,rfl⟩ := Endpoint.command_ok begun
  obtain ⟨_,_,sent₁,rest⟩ := bind_ok.mp rest
  obtain rfl := Endpoint.pipeBeginRead_ok sent₁
  obtain ⟨_,_,sent₂,rest⟩ := bind_ok.mp rest
  obtain rfl := Endpoint.pipeBeginRead_ok sent₂
  obtain ⟨_,_,sent₃,rest⟩ := bind_ok.mp rest
  obtain rfl := Endpoint.pipeRead_ok sent₃
  obtain ⟨_,_,sent₄,rest⟩ := bind_ok.mp rest
  obtain rfl := Endpoint.pipeRead_ok sent₄
  obtain ⟨_,_,updated,last⟩ := bind_ok.mp rest
  obtain ⟨_,rfl⟩ := Prod.mk.inj (Except.ok.inj updated)
  obtain ⟨rfl,rfl⟩ := pure_ok.mp last
  refine ⟨rfl,remote,current,?_⟩
  simp only [directoryRequests,List.append_assoc,List.map_cons,List.map_nil,List.cons_append,List.nil_append]
  rfl

theorem beginDirectory_ok {jobs : List Job} {directory : Job}
    (ok : beginDirectory trans jobs endpoint = .ok (.ok directory,next)) :
    directory = directoryAt endpoint.ids.nextId ∧ next.ids = ⟨endpoint.ids.nextId + 4⟩ ∧
      (∃ remote : RemoteId, next.sent = endpoint.sent ++
        (directoryRequests jobs endpoint.ids.nextId).map (Request.mk remote.val)) ∧
      next.handler.waitingForRemote = endpoint.handler.waitingForRemote ∧
      next.handler.waitingForEof = insert ⟨endpoint.ids.nextId⟩ endpoint.handler.waitingForEof ∧
      (∀ pipe, next.handler.gatheringOutput.lookup pipe = if pipe = ⟨endpoint.ids.nextId⟩ then some []
        else endpoint.handler.gatheringOutput.lookup pipe) ∧
      next.handler.shown = endpoint.handler.shown := by
  obtain ⟨rfl,remote,_,rfl⟩ := beginDirectory_shape ok
  exact ⟨rfl,rfl,⟨remote,rfl⟩,rfl,rfl,fun pipe => FiniteMap.lookup_insert_if _ _ _ _,rfl⟩

theorem registerSink_ok {pipe : GenericPipe} {sink : Sink} (ok : registerSink pipe sink endpoint = .ok (.ok (),next)) :
    next.ids = endpoint.ids ∧ next.sent = endpoint.sent ∧ Kept endpoint.handler next.handler := by
  cases sink with
  | devNull =>
    obtain ⟨_,rfl⟩ := pure_ok.mp ok
    exact ⟨rfl,rfl,.refl⟩
  | stdout =>
    obtain ⟨_,rfl⟩ := Prod.mk.inj (Except.ok.inj ok)
    exact ⟨rfl,rfl,⟨rfl,rfl,rfl,rfl,rfl⟩⟩
  | stderr =>
    obtain ⟨_,rfl⟩ := Prod.mk.inj (Except.ok.inj ok)
    exact ⟨rfl,rfl,⟨rfl,rfl,rfl,rfl,rfl⟩⟩
  | gather => cases ok
  | pager => cases ok

/-- A sink takes a read end, asks for its data and is registered before the others. -/
theorem readSinks_some {remote : RemoteId} {index : Nat} {sink : Sink} {sinkMap : List (Option Sink)}
    {pairs : List PipePair} {sinks : List (GenericPipe × Sink)}
    (ok : readSinks trans remote index (some sink :: sinkMap) pairs endpoint = .ok (.ok sinks,next)) :
    ∃ read left middle later, takeRead pairs index = .ok (read,left) ∧ sinks = (read.toGeneric,sink) :: later ∧
      registerSink read.toGeneric sink { endpoint with sent := endpoint.sent ++
        [⟨remote.val,.pipe ⟨read.val,.beginRead⟩⟩] ++ [⟨remote.val,.pipe ⟨read.val,.read (1024 * 1024)⟩⟩] } =
          .ok (.ok (),middle) ∧
      readSinks trans remote (index + 1) sinkMap left middle = .ok (.ok later,next) := by
  obtain ⟨⟨read,left⟩,taken,rest⟩ := lift_bind_ok.mp ok
  obtain ⟨_,_,sent₁,rest⟩ := bind_ok.mp rest
  obtain rfl := Endpoint.pipeBeginRead_ok sent₁
  obtain ⟨_,_,sent₂,rest⟩ := bind_ok.mp rest
  obtain rfl := Endpoint.pipeRead_ok sent₂
  obtain ⟨_,middle,registered,rest⟩ := bind_ok.mp rest
  obtain ⟨later,_,others,last⟩ := bind_ok.mp rest
  obtain ⟨rfl,rfl⟩ := pure_ok.mp last
  exact ⟨read,left,middle,later,taken,rfl,registered,others⟩

theorem readSinks_ok {remote : RemoteId} {index : Nat} {sinkMap : List (Option Sink)} {pairs : List PipePair}
    {sinks : List (GenericPipe × Sink)}
    (ok : readSinks trans remote index sinkMap pairs endpoint = .ok (.ok sinks,next)) :
    (∀ entry ∈ sinks, ∃ read ∈ readEnds pairs, entry.1 = read.toGeneric) ∧ next.ids = endpoint.ids ∧
      Kept endpoint.handler next.handler ∧ ∃ more, next.sent = endpoint.sent ++ more ∧
        ∀ request ∈ more, ∃ entry ∈ sinks, ∃ msg, request.message = .pipe ⟨entry.1.val,msg⟩ := by
  induction sinkMap generalizing index pairs endpoint sinks with
  | nil =>
    obtain ⟨rfl,rfl⟩ := pure_ok.mp ok
    exact ⟨by simp,rfl,.refl,[],by rw [List.append_nil],by simp⟩
  | cons sink sinkMap ih =>
    cases sink with
    | none => exact ih ok
    | some sink =>
      obtain ⟨read,left,middle,later,taken,rfl,registered,others⟩ := readSinks_some ok
      obtain ⟨ids,unsent,kept⟩ := registerSink_ok registered
      obtain ⟨ends,ids',kept',more,appended,all⟩ := ih others
      have reads := (takeRead_ok taken).1
      refine ⟨?_,ids'.trans ids,kept.trans kept',?_⟩
      · intro entry member
        rcases List.mem_cons.mp member with same | old
        · exact ⟨read,reads.mem_iff.mpr (List.mem_cons_self ..),by rw [same]⟩
        · obtain ⟨other,member,same⟩ := ends entry old
          exact ⟨other,reads.mem_iff.mpr (List.mem_cons_of_mem _ member),same⟩
      · refine ⟨⟨remote.val,.pipe ⟨read.val,.beginRead⟩⟩ ::
          ⟨remote.val,.pipe ⟨read.val,.read (1024 * 1024)⟩⟩ :: more,?_,?_⟩
        · rw [appended,unsent]
          simp only [List.append_assoc,List.cons_append,List.nil_append]
        · intro request member
          rcases List.mem_cons.mp member with same | member
          · exact ⟨_,List.mem_cons_self ..,_,by rw [same]; rfl⟩
          rcases List.mem_cons.mp member with same | member
          · exact ⟨_,List.mem_cons_self ..,_,by rw [same]; rfl⟩
          obtain ⟨entry,listed,msg,same⟩ := all request member
          exact ⟨entry,List.mem_cons_of_mem _ listed,msg,same⟩

structure Begins (line : Line) (start next : Endpoint StackedRemotes) : Prop where
  sound : line.Sound start.ids.nextId next.ids.nextId
  sent : ∃ more, next.sent = start.sent ++ more ∧
    ∀ request ∈ more, line.Sends start.ids.nextId next.ids.nextId request.message
  waitingForRemote : next.handler.waitingForRemote = start.handler.waitingForRemote
  waitingFor : next.handler.waitingFor = insert line.directory.id (ids line.jobs)
  waitingForEof : next.handler.waitingForEof = insert line.cwd start.handler.waitingForEof
  gatheringOutput : ∀ pipe, next.handler.gatheringOutput.lookup pipe =
    if pipe = line.cwd then some [] else start.handler.gatheringOutput.lookup pipe
  shown : next.handler.shown = start.handler.shown

private theorem line_sound {stage : Stage} {sinks : List (GenericPipe × Sink)} {hi : Nat}
    (staged : Staged start stage endpoint) (later : hi = endpoint.ids.nextId + 4)
    (ends : ∀ entry ∈ sinks, ∃ read ∈ readEnds stage.pipePairs, entry.1 = read.toGeneric) :
    Line.Sound ⟨stage.jobs,directoryAt endpoint.ids.nextId,sinks⟩ start.ids.nextId hi := by
  have grows := staged.grows
  have more : endpoint.ids.nextId ≤ hi := by omega
  constructor
  · intro job member
    rcases List.mem_append.mp member with old | last
    · exact (staged.ids job old).mono more
    · rw [List.mem_singleton.mp last]
      simp only [Within,directoryAt]
      omega
  · intro job member pipe used
    rcases List.mem_append.mp member with old | last
    · exact (staged.pipes job old pipe used).mono more
    · rw [List.mem_singleton.mp last] at used
      have shape : pipe.val = endpoint.ids.nextId + 2 ∨ pipe.val = endpoint.ids.nextId ∨
          pipe.val = endpoint.ids.nextId + 1 := by
        rcases used with rfl | rfl | rfl
        · exact Or.inl rfl
        · exact Or.inr (Or.inl rfl)
        · exact Or.inr (Or.inr rfl)
      simp only [Within]
      omega
  · intro entry member
    obtain ⟨read,left,same⟩ := ends entry member
    exact same ▸ (staged.reads read left).mono more
  · intro job member
    have before := (staged.ids job member).2
    simp only [directoryAt]
    omega
  · intro entry member job listed input
    obtain ⟨read,left,same⟩ := ends entry member
    have equal : read.val = job.pipes.stdin.val := congrArg GenericPipe.val (same.symm.trans input)
    rcases List.mem_append.mp listed with old | last
    · refine staged.unread read left job old ?_
      cases read
      exact congrArg ReadPipe.mk equal.symm
    · have before := (staged.reads read left).2
      rw [List.mem_singleton.mp last] at equal
      simp only [directoryAt] at equal
      omega
  · intro entry member output
    obtain ⟨read,left,same⟩ := ends entry member
    have before := (staged.reads read left).2
    have value : read.val = endpoint.ids.nextId ∨ read.val = endpoint.ids.nextId + 1 := by
      rw [same] at output
      exact output.imp (congrArg GenericPipe.val) (congrArg GenericPipe.val)
    omega
  · intro job member output
    have before := (staged.pipes job member _ (Or.inr output)).2
    simp only [Line.cwd,WritePipe.toGeneric,directoryAt] at before
    omega

private theorem directory_sends {line : Line} {lo hi first : Nat} (directory : line.directory = directoryAt first) :
    ∀ message ∈ directoryRequests line.jobs first, line.Sends lo hi message := by
  have out : line.Reads ⟨first⟩ := Or.inl (Or.inl (by rw [directory]; rfl))
  have err : line.Reads ⟨first + 1⟩ := Or.inl (Or.inr (by rw [directory]; rfl))
  have job : line.Sends lo hi (.beginCommand (blockOn line.jobs) (directoryAt first).process .getDirectory) := by
    rw [← directory]
    have command : line.directory.command = .getDirectory := by rw [directory]; rfl
    rw [← command]
    exact .job _ line.directory (List.mem_append_right _ (List.mem_singleton.mpr rfl))
      (fun _ other member => mem_blockOn member)
  intro message member
  simp only [directoryRequests,List.mem_cons,List.not_mem_nil,or_false] at member
  rcases member with rfl | rfl | rfl | rfl | rfl
  · exact job
  · exact .pipe _ _ out
  · exact .pipe _ _ err
  · exact .pipe _ _ out
  · exact .pipe _ _ err

private theorem stage_sends {line : Line} {lo hi hi' : Nat} (sound : line.Sound lo hi') (later : hi ≤ hi')
    {message : RemoteRequest} (sends : StageSends line.jobs lo hi message) : line.Sends lo hi' message := by
  cases sends with
  | job blockFor job member =>
    refine .job blockFor job (List.mem_append_left _ member) fun same => ?_
    have before := sound.last job member
    rw [same] at before
    exact absurd before (lt_irrefl _)
  | file id path within => exact .file id path (within.mono later)
  | remote id => exact .remote id

theorem beginLine_begins {plan : Plan} {line : Line} (ok : beginLine trans plan start = .ok (.ok (some line),next)) :
    Begins line start next := by
  obtain ⟨stage?,middle,stepped,rest⟩ := bind_ok.mp ok
  cases stage? with
  | none => cases rest
  | some stage =>
    have staged := runSteps_staged staged_start stepped
    obtain ⟨directory,second,begun,rest₁⟩ := bind_ok.mp rest
    obtain ⟨rfl,ids,⟨remote,sent⟩,remote?,eof,gathering,shown⟩ := beginDirectory_ok begun
    obtain ⟨remote',third,current,rest₂⟩ := bind_ok.mp rest₁
    obtain rfl := curRemote_ok current
    obtain ⟨sinks,last,read,rest₃⟩ := bind_ok.mp rest₂
    obtain ⟨ends,ids',kept,more,appended,all⟩ := readSinks_ok read
    rw [get_bind] at rest₃
    obtain ⟨_,_,rest₄⟩ := lift_bind_ok.mp rest₃
    obtain ⟨_,_,updated,rest₅⟩ := bind_ok.mp rest₄
    obtain ⟨_,rfl⟩ := Prod.mk.inj (Except.ok.inj updated)
    obtain ⟨same,rfl⟩ := pure_ok.mp rest₅
    obtain rfl := Option.some.inj same
    have hi : last.ids.nextId = middle.ids.nextId + 4 := by rw [ids',ids]
    have sound := line_sound staged hi ends
    refine ⟨sound,?_,?_,rfl,?_,?_,?_⟩
    · obtain ⟨before,steps,early⟩ := staged.sent
      refine ⟨before ++ ((directoryRequests stage.jobs middle.ids.nextId).map (Request.mk remote.val) ++ more),?_,?_⟩
      · change last.sent = _
        rw [appended,sent,steps]
        simp only [List.append_assoc]
      · intro request member
        rcases List.mem_append.mp member with stepped | member
        · exact stage_sends sound (by omega) (early request stepped)
        rcases List.mem_append.mp member with asked | sunk
        · obtain ⟨message,listed,rfl⟩ := List.mem_map.mp asked
          exact directory_sends rfl message listed
        · obtain ⟨⟨pipe,sink⟩,listed,msg,same⟩ := all request sunk
          rw [same]
          exact .pipe _ _ (Or.inr ⟨sink,listed⟩)
    · exact kept.waitingForRemote.trans (remote?.trans staged.kept.waitingForRemote)
    · exact kept.waitingForEof.trans (eof.trans (by rw [staged.kept.waitingForEof]; rfl))
    · intro pipe
      change last.handler.gatheringOutput.lookup pipe = _
      rw [kept.gatheringOutput,gathering,staged.kept.gatheringOutput]
      rfl
    · exact kept.shown.trans (shown.trans staged.kept.shown)

end Shell
end Nak
