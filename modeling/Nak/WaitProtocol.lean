import Nak.Interrupts
import Nak.PlanBuilder

/-! What the loop of the shell waits for, tied to what a conforming backend may still send:
reads that are begun are registered until they are closed, and what is gathered of a pipe is
what its Data messages have carried. -/
namespace Nak
open Library Action

namespace Session

theorem begunReads_append (sent more : List Request) : begunReads (sent ++ more) = begunReads sent ++ begunReads more :=
  List.filterMap_append ..

theorem closedReads_append (received more : List RemoteResponse) :
    closedReads (received ++ more) = closedReads received ++ closedReads more := List.filterMap_append ..

theorem dataOf_append (pipe : GenericPipe) (received more : List RemoteResponse) :
    dataOf pipe (received ++ more) = dataOf pipe received ++ dataOf pipe more := by
  rw [dataOf,List.filterMap_append,carried_append]
  rfl

theorem dataOf_unanswered {pipe : GenericPipe} {received : List RemoteResponse}
    (unanswered : ∀ envelope ∈ received.filterMap RemoteResponse.envelope?, envelope.id ≠ pipe.val) :
    dataOf pipe received = [] := by
  refine List.flatMap_eq_nil_iff.mpr fun envelope member => ?_
  unfold PipeEnvelope.dataFor
  split
  · exact if_neg (unanswered envelope member)
  · rfl

def Registered (handler : StackedRemotes) (pipe : GenericPipe) : Prop :=
  (handler.gatheringOutput.lookup pipe).isSome ∨ pipe ∈ handler.stdoutPipes ∨ pipe ∈ handler.stderrPipes

structure Tracks (received : List RemoteResponse) (endpoint : Endpoint StackedRemotes) : Prop where
  drawn : ∀ id ∈ endpoint.pipes, id < endpoint.ids.nextId
  reads : ∀ pipe ∈ begunReads endpoint.sent, pipe.val ∈ endpoint.pipes ∧
    (pipe ∈ closedReads received ∨ Registered endpoint.handler pipe)
  answered : ∀ envelope ∈ received.filterMap RemoteResponse.envelope?, envelope.id ∈ endpoint.pipes
  gathered : ∀ pipe out, endpoint.handler.gatheringOutput.lookup pipe = some out → out = dataOf pipe received
  /-- The directory is still read, or its answer is finished. -/
  directories : ∀ remote pipe, endpoint.handler.cwdForRemote.lookup remote = some pipe → remote = Endpoint.root ∧
    ((pipe ∈ endpoint.handler.waitingForEof ∧ (endpoint.handler.gatheringOutput.lookup pipe).isSome) ∨
      (pipe ∈ closedReads received ∧ endpoint.handler.finishedOutput.lookup pipe = some (dataOf pipe received)))
  hosts : ∀ entry ∈ endpoint.handler.remotes, entry.1 = Endpoint.root
  waits : ∀ id, endpoint.handler.waitingForRemote = some id → id = Endpoint.root
  root : endpoint.remotes.lookup Endpoint.root = some ⟨none⟩

theorem tracks_new : Tracks [] (Endpoint.new StackedRemotes.new) where
  drawn := by simp [Endpoint.new]
  reads := by simp [Endpoint.new,begunReads]
  answered := by simp
  gathered := nofun
  directories := nofun
  hosts := by simp [Endpoint.new,StackedRemotes.new]
  waits id same := (Option.some.inj same).symm
  root := Finmap.lookup_singleton_eq

section Response
variable {received : List RemoteResponse} {endpoint next : Endpoint StackedRemotes} {id endOffset : Nat} {data : Bytes}

theorem dataOf_data (pipe : GenericPipe) : dataOf pipe (received ++ [.pipe ⟨id,.data data endOffset⟩]) =
    dataOf pipe received ++ if pipe = ⟨id⟩ then data else [] := by
  rw [dataOf_append]
  congr 1
  have value : id = pipe.val ↔ pipe = ⟨id⟩ := by
    cases pipe
    simp [eq_comm]
  simp [dataOf,carried,RemoteResponse.envelope?,PipeEnvelope.dataFor,value]

theorem dataOf_closed (pipe : GenericPipe) :
    dataOf pipe (received ++ [.pipe ⟨id,.closed endOffset⟩]) = dataOf pipe received := by
  rw [dataOf_append]
  exact List.append_nil _

theorem closedReads_data : closedReads (received ++ [.pipe ⟨id,.data data endOffset⟩]) = closedReads received := by
  rw [closedReads_append]
  exact List.append_nil _

theorem closedReads_closed :
    closedReads (received ++ [.pipe ⟨id,.closed endOffset⟩]) = closedReads received ++ [⟨id⟩] := closedReads_append _ _

theorem Tracks.other (tracks : Tracks received endpoint) (response : RemoteResponse)
    (other : response.envelope? = none) :
    Tracks (received ++ [response]) endpoint := by
  have envelopes : (received ++ [response]).filterMap RemoteResponse.envelope? =
      received.filterMap RemoteResponse.envelope? := by
    simp [List.filterMap_append,other]
  have closes : response.closes? = none := by
    cases response with
    | pipe envelope => cases other
    | remoteReady => rfl
    | commandDone => rfl
    | directoryListing => rfl
    | editRequest => rfl
  have closed : closedReads (received ++ [response]) = closedReads received := by
    simp [closedReads,List.filterMap_append,closes]
  have same (pipe : GenericPipe) : dataOf pipe (received ++ [response]) = dataOf pipe received :=
    congrArg (carried pipe) envelopes
  obtain ⟨drawn,reads,answered,gathered,directories,hosts,waits,root⟩ := tracks
  refine ⟨drawn,closed ▸ reads,envelopes ▸ answered,?_,?_,hosts,waits,root⟩
  · exact fun pipe out found => (gathered pipe out found).trans (same pipe).symm
  · intro remote pipe found
    rw [closed,same]
    exact directories remote pipe found

theorem Tracks.answers (tracks : Tracks received endpoint) (known : id ∈ endpoint.pipes) (msg : PipeMessage) :
    ∀ envelope ∈ (received ++ [RemoteResponse.pipe ⟨id,msg⟩]).filterMap RemoteResponse.envelope?, envelope.id ∈
      endpoint.pipes := by
  intro envelope member
  rw [List.filterMap_append] at member
  rcases List.mem_append.mp member with old | new
  · exact tracks.answered envelope old
  · obtain rfl : envelope = ⟨id,msg⟩ := by simpa [RemoteResponse.envelope?] using new
    exact known

theorem Tracks.carries (tracks : Tracks received endpoint) (known : id ∈ endpoint.pipes)
    (going : ⟨id⟩ ∉ closedReads received) {gathering : FiniteMap GenericPipe Bytes} {shown : List Shown}
    (own : ∀ out, gathering.lookup ⟨id⟩ = some out →
      ∃ before, endpoint.handler.gatheringOutput.lookup ⟨id⟩ = some before ∧ out = before ++ data)
    (others : ∀ pipe, pipe ≠ ⟨id⟩ → gathering.lookup pipe = endpoint.handler.gatheringOutput.lookup pipe)
    (stays : ∀ pipe, (endpoint.handler.gatheringOutput.lookup pipe).isSome → (gathering.lookup pipe).isSome) :
    Tracks (received ++ [.pipe ⟨id,.data data endOffset⟩])
      (endpoint.changed fun handler => { handler with gatheringOutput := gathering, shown }) where
  drawn := tracks.drawn
  reads pipe member := by
    rw [closedReads_data]
    exact (tracks.reads pipe member).imp_right fun either => either.imp_right fun registered =>
      registered.imp_left (stays pipe)
  answered := tracks.answers known _
  gathered pipe out found := by
    rw [dataOf_data]
    by_cases same : pipe = ⟨id⟩
    · subst same
      obtain ⟨before,gathered,rfl⟩ := own out found
      rw [if_pos rfl,tracks.gathered _ before gathered]
    · rw [if_neg same,List.append_nil]
      exact tracks.gathered pipe out ((others pipe same).symm.trans found)
  directories remote pipe listed := by
    obtain ⟨root,reading | finished⟩ := tracks.directories remote pipe listed
    · exact ⟨root,Or.inl ⟨reading.1,stays pipe reading.2⟩⟩
    · have apart : pipe ≠ ⟨id⟩ := fun same => going (same ▸ finished.1)
      rw [closedReads_data,dataOf_data,if_neg apart,List.append_nil]
      exact ⟨root,Or.inr finished⟩
  hosts := tracks.hosts
  waits := tracks.waits
  root := tracks.root

/-- The pipe is closed: what was gathered of it is finished, and no one waits for its end. -/
theorem Tracks.closes (tracks : Tracks received endpoint) (known : id ∈ endpoint.pipes)
    (going : ⟨id⟩ ∉ closedReads received) {gathering finished : FiniteMap GenericPipe Bytes}
    (own : ∀ out, endpoint.handler.gatheringOutput.lookup ⟨id⟩ = some out → finished.lookup ⟨id⟩ = some out)
    (gone : gathering.lookup ⟨id⟩ = none)
    (others : ∀ pipe, pipe ≠ ⟨id⟩ → gathering.lookup pipe = endpoint.handler.gatheringOutput.lookup pipe ∧
      finished.lookup pipe = endpoint.handler.finishedOutput.lookup pipe) :
    Tracks (received ++ [.pipe ⟨id,.closed endOffset⟩]) (endpoint.changed fun handler => { handler with
      waitingForEof := handler.waitingForEof.erase ⟨id⟩
      gatheringOutput := gathering
      finishedOutput := finished }) where
  drawn := tracks.drawn
  reads pipe member := by
    obtain ⟨made,either⟩ := tracks.reads pipe member
    rw [closedReads_closed]
    refine ⟨made,?_⟩
    by_cases same : pipe = ⟨id⟩
    · exact Or.inl (List.mem_append_right _ (List.mem_singleton.mpr same))
    · refine either.imp (List.mem_append_left _) fun registered => registered.imp_left fun gathers => ?_
      change (gathering.lookup pipe).isSome
      rw [(others pipe same).1]
      exact gathers
  answered := tracks.answers known _
  gathered pipe out found := by
    rw [dataOf_closed]
    by_cases same : pipe = ⟨id⟩
    · rw [same] at found
      cases gone.symm.trans found
    · exact tracks.gathered pipe out ((others pipe same).1.symm.trans found)
  directories remote pipe listed := by
    obtain ⟨root,reading | ended⟩ := tracks.directories remote pipe listed
    · refine ⟨root,?_⟩
      rw [closedReads_closed,dataOf_closed]
      by_cases same : pipe = ⟨id⟩
      · subst same
        obtain ⟨out,found⟩ := Option.isSome_iff_exists.mp reading.2
        refine Or.inr ⟨List.mem_append_right _ (List.mem_singleton.mpr rfl),?_⟩
        rw [← tracks.gathered _ out found]
        exact own out found
      · refine Or.inl ⟨Finset.mem_erase.mpr ⟨same,reading.1⟩,?_⟩
        change (gathering.lookup pipe).isSome
        rw [(others pipe same).1]
        exact reading.2
    · have apart : pipe ≠ ⟨id⟩ := fun same => going (same ▸ ended.1)
      rw [closedReads_closed,dataOf_closed]
      exact ⟨root,Or.inr ⟨List.mem_append_left _ ended.1,(others pipe apart).2.trans ended.2⟩⟩
  hosts := tracks.hosts
  waits := tracks.waits
  root := tracks.root

/-- The response is about no pipe, or about one that is not closed yet. -/
def Open (received : List RemoteResponse) (response : RemoteResponse) : Prop :=
  ∀ envelope, response = .pipe envelope → ⟨envelope.id⟩ ∉ closedReads received

theorem Tracks.receipt (tracks : Tracks received endpoint) {msg : Response} (going : Open received msg.message)
    (receipt : Receipt endpoint msg next) : Tracks (received ++ [msg.message]) next := by
  cases receipt with
  | ready id info waiting =>
    obtain ⟨drawn,reads,answered,gathered,directories,hosts,waits,root⟩ := tracks.other (.remoteReady info) rfl
    refine ⟨drawn,reads,answered,gathered,directories,?_,nofun,root⟩
    intro entry member
    rcases List.mem_append.mp member with old | new
    · exact hosts entry old
    · rw [List.mem_singleton.mp new]
      exact waits _ waiting
  | done remoteId id exitCode listed =>
    obtain ⟨drawn,reads,answered,gathered,directories,hosts,waits,root⟩ :=
      tracks.other (.commandDone id exitCode) rfl
    exact ⟨drawn,reads,answered,gathered,directories,hosts,waits,root⟩
  | edited remoteId commandId editId name data parent newData shown told job =>
    obtain ⟨drawn,reads,answered,gathered,directories,hosts,waits,root⟩ :=
      tracks.other (.editRequest commandId editId name data) rfl
    refine ⟨drawn,fun pipe member => reads pipe ?_,answered,gathered,directories,hosts,waits,root⟩
    have same : begunReads (endpoint.sent ++ [⟨parent.val,.finishEdit editId newData⟩]) = begunReads endpoint.sent :=
      (begunReads_append _ _).trans (List.append_nil _)
    exact same ▸ member
  | gathered remoteId id data endOffset out known found =>
    refine tracks.carries known (going _ rfl) ?_ ?_ ?_
    · intro after same
      exact ⟨out,found,(Option.some.inj ((Finmap.lookup_insert _).symm.trans same)).symm⟩
    · exact fun pipe different => Finmap.lookup_insert_of_ne _ different
    · intro pipe gathers
      rw [FiniteMap.lookup_insert_if]
      split
      · rfl
      · exact gathers
  | shown remoteId id data endOffset stream known absent =>
    refine tracks.carries known (going _ rfl) ?_ (fun _ _ => rfl) (fun _ gathers => gathers)
    intro after same
    cases absent.symm.trans same
  | finished remoteId id endOffset out known found =>
    refine tracks.closes known (going _ rfl) ?_ (Finmap.lookup_erase _ _) ?_
    · intro after same
      obtain rfl := Option.some.inj (found.symm.trans same)
      exact Finmap.lookup_insert _
    · exact fun pipe different => ⟨Finmap.lookup_erase_ne different,Finmap.lookup_insert_of_ne _ different⟩
  | closed remoteId id endOffset known absent =>
    refine tracks.closes known (going _ rfl) ?_ absent (fun _ _ => ⟨rfl,rfl⟩)
    intro out same
    cases absent.symm.trans same

end Response

section Line
open Shell
variable {received : List RemoteResponse} {endpoint next : Endpoint StackedRemotes}

theorem prompt_tracks (tracks : Tracks received endpoint) {text : String}
    (ok : prompt endpoint = .ok (.ok text,next)) : Tracks received next ∧ next.handler.cwdForRemote = ∅ := by
  obtain ⟨finished,remotes,rfl,ids,-⟩ := prompt_shape ok
  obtain ⟨drawn,reads,answered,gathered,_,hosts,waits,root⟩ := tracks
  refine ⟨⟨drawn,reads,answered,gathered,nofun,?_,waits,root⟩,rfl⟩
  intro entry member
  have listed : entry.1 ∈ endpoint.handler.remotes.map Prod.fst := ids ▸ List.mem_map_of_mem member
  obtain ⟨old,known,same⟩ := List.mem_map.mp listed
  exact same ▸ hosts old known

/-- What the steps of a line do to all that is tracked: they make pipes. -/
structure Grows (start next : Endpoint StackedRemotes) : Prop where
  handler : next.handler = start.handler
  remotes : next.remotes = start.remotes
  reads : begunReads next.sent = begunReads start.sent
  pipes : ∀ id ∈ start.pipes, id ∈ next.pipes
  drawn : (∀ id ∈ start.pipes, id < start.ids.nextId) → ∀ id ∈ next.pipes, id < next.ids.nextId

theorem Grows.refl : Grows endpoint endpoint := ⟨rfl,rfl,rfl,fun _ => id,id⟩

theorem Grows.trans {last : Endpoint StackedRemotes} (first : Grows endpoint next) (second : Grows next last) :
    Grows endpoint last where
  handler := second.handler.trans first.handler
  remotes := second.remotes.trans first.remotes
  reads := second.reads.trans first.reads
  pipes id member := second.pipes id (first.pipes id member)
  drawn before := second.drawn (first.drawn before)

theorem Tracks.grows (tracks : Tracks received endpoint) (grows : Grows endpoint next) : Tracks received next := by
  obtain ⟨handler,remotes,reads,pipes,drawn⟩ := grows
  constructor
  · exact drawn tracks.drawn
  · intro pipe member
    rw [reads] at member
    rw [handler]
    exact (tracks.reads pipe member).imp_left (pipes pipe.val)
  · exact fun envelope member => pipes _ (tracks.answered envelope member)
  · exact handler ▸ tracks.gathered
  · exact handler ▸ tracks.directories
  · exact handler ▸ tracks.hosts
  · exact handler ▸ tracks.waits
  · exact remotes ▸ tracks.root

def Opened (pairs : List PipePair) (endpoint : Endpoint StackedRemotes) : Prop :=
  ∀ read ∈ readEnds pairs, read.val ∈ endpoint.pipes

variable {trans : Transport Error}

theorem insert_drawn {pipes : Finset Nat} {drawn : Nat} (before : ∀ id ∈ pipes, id < drawn) :
    ∀ id ∈ insert drawn pipes, id < drawn + 1 := by
  intro id member
  rcases Finset.mem_insert.mp member with rfl | old
  · exact Nat.lt_succ_self _
  · exact Nat.lt_succ_of_lt (before id old)

/-- The remote at the top of the stack is the root, and it is never closed. -/
theorem endRemote_root (hosts : ∀ entry ∈ endpoint.handler.remotes, entry.1 = Endpoint.root)
    (root : endpoint.remotes.lookup Endpoint.root = some ⟨none⟩) {result : Except Error Unit} :
    endRemote trans endpoint ≠ .ok (result,next) := by
  intro ok
  unfold endRemote at ok
  rw [get_bind] at ok
  obtain ⟨⟨id,rem⟩,last,ok⟩ := lift_bind_ok.mp ok
  obtain rfl : id = Endpoint.root := hosts _ (List.mem_of_getLast? ((Outcome.unwrap_ok _ _).mp last))
  change (Endpoint.closeRemote trans Endpoint.root : Shell Unit) _ = _ at ok
  unfold Endpoint.closeRemote at ok
  rw [get_bind] at ok
  obtain ⟨state,found,ok⟩ := lift_bind_ok.mp ok
  obtain rfl := Option.some.inj (root.symm.trans ((Outcome.expect_ok _ _ _).mp found))
  rw [modify_bind] at ok
  obtain ⟨parent,named,_⟩ := lift_bind_ok.mp ok
  cases named

theorem runStep_grows (tracks : Tracks received endpoint) {stage after : Stage} {step : Step}
    (opened : Opened stage.pipePairs endpoint) (cases : StepCases trans stage endpoint step after next) :
    Grows endpoint next ∧ Opened after.pipePairs next := by
  cases cases with
  | pipe =>
    refine ⟨⟨rfl,rfl,rfl,fun id => Finset.mem_insert_of_mem,insert_drawn⟩,?_⟩
    intro read member
    simp only [readEnds,List.filterMap_append,List.mem_append] at member
    rcases member with old | new
    · exact Finset.mem_insert_of_mem (opened read old)
    · obtain rfl : read = ⟨endpoint.ids.nextId⟩ := by simpa using new
      exact Finset.mem_insert_self ..
  | run ref remote cmd process stdin stdout stderr one two three current first second third =>
    refine ⟨⟨rfl,rfl,?_,fun _ => id,?_⟩,?_⟩
    · exact (begunReads_append _ _).trans (List.append_nil _)
    · exact fun before id member => Nat.lt_succ_of_lt (before id member)
    · intro read member
      have left := (takeRead_ok third).1.mem_iff.mpr (List.mem_cons_of_mem _ member)
      rw [(takeWrite_ok second).2,(takeWrite_ok first).2] at left
      exact opened read left
  | close ref next several ended => exact absurd ended (endRemote_root tracks.hosts tracks.root)
  | openOutputFile ref remote path current =>
    refine ⟨⟨rfl,rfl,?_,fun id => Finset.mem_insert_of_mem,insert_drawn⟩,?_⟩
    · exact (begunReads_append _ _).trans (List.append_nil _)
    · intro read member
      simp only [readEnds,List.filterMap_append,List.mem_append] at member
      rcases member with old | new
      · exact Finset.mem_insert_of_mem (opened read old)
      · simp at new

theorem runSteps_grows (tracks : Tracks received endpoint) {steps : List Step} {stage after : Stage}
    (opened : Opened stage.pipePairs endpoint)
    (ok : runSteps trans steps stage endpoint = .ok (.ok (some after),next)) :
    Grows endpoint next ∧ Opened after.pipePairs next := by
  have keeps (stage : Stage) (middle : Endpoint StackedRemotes) (step : Step) (after : Stage)
      (next : Endpoint StackedRemotes) (before : Grows endpoint middle ∧ Opened stage.pipePairs middle)
      (cases : StepCases trans stage middle step after next) : Grows endpoint next ∧ Opened after.pipePairs next := by
    obtain ⟨more,opened⟩ := runStep_grows (tracks.grows before.1) before.2 cases
    exact ⟨before.1.trans more,opened⟩
  exact runSteps_keeps keeps ⟨.refl,opened⟩ ok

theorem curRemote_root (tracks : Tracks received endpoint) {remote : RemoteId}
    (ok : curRemote endpoint = .ok (.ok remote,next)) : remote = Endpoint.root := by
  unfold curRemote at ok
  rw [get_bind] at ok
  obtain ⟨⟨id,rem⟩,last,ok⟩ := lift_bind_ok.mp ok
  obtain ⟨same,_⟩ := Prod.mk.inj (Except.ok.inj ok)
  obtain rfl : id = remote := Except.ok.inj same
  exact tracks.hosts _ (List.mem_of_getLast? ((Outcome.unwrap_ok _ _).mp last))

theorem Tracks.silent (tracks : Tracks received endpoint) {id : Nat} (fresh : endpoint.ids.nextId ≤ id) :
    dataOf ⟨id⟩ received = [] := by
  refine dataOf_unanswered fun envelope member same => ?_
  have before := tracks.drawn _ (tracks.answered envelope member)
  rw [same] at before
  exact absurd before (Nat.not_lt_of_le fresh)

theorem beginDirectory_tracks (tracks : Tracks received endpoint) (drained : endpoint.handler.cwdForRemote = ∅)
    {jobs : List Job} {directory : Job} (ok : beginDirectory trans jobs endpoint = .ok (.ok directory,next)) :
    Tracks received next ∧ ∀ id ∈ endpoint.pipes, id ∈ next.pipes := by
  obtain ⟨rfl,remote,current,rfl⟩ := beginDirectory_shape ok
  obtain rfl := curRemote_root tracks current
  have reads : begunReads (endpoint.sent ++ (directoryRequests jobs endpoint.ids.nextId).map
    (Request.mk Endpoint.root.val)) =
      begunReads endpoint.sent ++ [⟨endpoint.ids.nextId⟩,⟨endpoint.ids.nextId + 1⟩] := by
    rw [begunReads_append]
    rfl
  have made (id : Nat) (member : id ∈ endpoint.pipes) : id ∈ insert (endpoint.ids.nextId + 2)
      (insert (endpoint.ids.nextId + 1) (insert endpoint.ids.nextId endpoint.pipes)) :=
    Finset.mem_insert_of_mem (Finset.mem_insert_of_mem (Finset.mem_insert_of_mem member))
  have gathering (pipe : GenericPipe) :
      (endpoint.handler.gatheringOutput.insert (⟨endpoint.ids.nextId⟩ : GenericPipe) []).lookup pipe =
        if pipe = ⟨endpoint.ids.nextId⟩ then some [] else endpoint.handler.gatheringOutput.lookup pipe :=
    FiniteMap.lookup_insert_if _ _ _ _
  have gathers : ((endpoint.handler.gatheringOutput.insert (⟨endpoint.ids.nextId⟩ : GenericPipe) []).lookup
      ⟨endpoint.ids.nextId⟩).isSome := by
    rw [gathering,if_pos rfl]
    rfl
  refine ⟨?_,made⟩
  constructor
  · intro id member
    have below := insert_drawn (insert_drawn (insert_drawn tracks.drawn)) id member
    exact below.trans (Nat.lt_succ_self _)
  · intro pipe member
    rw [reads] at member
    rcases List.mem_append.mp member with old | new
    · obtain ⟨known,either⟩ := tracks.reads pipe old
      refine ⟨made _ known,either.imp_right fun registered => ?_⟩
      rcases registered with gathers | shown | shown
      · refine Or.inl ?_
        dsimp only
        rw [gathering]
        split
        · rfl
        · exact gathers
      · exact Or.inr (Or.inl shown)
      · exact Or.inr (Or.inr (Finset.mem_insert_of_mem shown))
    · rcases List.mem_cons.mp new with rfl | new
      · exact ⟨by simp,Or.inr (Or.inl gathers)⟩
      · obtain rfl := List.mem_singleton.mp new
        exact ⟨by simp,Or.inr (Or.inr (Or.inr (Finset.mem_insert_self ..)))⟩
  · exact fun envelope member => made _ (tracks.answered envelope member)
  · intro pipe out found
    dsimp only at found
    rw [gathering] at found
    split at found
    · rename_i same
      rw [same,tracks.silent le_rfl,Option.some.inj found]
    · exact tracks.gathered pipe out found
  · intro remote pipe found
    dsimp only at found
    rw [drained] at found
    by_cases same : remote = Endpoint.root
    · subst same
      obtain rfl : ⟨endpoint.ids.nextId⟩ = pipe := Option.some.inj ((AList.lookup_insert _).symm.trans found)
      exact ⟨rfl,Or.inl ⟨Finset.mem_insert_self ..,gathers⟩⟩
    · cases (AList.lookup_insert_ne same).symm.trans found
  · exact tracks.hosts
  · exact tracks.waits
  · exact tracks.root

theorem Tracks.shows (tracks : Tracks received endpoint) {read : ReadPipe} (known : read.val ∈ endpoint.pipes)
    {stdoutPipes stderrPipes : Finset GenericPipe} (out : endpoint.handler.stdoutPipes ⊆ stdoutPipes)
    (err : endpoint.handler.stderrPipes ⊆ stderrPipes)
    (shown : read.toGeneric ∈ stdoutPipes ∨ read.toGeneric ∈ stderrPipes) (remote : RemoteId) (size : Nat) :
    Tracks received { endpoint with
      sent := endpoint.sent ++ [⟨remote.val,.pipe ⟨read.val,.beginRead⟩⟩] ++
        [⟨remote.val,.pipe ⟨read.val,.read size⟩⟩]
      handler := { endpoint.handler with stdoutPipes, stderrPipes } } where
  drawn := tracks.drawn
  reads pipe member := by
    simp only [begunReads_append,List.mem_append] at member
    rcases member with (old | new) | other
    · refine (tracks.reads pipe old).imp_right fun either => either.imp_right fun registered => ?_
      exact registered.imp_right fun shown => shown.imp (fun member => out member) (fun member => err member)
    · obtain rfl := List.mem_singleton.mp new
      exact ⟨known,Or.inr (Or.inr shown)⟩
    · cases other
  answered := tracks.answered
  gathered := tracks.gathered
  directories := tracks.directories
  hosts := tracks.hosts
  waits := tracks.waits
  root := tracks.root

theorem readSinks_tracks (tracks : Tracks received endpoint) {remote : RemoteId} {index : Nat}
    {sinkMap : List (Option Sink)} {pairs : List PipePair} {sinks : List (GenericPipe × Sink)}
    (shown : ∀ sink, some sink ∈ sinkMap → sink = .stdout ∨ sink = .stderr) (opened : Opened pairs endpoint)
    (ok : readSinks trans remote index sinkMap pairs endpoint = .ok (.ok sinks,next)) : Tracks received next := by
  induction sinkMap generalizing index pairs endpoint sinks with
  | nil =>
    obtain ⟨_,rfl⟩ := pure_ok.mp ok
    exact tracks
  | cons sink sinkMap ih =>
    have later (sink : Sink) (member : some sink ∈ sinkMap) := shown sink (List.mem_cons_of_mem _ member)
    cases sink with
    | none => exact ih tracks later opened ok
    | some sink =>
      obtain ⟨read,left,middle,_,taken,_,registered,others⟩ := readSinks_some ok
      have reads := (takeRead_ok taken).1
      have known := opened read (reads.mem_iff.mpr (List.mem_cons_self ..))
      have fewer (other : ReadPipe) (member : other ∈ readEnds left) : other.val ∈ endpoint.pipes :=
        opened other (reads.mem_iff.mpr (List.mem_cons_of_mem _ member))
      rcases shown sink (List.mem_cons_self ..) with rfl | rfl
      · obtain ⟨_,rfl⟩ := Prod.mk.inj (Except.ok.inj registered)
        refine ih (tracks.shows known (Finset.subset_insert _ _) subset_rfl ?_ _ _) later fewer others
        exact Or.inl (Finset.mem_insert_self ..)
      · obtain ⟨_,rfl⟩ := Prod.mk.inj (Except.ok.inj registered)
        refine ih (tracks.shows known subset_rfl (Finset.subset_insert _ _) ?_ _ _) later fewer others
        exact Or.inr (Finset.mem_insert_self ..)

/-- The plan shows what it does not feed to a process. -/
def Shows (plan : Plan) : Prop := ∀ sink, some sink ∈ plan.sinkMap → sink = .stdout ∨ sink = .stderr

theorem beginLine_tracks (tracks : Tracks received endpoint) (drained : endpoint.handler.cwdForRemote = ∅)
    {plan : Plan} (shows : Shows plan) {line : Line}
    (ok : beginLine trans plan endpoint = .ok (.ok (some line),next)) : Tracks received next := by
  obtain ⟨stage?,middle,stepped,rest⟩ := bind_ok.mp ok
  cases stage? with
  | none => cases rest
  | some stage =>
    obtain ⟨grows,opened⟩ := runSteps_grows tracks (fun _ member => absurd member List.not_mem_nil) stepped
    obtain ⟨directory,second,begun,rest₁⟩ := bind_ok.mp rest
    obtain ⟨kept,made⟩ := beginDirectory_tracks (tracks.grows grows) (grows.handler ▸ drained) begun
    obtain ⟨remote,third,current,rest₂⟩ := bind_ok.mp rest₁
    rw [curRemote_ok current] at rest₂
    obtain ⟨sinks,last,read,rest₃⟩ := bind_ok.mp rest₂
    have done := readSinks_tracks kept shows (fun read member => made _ (opened read member)) read
    rw [get_bind] at rest₃
    obtain ⟨_,_,rest₄⟩ := lift_bind_ok.mp rest₃
    obtain ⟨_,_,updated,rest₅⟩ := bind_ok.mp rest₄
    obtain ⟨_,rfl⟩ := Prod.mk.inj (Except.ok.inj updated)
    obtain ⟨_,rfl⟩ := pure_ok.mp rest₅
    obtain ⟨drawn,reads,answered,gathered,directories,hosts,waits,root⟩ := done
    exact ⟨drawn,reads,answered,gathered,directories,hosts,waits,root⟩

theorem readLine_tracks (tracks : Tracks received endpoint) {inputs : Inputs}
    (shows : ∀ text plan, inputs.getCommand text = .ok (.ok plan) → Shows plan) {line : Line}
    (ok : readLine inputs endpoint = .ok (.ok (.begun line),next)) : Tracks received next := by
  obtain ⟨text,middle,prompted,rest⟩ := bind_ok.mp ok
  obtain ⟨plan,given,rest₁⟩ := lift_bind_ok.mp rest
  obtain ⟨got,_,propagated,rest₂⟩ := bind_ok.mp rest₁
  obtain ⟨rfl,rfl⟩ := Prod.mk.inj (Except.ok.inj propagated)
  obtain ⟨done,_,begun,last⟩ := bind_ok.mp rest₂
  obtain ⟨kept,drained⟩ := prompt_tracks tracks prompted
  cases done with
  | none => cases last
  | some other =>
    obtain ⟨_,rfl⟩ := pure_ok.mp last
    exact beginLine_tracks kept drained (shows text got given) begun

/-- The panics of the checks on what is waited for: the assertions, and data of a pipe nobody registered. -/
def Misplaced (panic : Panic) : Prop := panic = .assertion ∨ panic = .expect "bad pipe"

/-- Nothing is waited for, and the root is the only remote. -/
structure Idle (endpoint : Endpoint StackedRemotes) : Prop where
  hosts : ∀ entry ∈ endpoint.handler.remotes, entry.1 = Endpoint.root
  root : endpoint.remotes.lookup Endpoint.root = some ⟨none⟩
  waitingFor : endpoint.handler.waitingFor = ∅

theorem unwrap_free {α : Type} {option : Option α} {panic : Panic} (raised : Outcome.unwrap option = .error panic) :
    ¬Misplaced panic := by
  cases option with
  | some value => cases raised
  | none =>
    obtain rfl := Except.error.inj raised
    simp [Misplaced]

theorem send_idle (remote : RemoteId) (message : RemoteRequest) :
    Triple Misplaced Idle (Endpoint.send trans remote message) fun _ => Idle :=
  (Triple.propagate fun _ _ idle _ => idle).bind fun _ => .modify fun _ idle => ⟨idle.hosts,idle.root,idle.waitingFor⟩

theorem nextId_idle : Triple Misplaced Idle (Endpoint.nextId : Shell Nat) fun _ => Idle :=
  Triple.get.bind fun _ => (Triple.modify fun _ given => ⟨given.2.hosts,given.2.root,given.2.waitingFor⟩).bind fun _ =>
    .pure fun _ idle => idle

theorem pipe_idle : Triple Misplaced Idle (Endpoint.pipe : Shell _) fun _ => Idle :=
  nextId_idle.bind fun _ => (Triple.modify fun _ idle => ⟨idle.hosts,idle.root,idle.waitingFor⟩).bind fun _ =>
    .pure fun _ idle => idle

theorem curRemote_idle : Triple Misplaced Idle curRemote fun remote endpoint =>
    remote = Endpoint.root ∧ Idle endpoint := by
  refine Triple.get.bind fun first => Triple.bind (.lift ?_ ?_) fun entry => .pure fun _ given => given
  · exact fun _ _ _ raised => unwrap_free raised
  · intro state entry given last
    obtain ⟨rfl,idle⟩ := given
    exact ⟨idle.hosts _ (List.mem_of_getLast? ((Outcome.unwrap_ok _ _).mp last)),idle⟩

theorem assertOpen_idle : Triple Misplaced Idle (Endpoint.assertOpen Endpoint.root : Shell Unit) fun _ => Idle := by
  refine Triple.get.bind fun first => (Triple.assert ?_).conclude fun _ _ given => given.2
  intro state given
  obtain ⟨rfl,idle⟩ := given
  exact FiniteMap.mem_of_lookup idle.root

theorem command_idle (command : Command) (blockFor : OrderedMap ProcessId Condition) (pipes : WritePipes) :
    Triple Misplaced Idle (Endpoint.command trans Endpoint.root command blockFor pipes) fun _ => Idle :=
  assertOpen_idle.bind fun _ => nextId_idle.bind fun _ => (send_idle _ _).bind fun _ =>
    (Triple.modify fun _ idle => ⟨idle.hosts,idle.root,idle.waitingFor⟩).bind fun _ => .pure fun _ idle => idle

theorem openOutputFile_idle (path : String) :
    Triple Misplaced Idle (Endpoint.openOutputFile trans Endpoint.root path) fun _ => Idle :=
  assertOpen_idle.bind fun _ => nextId_idle.bind fun _ =>
    (Triple.modify fun _ idle => ⟨idle.hosts,idle.root,idle.waitingFor⟩).bind fun _ => (send_idle _ _).bind fun _ =>
      .pure fun _ idle => idle

theorem take_idle {α : Type} {pairs : List PipePair} {index : Nat} {take : PipePair → Option α}
    {rest : PipePair → List PipePair} : Triple Misplaced Idle (lift (match pairs[index]? with
      | none => .error .bounds
      | some pair => do
        let taken ← Outcome.unwrap (take pair)
        pure (taken,rest pair)) : Shell (α × List PipePair)) fun _ => Idle := by
  refine .lift ?_ fun _ _ idle _ => idle
  intro state panic _ raised
  split at raised
  · obtain rfl := Except.error.inj raised
    simp [Misplaced]
  · rcases Outcome.bind_error.mp raised with early | late
    · exact unwrap_free early
    · obtain ⟨_,_,last⟩ := late
      cases last

theorem takeRead_idle (pairs : List PipePair) (index : Nat) :
    Triple Misplaced Idle (lift (takeRead pairs index) : Shell _) fun _ => Idle := by
  unfold takeRead
  exact take_idle

theorem takeWrite_idle (pairs : List PipePair) (index : Nat) :
    Triple Misplaced Idle (lift (takeWrite pairs index) : Shell _) fun _ => Idle := by
  unfold takeWrite
  exact take_idle

theorem endRemote_idle : Triple Misplaced Idle (endRemote trans) fun _ => Idle where
  panics := by
    have free : Triple.Free Misplaced (endRemote trans) :=
      Triple.Free.get.bind fun _ => (Triple.Free.lift fun _ => unwrap_free).bind fun _ =>
        (Triple.Free.modify _).bind fun _ => Triple.Free.get.bind fun _ =>
          (Triple.Free.expect (by simp [Misplaced])).bind fun _ => (Triple.Free.modify _).bind fun _ =>
            (Triple.Free.expect (by simp [Misplaced])).bind fun _ =>
              (Triple.Free.propagate _).bind fun _ => .modify _
    intro state panic _ raised
    exact free.panics trivial raised
  returns idle ok := absurd ok (endRemote_root idle.hosts idle.root)

theorem runStep_idle (stage : Stage) (step : Step) :
    Triple Misplaced Idle (runStep trans stage step) fun _ => Idle := by
  have other {α : Type} : Triple Misplaced Idle (.panic .explicit : Shell α) fun _ => Idle :=
    .panic (by simp [Misplaced])
  cases step with
  | pipe => exact pipe_idle.bind fun _ => .pure fun _ idle => idle
  | pager => exact other
  | editor => exact other
  | remote ref step =>
    cases step with
    | openInputFile path => exact other
    | beginRemote cmd => exact other
    | run cmd process =>
      refine curRemote_idle.bind fun remote => .pointwise fun state given => ?_
      obtain ⟨rfl,idle⟩ := given
      refine Triple.weaken ?_ fun _ same => same ▸ idle
      exact (takeWrite_idle _ _).bind fun _ => (takeWrite_idle _ _).bind fun _ => (takeRead_idle _ _).bind fun _ =>
        (command_idle _ _ _).bind fun _ => .pure fun _ idle => idle
    | close =>
      refine Triple.get.bind fun first => Triple.weaken ?_ fun _ given => given.2
      split
      · exact endRemote_idle.bind fun _ => .pure fun _ idle => idle
      · exact .pure fun _ idle => idle
    | openOutputFile path =>
      refine curRemote_idle.bind fun remote => .pointwise fun state given => ?_
      obtain ⟨rfl,idle⟩ := given
      refine Triple.weaken ?_ fun _ same => same ▸ idle
      exact (openOutputFile_idle _).bind fun _ => .pure fun _ idle => idle

theorem runSteps_idle (steps : List Step) (stage : Stage) :
    Triple Misplaced Idle (runSteps trans steps stage) fun _ => Idle := by
  induction steps generalizing stage with
  | nil => exact .pure fun _ idle => idle
  | cons step steps ih =>
    refine (runStep_idle stage step).bind fun after => ?_
    cases after with
    | none => exact .pure fun _ idle => idle
    | some after => exact ih after

theorem beginDirectory_idle (jobs : List Job) : Triple Misplaced Idle (beginDirectory trans jobs) fun _ => Idle := by
  refine curRemote_idle.bind fun remote => .pointwise fun state given => ?_
  obtain ⟨rfl,idle⟩ := given
  refine Triple.weaken ?_ fun _ same => same ▸ idle
  exact pipe_idle.bind fun _ => pipe_idle.bind fun _ => pipe_idle.bind fun _ => (command_idle _ _ _).bind fun _ =>
    (send_idle _ _).bind fun _ => (send_idle _ _).bind fun _ => (send_idle _ _).bind fun _ =>
      (send_idle _ _).bind fun _ => (Triple.modify fun _ idle => ⟨idle.hosts,idle.root,idle.waitingFor⟩).bind fun _ =>
        .pure fun _ idle => idle

theorem readSinks_idle (remote : RemoteId) (index : Nat) (sinkMap : List (Option Sink)) (pairs : List PipePair) :
    Triple Misplaced Idle (readSinks trans remote index sinkMap pairs) fun _ => Idle := by
  induction sinkMap generalizing index pairs with
  | nil => exact .pure fun _ idle => idle
  | cons sink sinkMap ih =>
    cases sink with
    | none => exact ih (index + 1) pairs
    | some sink =>
      have registers (pipe : GenericPipe) : Triple Misplaced Idle (registerSink pipe sink) fun _ => Idle := by
        cases sink with
        | devNull => exact .pure fun _ idle => idle
        | stdout => exact .modify fun _ idle => ⟨idle.hosts,idle.root,idle.waitingFor⟩
        | stderr => exact .modify fun _ idle => ⟨idle.hosts,idle.root,idle.waitingFor⟩
        | gather => exact .panic (by simp [Misplaced])
        | pager => exact .panic (by simp [Misplaced])
      exact (takeRead_idle _ _).bind fun _ => (send_idle _ _).bind fun _ => (send_idle _ _).bind fun _ =>
        (registers _).bind fun _ => (ih _ _).bind fun _ => .pure fun _ idle => idle

theorem beginLine_idle (plan : Plan) : Triple Misplaced Idle (beginLine trans plan) fun _ _ => True := by
  refine (runSteps_idle plan.steps _).bind fun stage => ?_
  cases stage with
  | none => exact .pure fun _ _ => trivial
  | some stage =>
    refine (beginDirectory_idle stage.jobs).bind fun directory => curRemote_idle.bind fun remote => ?_
    refine Triple.weaken ?_ fun _ given => given.2
    refine (readSinks_idle remote _ _ _).bind fun sinks => Triple.get.bind fun last => ?_
    refine (Triple.assert ?_).bind fun _ => Triple.weaken ((Triple.Free.modify _).bind fun _ => .pure _) fun _ _ =>
      trivial
    intro state given
    obtain ⟨rfl,idle⟩ := given
    rw [idle.waitingFor]
    rfl

theorem drainCwd_panics {cwds : List (Σ _ : RemoteId, GenericPipe)} {handler : StackedRemotes} {panic : Panic}
    (raised : drainCwd cwds handler = .error panic) : ¬Misplaced panic := by
  have working (remote : RemoteId) (result : Bytes) (remotes : List (RemoteId × RemoteInfo))
      (raised : setWorkingDir remote result remotes = .error panic) : ¬Misplaced panic := by
    induction remotes generalizing result with
    | nil => cases raised
    | cons entry remotes ih =>
      obtain ⟨id,rem⟩ := entry
      have others {result : Bytes} (raised : (do
          let remotes ← setWorkingDir remote result remotes
          pure ((id,rem) :: remotes) : Outcome _) = .error panic) : ¬Misplaced panic := by
        rcases Outcome.bind_error.mp raised with early | late
        · exact ih _ early
        · obtain ⟨_,_,last⟩ := late
          cases last
      unfold setWorkingDir at raised
      split at raised
      · split at raised
        · rcases Outcome.bind_error.mp raised with early | late
          · exact unwrap_free early
          · obtain ⟨_,_,last⟩ := late
            cases last
        · exact others raised
      · exact others raised
  induction cwds generalizing handler with
  | nil => cases raised
  | cons entry cwds ih =>
    rcases Outcome.bind_error.mp raised with early | late
    · exact unwrap_free early
    · obtain ⟨result,_,rest⟩ := late
      rcases Outcome.bind_error.mp rest with early | late
      · exact working _ _ _ early
      · obtain ⟨_,_,last⟩ := late
        exact ih last

theorem prompt_idle : Triple Misplaced Idle prompt fun _ => Idle := by
  have drains (first : Endpoint StackedRemotes) : Triple Misplaced (fun state => first = state ∧ Idle state)
      (lift (drainCwd first.handler.cwdForRemote.entries first.handler) : Shell StackedRemotes)
      fun handler state => state.handler.waitingFor = handler.waitingFor ∧ Idle state ∧
        ∀ entry ∈ handler.remotes, entry.1 = Endpoint.root := by
    refine .lift (fun _ _ _ raised => drainCwd_panics raised) fun state handler given drained => ?_
    obtain ⟨rfl,idle⟩ := given
    obtain ⟨finished,remotes,rfl,ids,-⟩ := drainCwd_shape drained
    refine ⟨rfl,idle,fun entry member => ?_⟩
    have listed : entry.1 ∈ first.handler.remotes.map Prod.fst := ids ▸ List.mem_map_of_mem member
    obtain ⟨old,known,same⟩ := List.mem_map.mp listed
    exact same ▸ idle.hosts old known
  refine Triple.get.bind fun first => (drains first).bind fun handler => ?_
  refine (Triple.modify fun state given => ?_).bind fun _ =>
    (Triple.lift (fun _ _ _ raised => unwrap_free raised) fun _ _ idle _ => idle).bind fun _ => .pure fun _ idle => idle
  obtain ⟨waits,idle,hosts⟩ := given
  exact ⟨hosts,idle.root,waits.symm.trans idle.waitingFor⟩

theorem readLine_idle {inputs : Inputs} (returns : ∀ text, (inputs.getCommand text).Returns) :
    Triple Misplaced Idle (readLine inputs) fun _ _ => True := by
  have reads (text : String) : Triple Misplaced Idle (lift (inputs.getCommand text) : Shell _) fun _ => Idle := by
    refine .lift (fun _ panic _ raised => ?_) fun _ _ idle _ => idle
    obtain ⟨plan,given⟩ := returns text
    cases raised.symm.trans given
  refine prompt_idle.bind fun text => (reads text).bind fun plan => ?_
  refine (Triple.propagate fun _ _ idle _ => idle).bind fun plan => (beginLine_idle plan).bind fun line => ?_
  cases line with
  | none => exact .pure fun _ _ => trivial
  | some line => exact .pure fun _ _ => trivial

end Line

variable {session after : Session} {inputs : Inputs}

theorem pipe_placed {terminal : Terminal} {pipe : GenericPipe} {endpoint : Endpoint StackedRemotes}
    (registered : Registered endpoint.handler pipe) (data : Bytes) (endOffset : Nat) :
    Triple Misplaced (· = endpoint) (StackedRemotes.pipe terminal pipe (.data data endOffset)) fun _ _ => True := by
  refine Triple.get.bind fun first => .pointwise fun state given => ?_
  obtain ⟨rfl,rfl⟩ := given
  refine Triple.weaken ?_ fun _ _ => trivial
  have printed (stream : Stream) : Triple.Free Misplaced (do
      Action.propagate terminal.writeAll
      StackedRemotes.print stream (some pipe) data : Shell Unit) :=
    (Triple.Free.propagate _).bind fun _ => .modify _
  split
  · exact Triple.Free.modify _
  · rename_i absent
    rcases registered with gathers | shown
    · rw [absent] at gathers
      cases gathers
    · split
      · exact printed .stdout
      · rename_i unshown
        rw [if_pos (shown.resolve_left unshown)]
        exact printed .stderr

theorem receive_placed {terminal : Terminal} {trans : Transport Error} {msg : Response}
    (tracks : Tracks session.received session.endpoint) (counted : session.Counted) (answers : session.Answers msg)
    (quiet : ∀ commandId editId name data, msg.message ≠ .editRequest commandId editId name data) :
    Triple Misplaced (· = session.endpoint) (Endpoint.receive (StackedRemotes.handler terminal trans) msg)
      fun _ _ => True := by
  have sets (change : StackedRemotes → StackedRemotes) {pre : Endpoint StackedRemotes → Prop} :
      Triple Misplaced pre (StackedRemotes.update change) fun _ _ => True := .modify fun _ _ => trivial
  obtain ⟨remoteId,message⟩ := msg
  cases message with
  | remoteReady info =>
    obtain ⟨root,_⟩ := answers
    have waiting (first : Endpoint StackedRemotes) : Triple Misplaced
        (fun state => first = state ∧ state = session.endpoint)
        (lift (Outcome.expect "no remote waiting" first.handler.waitingForRemote) : Shell RemoteId)
        fun waiting _ => waiting = Endpoint.root := by
      refine .lift (fun _ _ _ raised => ?_) fun state waiting given found => ?_
      · rw [((Outcome.expect_error _ _ _).mp raised).2]
        simp [Misplaced]
      · obtain ⟨rfl,rfl⟩ := given
        exact tracks.waits _ ((Outcome.expect_ok _ _ _).mp found)
    refine Triple.get.bind fun first => (waiting first).bind fun remote => (Triple.assert ?_).bind fun _ => sets _
    intro _ same
    rw [same]
    exact congrArg RemoteId.mk root.symm
  | commandDone id exitCode =>
    refine Triple.get.bind fun first => (Triple.assert ?_).bind fun _ => sets _
    intro state given
    obtain ⟨rfl,rfl⟩ := given
    exact counted id answers
  | directoryListing => exact answers.elim
  | editRequest commandId editId name data => exact absurd rfl (quiet commandId editId name data)
  | pipe envelope =>
    obtain ⟨id,msg⟩ := envelope
    have known (reading : session.Reading ⟨id⟩) (first : Endpoint StackedRemotes) : Triple Misplaced
        (fun state => first = state ∧ state = session.endpoint) (lift (Outcome.assert (id ∈ first.pipes)) : Shell Unit)
        fun _ state => state = session.endpoint := by
      refine (Triple.assert fun state given => ?_).conclude fun _ _ given => given.2
      obtain ⟨rfl,rfl⟩ := given
      exact (tracks.reads _ reading.1).1
    cases msg with
    | data data endOffset =>
      have reading : session.Reading ⟨id⟩ := answers
      refine Triple.get.bind fun first => (known reading first).bind fun _ => pipe_placed ?_ data endOffset
      exact (tracks.reads _ reading.1).2.resolve_left reading.2
    | closed endOffset =>
      refine Triple.get.bind fun first => (known answers first).bind fun _ => Triple.weaken ?_ fun _ _ => trivial
      refine (Triple.Free.modify _).bind fun _ => Triple.Free.get.bind fun _ => ?_
      split
      · exact Triple.Free.modify _
      · exact Triple.Free.pure _
    | beginRead => exact answers.elim
    | read => exact answers.elim

/-- The plans are built by `parse_command_simple`, the backend conforms, and there is neither
a Ctrl-C nor an edit request. -/
structure Orderly (session : Session) (inputs : Inputs) : Prop where
  plans : ∀ text, ∃ result, inputs.getCommand text = .ok result ∧ ∀ plan, result = .ok plan →
    ∃ remotes prefs cmd, planCommandSimple remotes prefs cmd = .ok (.ok plan)
  conforms : session.Conforms inputs
  uninterrupted : inputs.recv ≠ .ok .ctrlC
  unedited : ∀ remoteId commandId editId name data,
    inputs.recv ≠ .ok (.remote ⟨remoteId,.editRequest commandId editId name data⟩)

theorem Orderly.shows (orderly : session.Orderly inputs) (text : String) (plan : Plan)
    (given : inputs.getCommand text = .ok (.ok plan)) : Shows plan := by
  obtain ⟨result,read,built⟩ := orderly.plans text
  obtain ⟨remotes,prefs,cmd,ok⟩ := built plan (Except.ok.inj (read.symm.trans given))
  intro sink member
  rw [planCommandSimple_sinks remotes prefs ok] at member
  simpa using member

theorem answers_open {msg : Response} (answers : session.Answers msg) : Open session.received msg.message := by
  obtain ⟨remoteId,message⟩ := msg
  intro envelope same
  obtain ⟨id,msg⟩ := envelope
  obtain rfl : message = _ := same
  cases msg with
  | data data endOffset => exact answers.2
  | closed endOffset => exact answers.2
  | beginRead => exact answers.elim
  | read => exact answers.elim

theorem turns_tracks (tracks : Tracks session.received session.endpoint) (orderly : session.Orderly inputs)
    (turns : session.Turns inputs after) : Tracks after.received after.endpoint := by
  cases turns with
  | prompt line endpoint idle read => exact readLine_tracks tracks orderly.shows read
  | message msg endpoint awaits given handled =>
    have conforms := orderly.conforms
    unfold Conforms at conforms
    rw [given] at conforms
    exact tracks.receipt (answers_open (conforms awaits)) (receive_receipt handled)
  | interrupt endpoint awaits given cancelled => exact absurd given orderly.uninterrupted

theorem run_tracks {trace : List Inputs} (run : (system.restrict Orderly).Run trace session) :
    Tracks session.received session.endpoint := by
  refine run.invariant (fun _ session => Tracks session.received session.endpoint) ?_ ?_
  · intro session start
    obtain rfl := start
    exact tracks_new
  · intro _ session inputs after _ tracks taken
    exact turns_tracks tracks taken.2 (next_ok taken.1).2

/-- All directories that were asked for have answered, and what is taken of an answer is what
its pipe has carried. -/
theorem drained_finished (tracks : Tracks session.received session.endpoint) (idle : ¬session.Awaits)
    {drained rest : List (Σ _ : RemoteId, GenericPipe)} {entry : Σ _ : RemoteId, GenericPipe} {handler : StackedRemotes}
    (entries : session.endpoint.handler.cwdForRemote.entries = drained ++ entry :: rest)
    (ok : Shell.drainCwd drained session.endpoint.handler = .ok handler) :
    handler.finishedOutput.lookup entry.2 = some (dataOf entry.2 session.received) := by
  have root (other : Σ _ : RemoteId, GenericPipe) (member : other ∈ session.endpoint.handler.cwdForRemote.entries) :
      other.1 = Endpoint.root :=
    (tracks.directories other.1 other.2 (AList.mem_lookup_iff.mpr member)).1
  have member : entry ∈ session.endpoint.handler.cwdForRemote.entries := by
    rw [entries]
    simp
  -- There is one remote, so nothing is drained before its entry.
  have first : drained = [] := by
    cases drained with
    | nil => rfl
    | cons other more =>
      have distinct := session.endpoint.handler.cwdForRemote.nodupKeys
      rw [entries] at distinct
      have apart : other.1 ∉ (more ++ entry :: rest).keys := (List.nodupKeys_cons.mp distinct).1
      have same : other.1 = entry.1 := (root other (by rw [entries]; simp)).trans (root entry member).symm
      exact absurd (by rw [same]; simp [List.keys]) apart
  subst first
  obtain rfl := Except.ok.inj ok
  obtain ⟨_,reading | finished⟩ := tracks.directories entry.1 entry.2 (AList.mem_lookup_iff.mpr member)
  · have none := Finset.card_eq_zero.mp (not_not.mp (not_or.mp idle).2).2
    rw [none] at reading
    exact absurd reading.1 (Finset.notMem_empty _)
  · exact finished.2

/-- No turn of an orderly run fails an assertion or meets data of an unregistered pipe, and at
the prompt every directory that is drained is finished with exactly the data of its pipe. -/
theorem wait_protocol {trace : List Inputs} (run : (system.restrict Orderly).Run trace session)
    (orderly : session.Orderly inputs) :
    Shell.oneLoop inputs session.endpoint ≠ .error .assertion ∧
      Shell.oneLoop inputs session.endpoint ≠ .error (.expect "bad pipe") ∧
      (¬session.Awaits → ∀ drained entry rest handler,
        session.endpoint.handler.cwdForRemote.entries = drained ++ entry :: rest →
        Shell.drainCwd drained session.endpoint.handler = .ok handler →
        handler.finishedOutput.lookup entry.2 = some (dataOf entry.2 session.received)) := by
  have tracks := run_tracks run
  have counted := run_counted run
  have looped : Triple Misplaced (· = session.endpoint) (Shell.oneLoop inputs) fun _ _ => True := by
    refine Shell.oneLoop_rule (by simp [Misplaced]) ?_ ?_ fun given => absurd given orderly.uninterrupted
    · intro _ idle
      have returns (text : String) : (inputs.getCommand text).Returns := by
        obtain ⟨result,given,_⟩ := orderly.plans text
        exact ⟨result,given⟩
      refine (readLine_idle returns).weaken fun state same => ?_
      rw [same]
      exact ⟨tracks.hosts,tracks.root,Finset.card_eq_zero.mp idle.1⟩
    · intro msg given busy
      have conforms := orderly.conforms
      unfold Conforms at conforms
      rw [given] at conforms
      refine receive_placed tracks counted (conforms busy) fun commandId editId name data same => ?_
      obtain ⟨remoteId,message⟩ := msg
      obtain rfl : message = _ := same
      exact orderly.unedited _ _ _ _ _ given
  refine ⟨fun panics => ?_,fun panics => ?_,fun idle drained entry rest handler => drained_finished tracks idle⟩
  · exact looped.panics rfl panics (Or.inl rfl)
  · exact looped.panics rfl panics (Or.inr rfl)

/-- Neither a Ctrl-C nor an edit request. -/
def Calm (inputs : Inputs) : Prop :=
  match inputs.recv with
  | .ok .ctrlC => False
  | .ok (.remote ⟨_,.editRequest ..⟩) => False
  | _ => True

instance : (inputs : Inputs) → Decidable (Calm inputs)
  | ⟨_,_,.ok .ctrlC,_,_⟩ => isFalse id
  | ⟨_,_,.ok (.remote ⟨_,.editRequest ..⟩),_,_⟩ => isFalse id
  | ⟨_,_,.ok (.remote ⟨_,.remoteReady _⟩),_,_⟩ => isTrue trivial
  | ⟨_,_,.ok (.remote ⟨_,.commandDone ..⟩),_,_⟩ => isTrue trivial
  | ⟨_,_,.ok (.remote ⟨_,.directoryListing ..⟩),_,_⟩ => isTrue trivial
  | ⟨_,_,.ok (.remote ⟨_,.pipe _⟩),_,_⟩ => isTrue trivial
  | ⟨_,_,.ok .key,_,_⟩ => isTrue trivial
  | ⟨_,_,.error _,_,_⟩ => isTrue trivial

theorem orderly_given {event : Event} {order : List ProcessId} (conforms : session.Conforms (given event order))
    (calm : Calm (given event order)) : session.Orderly (given event order) where
  plans _ := by
    refine ⟨_,rfl,fun plan same => ⟨⟨[⟨0⟩]⟩,⟨[]⟩,.cmd ⟨none,[.normal "sleep",.normal "9"]⟩,?_⟩⟩
    obtain rfl : sleeping = plan := Except.ok.inj same
    rfl
  conforms := conforms
  uninterrupted same := by
    rw [Calm,same] at calm
    exact calm
  unedited remoteId commandId editId name data same := by
    rw [Calm,same] at calm
    exact calm

def answering : List (Event × List ProcessId) :=
  [(.remote ⟨0,.remoteReady ⟨"localhost","nak","/"⟩⟩,[]),(.key,[]),
    (.remote ⟨0,.pipe ⟨4,.data (bytes "/ho") 3⟩⟩,[⟨3⟩,⟨7⟩]),
    (.remote ⟨0,.commandDone ⟨7⟩ 0⟩,[⟨3⟩,⟨7⟩]),(.remote ⟨0,.pipe ⟨4,.data (bytes "me\n") 6⟩⟩,[⟨3⟩]),
    (.remote ⟨0,.commandDone ⟨3⟩ 0⟩,[⟨3⟩]),(.remote ⟨0,.pipe ⟨4,.closed 6⟩⟩,[])]

theorem wait_protocol_answered : ∃ trace session, (system.restrict Orderly).Run trace session ∧ ¬session.Awaits ∧
    Shell.oneLoop (given .key []) session.endpoint ≠ .error .assertion ∧
    session.endpoint.handler.finishedOutput.lookup ⟨4⟩ = some (bytes "/home\n") := by
  obtain ⟨session,run,idle,entries,data⟩ := System.ends_run new next
    (fun session inputs => session.Conforms inputs ∧ Calm inputs)
    (fun session => ¬session.Awaits ∧ session.endpoint.handler.cwdForRemote.entries = [⟨Endpoint.root,⟨4⟩⟩] ∧
      dataOf ⟨4⟩ session.received = bytes "/home\n")
    (show System.ends new next _ _ (answering.map fun entry => given entry.1 entry.2) = true by decide +kernel)
  have orderly := run.permitted fun label member session allowed => by
    obtain ⟨entry,_,rfl⟩ := List.mem_map.mp member
    exact orderly_given allowed.1 allowed.2
  obtain ⟨unasserted,_,drains⟩ := wait_protocol orderly (@orderly_given session .key [] trivial trivial)
  refine ⟨_,session,orderly,idle,unasserted,?_⟩
  rw [← data]
  exact drains idle [] ⟨Endpoint.root,⟨4⟩⟩ [] _ entries rfl

end Session
end Nak
