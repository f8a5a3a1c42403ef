import Nak.LineFrames
import Nak.PlanWiring
import Nak.WaitProtocol

/-! What a line typed at the prompt makes of the session. A line that is begun leaves the loop
going; which lines are begun is read off the line itself. -/
namespace Nak
open Library Action Parse Grammar

/-- Of the words of a command only three are looked at. `nak` is not to be run, and `cd` and
`micro` have one argument. -/
def Usable : List String → Prop
  | [] => False
  | head :: rest => head ≠ "nak" ∧ (head = "cd" ∨ head = "micro" → rest.length = 1)

instance : (words : List String) → Decidable (Usable words)
  | [] => inferInstanceAs (Decidable False)
  | _ :: _ => inferInstanceAs (Decidable (_ ∧ (_ → _)))

def Target.cmd? : Target Cmd → Option Cmd
  | .file _ => none
  | .command cmd => some cmd

def Grammar.Pipeline.commands (pipeline : Pipeline) : List Cmd :=
  pipeline.head :: pipeline.targets.filterMap Target.cmd?

/-- There is no `;` outside quotes, and each command, as the aliases rewrite it, can be used. -/
def Runnable (prefs : Prefs) (line : String) : Prop :=
  ∃ tokens, lex line.toList = some tokens ∧ .semicolon ∉ tokens ∧
    ∀ segment, tokens ≠ [] → readSegment tokens = some segment → ∀ cmd ∈ segment.pipeline.commands,
      ∃ words, prefs.expand (cmd.words.map Word.expandString) = .ok words ∧ Usable words

/-- No command is rewritten to nothing. -/
def Prefs.Expands (prefs : Prefs) : Prop :=
  ∀ words, words ≠ [] → ∃ head rest, prefs.expand words = .ok (head :: rest)

section Usable
variable {prefs : Prefs} {line : String} {ast : Ast}

theorem checkSingleArg_ok (rest : List String) : (∃ arg, checkSingleArg rest = .ok arg) ↔ rest.length = 1 := by
  match rest with
  | [] => simp [checkSingleArg]
  | [arg] => simp [checkSingleArg]
  | _ :: _ :: _ => simp [checkSingleArg]

theorem convertSingle_usable {cmd : Cmd} {words : List String}
    (expanded : prefs.expand (cmd.words.map Word.expandString) = .ok words) :
    (∃ command, convertSingle prefs cmd = .ok (.ok command)) ↔ Usable words := by
  have single (make : String → Command) (rest : List String) :
      (∃ command, (checkSingleArg rest).map make = .ok command) ↔ rest.length = 1 := by
    rw [← checkSingleArg_ok]
    cases checkSingleArg rest <;> simp [Except.map]
  rw [convertSingle,expanded,Outcome.ok_bind]
  cases words with
  | nil => simp [Usable]
  | cons head rest =>
    dsimp only
    rw [Usable]
    split
    · rename_i cd
      simpa [cd] using single .setDirectory rest
    · split
      · rename_i micro
        simpa [micro] using single .edit rest
      · split
        · rename_i nak
          cases rest <;> simp [nak,Outcome.unwrap]
        · rename_i cd micro nak
          simp [cd,micro,nak]

theorem converts_commands {pipeline : Pipeline} : Converts prefs pipeline.ast ↔
    ∀ cmd ∈ pipeline.commands, ∃ command, convertSingle prefs cmd = .ok (.ok command) := by
  have clauses (targets : List (Target Cmd)) : ClausesConvert prefs (targets.map clause) ↔
      ∀ cmd ∈ targets.filterMap Target.cmd?, ∃ command, convertSingle prefs cmd = .ok (.ok command) := by
    induction targets with
    | nil => simp [ClausesConvert]
    | cons target targets ih =>
      cases target with
      | file path => simpa [ClausesConvert,ClauseConverts,clause,TargetConverts,Target.cmd?] using ih
      | command cmd => simp [ClausesConvert,ClauseConverts,clause,TargetConverts,Target.cmd?,Converts,ih]
  obtain ⟨head,targets⟩ := pipeline
  rw [Pipeline.commands,List.forall_mem_cons,← clauses,Pipeline.ast]
  split
  · rename_i none
    obtain rfl : targets = [] := none
    simp [Converts,ClausesConvert]
  · simp [Converts]

theorem commands_words {tokens : List Token} {segment : Segment} (read : readSegment tokens = some segment) :
    ∀ cmd ∈ segment.pipeline.commands, cmd.words.map Word.expandString ≠ [] := by
  have some (words : List String) : (command words).words.map Word.expandString ≠ [] := by
    rw [command]
    split <;> simp_all
  refine List.forall_mem_cons.mpr ⟨some _,?_⟩
  induction tokens generalizing segment with
  | nil =>
    cases read
    simp [Segment.pipeline]
  | cons token tokens ih =>
    obtain ⟨before,found,extended⟩ := Option.bind_eq_some_iff.mp read
    have earlier := ih found
    cases token with
    | word text =>
      cases extended
      exact earlier
    | semicolon => cases extended
    | pipe =>
      cases extended
      exact List.forall_mem_cons.mpr ⟨some _,earlier⟩
    | redirect =>
      simp only [extend] at extended
      split at extended
      all_goals cases extended
      all_goals exact earlier

/-- A line that the grammar reads converts exactly when it is runnable. -/
theorem converts_runnable (expands : prefs.Expands) (read : reference line = some ast) :
    Converts prefs ast ↔ Runnable prefs line := by
  obtain ⟨tokens,lexed,cases⟩ := reference_cases read
  rw [Runnable,lexed]
  simp only [Option.some.injEq,exists_eq_left']
  rcases cases with ⟨rfl,rfl⟩ | ⟨some,segment,parsed,rfl⟩ | ⟨separated,head,clauses,rfl⟩
  · simp [Converts]
  · have commands : (∀ cmd ∈ segment.pipeline.commands, ∃ command, convertSingle prefs cmd = .ok (.ok command)) ↔
        ∀ cmd ∈ segment.pipeline.commands,
          ∃ words, prefs.expand (cmd.words.map Word.expandString) = .ok words ∧ Usable words := by
      refine forall₂_congr fun cmd listed => ?_
      obtain ⟨first,rest,expanded⟩ := expands _ (commands_words parsed cmd listed)
      rw [convertSingle_usable expanded,expanded]
      simp
    rw [converts_commands,commands]
    constructor
    · rintro all
      refine ⟨readSegment_inside parsed,?_⟩
      intro other _ again
      obtain rfl := Option.some.inj (parsed.symm.trans again)
      exact all
    · rintro ⟨-,all⟩
      exact all segment some parsed
  · simp [Converts,separated]

end Usable

namespace Shell
variable {trans : Transport Error} {inputs : Inputs} {endpoint next : Endpoint StackedRemotes}

/-- Only a stack of two remotes is ever made shorter. -/
structure Stays (start next : Endpoint StackedRemotes) : Prop where
  kept : start.handler.remotes.length ≤ 1 → next.remotes = start.remotes ∧
    next.handler.remotes.map Prod.fst = start.handler.remotes.map Prod.fst ∧
    next.handler.waitingForRemote = start.handler.waitingForRemote

instance : IsPreorder (Endpoint StackedRemotes) Stays where
  refl _ := ⟨fun _ => ⟨rfl,rfl,rfl⟩⟩
  trans _ _ _ first second := by
    refine ⟨fun short => ?_⟩
    obtain ⟨remotes,stack,waiting⟩ := first.kept short
    have length := congrArg List.length stack
    rw [List.length_map,List.length_map] at length
    obtain ⟨remotes',stack',waiting'⟩ := second.kept (length ▸ short)
    exact ⟨remotes'.trans remotes,stack'.trans stack,waiting'.trans waiting⟩

theorem stays_frame : Frame trans Stays where
  own _ _ _ _ _ := ⟨fun _ => ⟨rfl,rfl,rfl⟩⟩
  registers _ _ _ _ _ _ _ := ⟨fun _ => ⟨rfl,rfl,rfl⟩⟩
  closes several _ := ⟨fun short => absurd several (Nat.not_lt_of_le short)⟩

theorem prompt_stays {text : Except Error String} (ok : prompt endpoint = .ok (text,next)) :
    Stays endpoint next ∧ next.handler.waitingFor = endpoint.handler.waitingFor := by
  obtain ⟨finished,remotes,rfl,ids,-⟩ := prompt_shape ok
  exact ⟨⟨fun _ => ⟨rfl,ids,rfl⟩⟩,rfl⟩

theorem readLine_stays {turn : Turn} (ok : readLine inputs endpoint = .ok (.ok turn,next)) : Stays endpoint next :=
  (stays_frame.readLine ⟨fun ok => (prompt_stays ok).1⟩).after ok

theorem cancelAll_stays (order : List ProcessId) : Keeps Stays (cancelAll trans order) := by
  induction order with
  | nil => exact .pure _
  | cons pid order ih =>
    refine Keeps.bind ?_ fun _ => ih
    exact Keeps.get.bind fun _ => (Keeps.lift _).bind fun _ =>
      (Keeps.modify _ fun _ => ⟨fun _ => ⟨rfl,rfl,rfl⟩⟩).bind fun _ => (Frame.assertOpen _).bind fun _ =>
        stays_frame.send _ _

/-- The root is the only remote, once it has reported itself. -/
structure Rooted (endpoint : Endpoint StackedRemotes) : Prop where
  root : Endpoint.root ∈ endpoint.remotes
  stack : endpoint.handler.waitingForRemote = some Endpoint.root ∧ endpoint.handler.remotes = [] ∨
    endpoint.handler.waitingForRemote = none ∧ endpoint.handler.remotes.map Prod.fst = [Endpoint.root]

theorem rooted_new : Rooted (Endpoint.new StackedRemotes.new) := by
  refine ⟨?_,Or.inl ⟨rfl,rfl⟩⟩
  simp [Endpoint.new,Endpoint.root]

theorem Rooted.stays (rooted : Rooted endpoint) (stays : Stays endpoint next) : Rooted next := by
  have short : endpoint.handler.remotes.length ≤ 1 := by
    rcases rooted.stack with ⟨_,empty⟩ | ⟨_,one⟩
    · simp [empty]
    · rw [← List.length_map Prod.fst,one]
      exact Nat.le_refl _
  obtain ⟨remotes,stack,waiting⟩ := stays.kept short
  refine ⟨remotes ▸ rooted.root,?_⟩
  rw [waiting]
  rcases rooted.stack with ⟨waits,empty⟩ | ⟨ready,one⟩
  · refine Or.inl ⟨waits,?_⟩
    rw [empty] at stack
    exact List.map_eq_nil_iff.mp stack
  · exact Or.inr ⟨ready,stack.trans one⟩

theorem Rooted.receipt {msg : Response} (rooted : Rooted endpoint) (receipt : Receipt endpoint msg next) :
    Rooted next := by
  cases receipt with
  | ready id info waiting =>
    refine ⟨rooted.root,Or.inr ⟨rfl,?_⟩⟩
    rcases rooted.stack with ⟨waits,empty⟩ | ⟨ready,_⟩
    · have same := Option.some.inj (waits.symm.trans waiting)
      simp [Endpoint.changed,empty,same]
    · cases ready.symm.trans waiting
  | done => exact ⟨rooted.root,rooted.stack⟩
  | edited => exact ⟨rooted.root,rooted.stack⟩
  | gathered => exact ⟨rooted.root,rooted.stack⟩
  | shown => exact ⟨rooted.root,rooted.stack⟩
  | finished => exact ⟨rooted.root,rooted.stack⟩
  | closed => exact ⟨rooted.root,rooted.stack⟩

/-- The root is the only remote, and no process is waited for. -/
structure Alone (endpoint : Endpoint StackedRemotes) : Prop where
  root : Endpoint.root ∈ endpoint.remotes
  stack : endpoint.handler.remotes.map Prod.fst = [Endpoint.root]
  waitingFor : endpoint.handler.waitingFor = ∅

section Begin
variable (sends : ∀ request, trans request = .ok ())
include sends

theorem send_total (remote : RemoteId) (message : RemoteRequest) :
    Total Alone (Endpoint.send trans remote message) fun _ => Alone where
  returns alone := ⟨_,_,Endpoint.send_taken (sends _),alone.root,alone.stack,alone.waitingFor⟩

omit sends

theorem nextId_total : Total Alone (Endpoint.nextId : Shell Nat) fun _ => Alone where
  returns alone := ⟨_,_,rfl,alone.root,alone.stack,alone.waitingFor⟩

theorem pipe_total : Total Alone (Endpoint.pipe : Shell (ReadPipe × WritePipe)) fun _ => Alone :=
  nextId_total.bind fun _ => (Total.modify fun _ alone => ⟨alone.root,alone.stack,alone.waitingFor⟩).bind fun _ =>
    .pure fun _ alone => alone

theorem curRemote_total : Total Alone curRemote fun remote endpoint => remote = Endpoint.root ∧ Alone endpoint := by
  refine Total.get.bind fun first => Total.bind (.lift fun state given => ?_) fun entry => .pure fun _ given => given
  obtain ⟨rfl,alone⟩ := given
  obtain ⟨entry,one,root⟩ := List.map_eq_singleton_iff.mp alone.stack
  exact ⟨entry,by rw [one]; rfl,root,alone⟩

theorem assertOpen_total : Total Alone (Endpoint.assertOpen Endpoint.root : Shell Unit) fun _ => Alone where
  returns alone := ⟨(),_,by rw [Endpoint.assertOpen,get_bind,Outcome.assert_true alone.root]; rfl,alone⟩

include sends

theorem command_total (command : Command) (blockFor : OrderedMap ProcessId Condition) (pipes : WritePipes) :
    Total Alone (Endpoint.command trans Endpoint.root command blockFor pipes) fun _ => Alone :=
  assertOpen_total.bind fun _ => nextId_total.bind fun _ => (send_total sends _ _).bind fun _ =>
    (Total.modify fun _ alone => ⟨alone.root,alone.stack,alone.waitingFor⟩).bind fun _ => .pure fun _ alone => alone

theorem openOutputFile_total (path : String) :
    Total Alone (Endpoint.openOutputFile trans Endpoint.root path) fun _ => Alone :=
  assertOpen_total.bind fun _ => nextId_total.bind fun _ =>
    (Total.modify fun _ alone => ⟨alone.root,alone.stack,alone.waitingFor⟩).bind fun _ =>
      (send_total sends _ _).bind fun _ => .pure fun _ alone => alone

theorem runStep_total {stage : Stage} {step : Step} {ends : Ends}
    (stepped : Ends.step (endsOf stage.pipePairs) step = some ends) :
    Total Alone (runStep trans stage step) fun after? endpoint =>
      (∃ after, after? = some after ∧ endsOf after.pipePairs = ends) ∧ Alone endpoint := by
  cases Ends.step_stepped stepped with
  | pipe =>
    exact pipe_total.bind fun _ => .pure fun _ alone => ⟨⟨_,rfl,by simp [endsOf]⟩,alone⟩
  | openOutputFile remote path =>
    refine curRemote_total.bind fun remote => Total.given fun same => ?_
    subst same
    exact (openOutputFile_total sends path).bind fun _ => .pure fun _ alone => ⟨⟨_,rfl,by simp [endsOf]⟩,alone⟩
  | run remote cmd process first second next stdout stderr stdin =>
    obtain ⟨out,pairs₁,taken₁,rfl⟩ := takeWrite_endsOf stdout
    obtain ⟨err,pairs₂,taken₂,rfl⟩ := takeWrite_endsOf stderr
    obtain ⟨input,pairs₃,taken₃,rfl⟩ := takeRead_endsOf stdin
    refine curRemote_total.bind fun remote => Total.given fun same => ?_
    subst same
    refine .known taken₁ (.known taken₂ (.known taken₃ ?_))
    exact (command_total sends _ _ _).bind fun _ => .pure fun _ alone => ⟨⟨_,rfl,rfl⟩,alone⟩

theorem runSteps_total {steps : List Step} {stage : Stage} {ends : Ends}
    (run : steps.foldlM Ends.step (endsOf stage.pipePairs) = some ends) :
    Total Alone (runSteps trans steps stage) fun after? endpoint =>
      (∃ after, after? = some after ∧ endsOf after.pipePairs = ends) ∧ Alone endpoint := by
  induction steps generalizing stage with
  | nil =>
    cases run
    exact .pure fun _ alone => ⟨⟨stage,rfl,rfl⟩,alone⟩
  | cons step steps ih =>
    obtain ⟨next,stepped,run⟩ := Option.bind_eq_some_iff.mp run
    refine (runStep_total sends stepped).bind fun after? => Total.given fun made => ?_
    obtain ⟨after,rfl,rfl⟩ := made
    exact ih run

theorem beginDirectory_total (jobs : List Job) : Total Alone (beginDirectory trans jobs) fun _ => Alone := by
  refine curRemote_total.bind fun remote => Total.given fun same => ?_
  subst same
  exact pipe_total.bind fun _ => pipe_total.bind fun _ => pipe_total.bind fun _ =>
    (command_total sends _ _ _).bind fun _ =>
    (send_total sends _ _).bind fun _ => (send_total sends _ _).bind fun _ => (send_total sends _ _).bind fun _ =>
      (send_total sends _ _).bind fun _ =>
        (Total.modify fun _ alone => ⟨alone.root,alone.stack,alone.waitingFor⟩).bind fun _ => .pure fun _ alone => alone

omit sends in
theorem registerSink_total (pipe : GenericPipe) {sink : Sink} (shown : sink = .stdout ∨ sink = .stderr) :
    Total Alone (registerSink pipe sink) fun _ => Alone := by
  rcases shown with rfl | rfl
  · exact .modify fun _ alone => ⟨alone.root,alone.stack,alone.waitingFor⟩
  · exact .modify fun _ alone => ⟨alone.root,alone.stack,alone.waitingFor⟩

theorem readSinks_total {remote : RemoteId} {index : Nat} {sinkMap : List (Option Sink)} {pairs : List PipePair}
    (shown : ∀ sink ∈ sinkMap, ∀ some ∈ sink, some = .stdout ∨ some = .stderr)
    (left : (replaySinks index sinkMap pairs).Returns) :
    Total Alone (readSinks trans remote index sinkMap pairs) fun _ => Alone := by
  induction sinkMap generalizing index pairs with
  | nil => exact .pure fun _ alone => alone
  | cons sink sinkMap ih =>
    obtain ⟨first,others⟩ := List.forall_mem_cons.mp shown
    cases sink with
    | none => exact ih others left
    | some sink =>
      obtain ⟨final,replayed⟩ := left
      obtain ⟨taken,read,rest⟩ := Outcome.bind_ok.mp replayed
      refine .known read ?_
      exact (send_total sends _ _).bind fun _ => (send_total sends _ _).bind fun _ =>
        (registerSink_total _ (first sink rfl)).bind fun _ => (ih others ⟨final,rest⟩).bind fun _ =>
          .pure fun _ alone => alone

theorem beginLine_total {plan : Plan} {ends : Ends} (run : plan.steps.foldlM Ends.step [] = some ends)
    (sinks : plan.sinkMap = [some .stdout,some .stderr]) (first : Ends.Free .read ends 0)
    (second : Ends.Free .read ends 1) :
    Total Alone (beginLine trans plan) fun line? _ => ∃ line, line? = some line := by
  refine (@runSteps_total _ sends _ ⟨[],[]⟩ _ run).bind fun stage? => Total.given fun made => ?_
  obtain ⟨stage,rfl,rfl⟩ := made
  refine (beginDirectory_total sends _).bind fun directory => curRemote_total.bind fun remote => Total.given fun _ => ?_
  rw [sinks]
  refine (readSinks_total sends (by simp) (replaySinks_ok first second)).bind fun read => ?_
  have last (line : Line) : Total (fun _ => True) (pure (some line) : Shell (Option Line))
      fun line? _ => ∃ line, line? = some line := .pure fun _ _ => ⟨line,rfl⟩
  refine Total.get.bind fun endpoint => (Total.assert fun state given => ?_).bind fun _ =>
    (Total.modify fun _ _ => True.intro).bind fun _ => last _
  obtain ⟨rfl,alone⟩ := given
  rw [alone.waitingFor]
  rfl

end Begin

theorem runStep_closed {stage : Stage} {step : Step}
    (closed : runStep trans stage step endpoint = .ok (.ok none,next)) :
    ∃ remote, step = .remote remote .close := by
  cases step with
  | pipe =>
    obtain ⟨_,_,_,last⟩ := bind_ok.mp closed
    cases last
  | pager => cases closed
  | editor => cases closed
  | remote ref step =>
    cases step with
    | openInputFile path => cases closed
    | beginRemote cmd => cases closed
    | run cmd process =>
      obtain ⟨_,_,_,rest⟩ := bind_ok.mp closed
      obtain ⟨_,_,rest⟩ := lift_bind_ok.mp rest
      obtain ⟨_,_,rest⟩ := lift_bind_ok.mp rest
      obtain ⟨_,_,rest⟩ := lift_bind_ok.mp rest
      obtain ⟨_,_,_,last⟩ := bind_ok.mp rest
      cases last
    | close => exact ⟨ref,rfl⟩
    | openOutputFile path =>
      obtain ⟨_,_,_,rest⟩ := bind_ok.mp closed
      obtain ⟨_,_,_,last⟩ := bind_ok.mp rest
      cases last

theorem runSteps_closed {steps : List Step} {stage : Stage}
    (closed : runSteps trans steps stage endpoint = .ok (.ok none,next)) : ∃ remote, .remote remote .close ∈ steps := by
  induction steps generalizing stage endpoint with
  | nil => cases closed
  | cons step steps ih =>
    obtain ⟨after,_,first,rest⟩ := bind_ok.mp closed
    cases after with
    | none =>
      obtain ⟨remote,rfl⟩ := runStep_closed first
      exact ⟨remote,List.mem_cons_self ..⟩
    | some after =>
      obtain ⟨remote,member⟩ := ih rest
      exact ⟨remote,List.mem_cons_of_mem _ member⟩

theorem beginLine_closed {plan : Plan} (closed : beginLine trans plan endpoint = .ok (.ok none,next)) :
    ∃ remote, .remote remote .close ∈ plan.steps := by
  obtain ⟨stage,_,stepped,rest⟩ := bind_ok.mp closed
  cases stage with
  | none => exact runSteps_closed stepped
  | some stage =>
    obtain ⟨_,_,_,rest⟩ := bind_ok.mp rest
    obtain ⟨_,_,_,rest⟩ := bind_ok.mp rest
    obtain ⟨_,_,_,rest⟩ := bind_ok.mp rest
    rw [get_bind] at rest
    obtain ⟨_,_,rest⟩ := lift_bind_ok.mp rest
    obtain ⟨_,_,_,last⟩ := bind_ok.mp rest
    cases last

theorem turn_closed (closed : turn inputs endpoint = .ok (.ok .closed,next)) :
    readLine inputs endpoint = .ok (.ok .closed,next) := by
  have received {msg : Response} {endpoint : Endpoint StackedRemotes} :
      receive inputs msg endpoint ≠ .ok (.ok .closed,next) := by
    intro ok
    obtain ⟨_,_,_,last⟩ := bind_ok.mp ok
    cases last
  unfold turn at closed
  rw [get_bind] at closed
  split at closed
  · obtain ⟨event,_,_,rest⟩ := bind_ok.mp closed
    cases event with
    | remote msg => exact absurd rest received
    | ctrlC => cases rest
    | key => cases rest
  · split at closed
    · exact closed
    · obtain ⟨event,_,_,rest⟩ := bind_ok.mp closed
      cases event with
      | remote msg => exact absurd rest received
      | ctrlC =>
        obtain ⟨_,_,_,last⟩ := bind_ok.mp rest
        cases last
      | key => cases rest

end Shell

namespace Session
open Shell

/-- With any backend and any lines before. -/
theorem reachable_rooted {session : Session} (reached : system.Reachable session) : Rooted session.endpoint := by
  refine reached.invariant (fun session => Rooted session.endpoint) ?_ ?_
  · intro session start
    obtain rfl := start
    exact rooted_new
  · intro session inputs after rooted taken
    cases (next_ok taken).2 with
    | prompt line endpoint idle read => exact rooted.stays (readLine_stays read)
    | message msg endpoint awaits given handled => exact rooted.receipt (receive_receipt handled)
    | interrupt endpoint awaits given cancelled => exact rooted.stays ((cancelAll_stays _).after cancelled)

/-- The loop waits for nothing, and the prompt has a text. -/
def AtPrompt (session : Session) : Prop :=
  ¬session.Awaits ∧ ∃ text endpoint, prompt session.endpoint = .ok (.ok text,endpoint)

variable {session : Session} {inputs : Inputs}

theorem turn_idle (idle : ¬session.Awaits) : turn inputs session.endpoint = readLine inputs session.endpoint := by
  obtain ⟨first,second⟩ := not_or.mp idle
  unfold turn
  rw [get_bind,if_neg first,if_pos (not_not.mp second)]

theorem alone_prompt (rooted : Rooted session.endpoint) (idle : ¬session.Awaits) {text : String}
    {endpoint : Endpoint StackedRemotes} (prompted : prompt session.endpoint = .ok (.ok text,endpoint)) :
    Alone endpoint := by
  obtain ⟨stays,waiting⟩ := prompt_stays prompted
  rcases rooted.stack with ⟨waits,_⟩ | ⟨_,one⟩
  · refine absurd (Or.inl ?_) idle
    rw [waits]
    rfl
  · have length := congrArg List.length one
    rw [List.length_map] at length
    obtain ⟨_,stack,_⟩ := stays.kept length.le
    exact ⟨(rooted.stays stays).root,stack.trans one,waiting.trans (waitingFor_idle idle)⟩

section Reading
variable {text : String} {endpoint : Endpoint StackedRemotes}

theorem oneLoop_raised (idle : ¬session.Awaits) (prompted : prompt session.endpoint = .ok (.ok text,endpoint))
    {error : Error} (refused : inputs.getCommand text = .ok (.error error)) :
    oneLoop inputs session.endpoint = .ok (.error error,endpoint) := by
  have raised : turn inputs session.endpoint = .ok (.error error,endpoint) := by
    rw [turn_idle idle,readLine,ok_bind prompted,lift_continues refused]
    exact raised_bind rfl
  exact raised_bind raised

theorem oneLoop_panics (idle : ¬session.Awaits) (prompted : prompt session.endpoint = .ok (.ok text,endpoint))
    {panic : Panic} (refused : inputs.getCommand text = .error panic) :
    oneLoop inputs session.endpoint = .error panic := by
  have panics : turn inputs session.endpoint = .error panic := by
    rw [turn_idle idle,readLine,ok_bind prompted]
    exact lift_panics refused
  exact panic_bind panics

end Reading

/-- `Ok(false)` comes from a plan that closes a remote, as the one of `exit` does. -/
theorem oneLoop_closed {next : Endpoint StackedRemotes}
    (closed : oneLoop inputs session.endpoint = .ok (.ok false,next)) :
    ∃ text plan remote, inputs.getCommand text = .ok (.ok plan) ∧ .remote remote .close ∈ plan.steps := by
  obtain ⟨done,last,turned,rest⟩ := bind_ok.mp closed
  cases done with
  | handled => cases rest
  | begun line => cases rest
  | closed =>
    have read : readLine inputs session.endpoint = .ok (.ok .closed,last) := turn_closed turned
    obtain ⟨text,_,_,rest⟩ := bind_ok.mp read
    obtain ⟨plan,given,rest⟩ := lift_bind_ok.mp rest
    obtain ⟨_,_,propagated,rest⟩ := bind_ok.mp rest
    obtain ⟨line,_,begun,last⟩ := bind_ok.mp rest
    obtain rfl := (Prod.mk.inj (Except.ok.inj propagated)).1
    cases line with
    | none =>
      obtain ⟨remote,member⟩ := beginLine_closed begun
      exact ⟨text,_,remote,given,member⟩
    | some line => cases last

def typed (prefs : Prefs) (line : String) : Outcome (Except Error Plan) := parseCommandSimple ⟨[⟨0⟩]⟩ prefs line

/-- At the prompt the loop goes on after a line that the parser accepts exactly when the line is
runnable, and it ends with `Ok(false)` only after a plan that closes a remote. -/
theorem commandLine_continues (reached : system.Reachable session) (atPrompt : session.AtPrompt) {prefs : Prefs}
    (expands : prefs.Expands) {line : String} {ast : Ast} (parsed : parseInput line = .ok ast)
    (sends : ∀ request, inputs.trans request = .ok ()) (reads : ∀ text, inputs.getCommand text = typed prefs line) :
    ((∃ next, oneLoop inputs session.endpoint = .ok (.ok true,next)) ↔ Runnable prefs line) ∧
      ∀ others next, oneLoop others session.endpoint = .ok (.ok false,next) →
        ∃ text plan remote, others.getCommand text = .ok (.ok plan) ∧ .remote remote .close ∈ plan.steps := by
  refine ⟨?_,fun others next closed => oneLoop_closed closed⟩
  obtain ⟨idle,text,endpoint,prompted⟩ := atPrompt
  rw [← converts_runnable expands (reference_of_parsed parsed)]
  have planned : typed prefs line = planCommandSimple ⟨[⟨0⟩]⟩ prefs ast := by
    rw [typed,parseCommandSimple,parsed]
    rfl
  constructor
  · rintro ⟨next,continues⟩
    have turns := oneLoop_ok continues
    generalize Session.mk next (session.received ++ session.takes inputs) = after at turns
    cases turns with
    | prompt line endpoint idle read =>
      obtain ⟨_,_,_,rest⟩ := bind_ok.mp read
      obtain ⟨plan,given,rest⟩ := lift_bind_ok.mp rest
      obtain ⟨_,_,propagated,_⟩ := bind_ok.mp rest
      rw [reads,planned,(Prod.mk.inj (Except.ok.inj propagated)).1] at given
      exact (planCommandSimple_iff rfl).mp ⟨_,given⟩
    | message msg endpoint awaits => exact absurd awaits idle
    | interrupt endpoint awaits => exact absurd awaits idle
  · intro converts
    obtain ⟨plan,ends,built,sinks,run,first,second⟩ :=
      @planCommandSimple_run ⟨[⟨0⟩]⟩ prefs ⟨0⟩ rfl ast converts
    obtain ⟨_,next,begun,line,rfl⟩ := (beginLine_total sends run sinks first second).returns
      (alone_prompt (reachable_rooted reached) idle prompted)
    refine ⟨next,?_⟩
    have looped : turn inputs session.endpoint = .ok (.ok (.begun line),next) := by
      rw [turn_idle idle,readLine,ok_bind prompted,reads,planned,lift_continues built]
      exact (ok_bind rfl).trans (ok_bind begun)
    exact ok_bind looped

def ready : Session :=
  ⟨Endpoint.new { StackedRemotes.new with
    waitingForRemote := none, remotes := [(Endpoint.root,⟨"localhost","nak","/"⟩)] },
    [.remoteReady ⟨"localhost","nak","/"⟩]⟩

theorem ready_reachable : system.Reachable ready :=
  ⟨[] ++ [given (.remote ⟨0,.remoteReady ⟨"localhost","nak","/"⟩⟩) []],.step (.initial rfl) rfl⟩

theorem ready_prompt : ready.AtPrompt := ⟨by decide,_,_,rfl⟩

def typing (prefs : Prefs) (line : String) : Inputs :=
  { given .key [] with getCommand := fun _ => typed prefs line }

def colored : Prefs := ⟨[⟨[.literal "ls",.expando 0],[.literal "ls",.literal "--color",.expando 0]⟩]⟩

theorem colored_expands : colored.Expands := by
  intro words some
  cases words with
  | nil => exact absurd rfl some
  | cons head rest =>
    by_cases ls : head = "ls"
    · subst ls
      cases rest with
      | nil => exact ⟨_,_,rfl⟩
      | cons next rest => exact ⟨_,_,rfl⟩
    · refine ⟨head,rest,?_⟩
      simp [Prefs.expand,colored,Prefs.expandWith,Prefs.Matching.items,Prefs.Matching.item,Prefs.Matching.start,ls]

/-- The line is rewritten, and its output goes to a file. -/
theorem commandLine_continues_colored :
    (∃ next, oneLoop (typing colored "ls src > listing") ready.endpoint = .ok (.ok true,next)) ∧
      Runnable colored "ls src > listing" := by
  have runnable : Runnable colored "ls src > listing" := by
    refine ⟨_,rfl,by simp,fun segment _ read => ?_⟩
    cases read
    simp only [Pipeline.commands,Segment.pipeline,command,List.filterMap,Target.cmd?]
    intro cmd listed
    obtain rfl := List.mem_singleton.mp listed
    exact ⟨["ls","--color","src"],rfl,by decide⟩
  have parsed : parseInput "ls src > listing" =
      .ok (.redirect (.cmd (command ["ls","src"])) [⟨.stdout,.file (.normal "listing")⟩]) :=
    parsed_of_reference rfl
  have continues := @commandLine_continues ready (typing colored "ls src > listing") ready_reachable ready_prompt
    colored colored_expands _ _ parsed (fun _ => rfl) fun _ => rfl
  exact ⟨continues.1.mpr runnable,runnable⟩

/-- The parser accepts both lines. `cd` with two arguments is an error that ends the session,
and a sequence is a panic. -/
theorem commandLine_fails : system.Reachable ready ∧ ready.AtPrompt ∧ (⟨[]⟩ : Prefs).Expands ∧
    (∃ ast, parseInput "cd a b" = .ok ast ∧ ∃ next, oneLoop (typing ⟨[]⟩ "cd a b") ready.endpoint =
      .ok (.error (formatErr "bad too many args"),next)) ∧
    ∃ ast, parseInput "a ; b" = .ok ast ∧ oneLoop (typing ⟨[]⟩ "a ; b") ready.endpoint = .error .explicit := by
  refine ⟨ready_reachable,ready_prompt,fun words some => ?_,?_,?_⟩
  · cases words with
    | nil => exact absurd rfl some
    | cons head rest => exact ⟨head,rest,rfl⟩
  · have parsed : parseInput "cd a b" = .ok (.cmd (command ["cd","a","b"])) := parsed_of_reference rfl
    refine ⟨_,parsed,_,oneLoop_raised ready_prompt.1 rfl ?_⟩
    change typed ⟨[]⟩ "cd a b" = _
    rw [typed,parseCommandSimple,parsed]
    rfl
  · have parsed : parseInput "a ; b" = .ok (.sequence (.cmd (command ["a"])) [⟨.wait,.cmd (command ["b"])⟩]) :=
      parsed_of_reference rfl
    refine ⟨_,parsed,oneLoop_panics ready_prompt.1 rfl ?_⟩
    change typed ⟨[]⟩ "a ; b" = _
    rw [typed,parseCommandSimple,parsed]
    rfl

end Session
end Nak
