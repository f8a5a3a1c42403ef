import Nak.PlanEnds

/-! Plans are linear: what the builder has put together can be carried out, and no end of a
pipe is given away twice. -/
namespace Nak
open Library Action Parse Ends

/-- One step of the loop, as far as the pairs of ends are concerned. A handle is named after
its place. -/
def replayStep (pairs : List PipePair) : Step → Outcome (List PipePair)
  | .pipe => pure (pairs ++ [⟨some ⟨pairs.length⟩,some ⟨pairs.length⟩⟩])
  | .remote _ (.run _ process) => do
    let (_,pairs) ← Shell.takeWrite pairs process.stdout
    let (_,pairs) ← Shell.takeWrite pairs process.stderr
    let (_,pairs) ← Shell.takeRead pairs process.stdin
    pure pairs
  | .remote _ .close => pure pairs
  | .remote _ (.openOutputFile _) => pure (pairs ++ [⟨none,some ⟨pairs.length⟩⟩])
  | _ => .error .explicit

def replaySinks : Nat → List (Option Sink) → List PipePair → Outcome (List PipePair)
  | _, [], pairs => pure pairs
  | index, none :: sinks, pairs => replaySinks (index + 1) sinks pairs
  | index, some _ :: sinks, pairs => do
    let (_,pairs) ← Shell.takeRead pairs index
    replaySinks (index + 1) sinks pairs

def Plan.replay (plan : Plan) : Outcome (List PipePair) := do
  let pairs ← plan.steps.foldlM replayStep []
  replaySinks 0 plan.sinkMap pairs

def Plan.sinkIndexes (plan : Plan) : List Nat :=
  plan.sinkMap.zipIdx.filterMap fun (sink,index) => sink.map fun _ => index

/-- Nothing is out of range or taken twice, and every end has one user at most. -/
structure Plan.Linear (plan : Plan) : Prop where
  replays : plan.replay.Returns
  writes : (plan.steps.flatMap (takes .write)).Nodup
  reads : (plan.steps.flatMap (takes .read) ++ plan.sinkIndexes).Nodup

def endsOf (pairs : List PipePair) : Ends := pairs.map fun pair => (pair.read.isSome,pair.write.isSome)

theorem takeWrite_endsOf {pairs : List PipePair} {index : Nat} {next : Ends}
    (taken : take .write (endsOf pairs) index = some next) :
    ∃ pipe rest, Shell.takeWrite pairs index = .ok (pipe,rest) ∧ endsOf rest = next := by
  obtain ⟨_,found,opened,rfl⟩ := take_some taken
  rw [endsOf,List.getElem?_map] at found
  obtain ⟨⟨read,write⟩,listed,rfl⟩ := Option.map_eq_some_iff.mp found
  obtain ⟨pipe,rfl⟩ := Option.isSome_iff_exists.mp opened
  refine ⟨pipe,pairs.set index ⟨read,none⟩,?_,?_⟩
  · simp [Shell.takeWrite,listed,Outcome.unwrap]
  · simp [endsOf,List.map_set,close]

theorem takeRead_endsOf {pairs : List PipePair} {index : Nat} {next : Ends}
    (taken : take .read (endsOf pairs) index = some next) :
    ∃ pipe rest, Shell.takeRead pairs index = .ok (pipe,rest) ∧ endsOf rest = next := by
  obtain ⟨_,found,opened,rfl⟩ := take_some taken
  rw [endsOf,List.getElem?_map] at found
  obtain ⟨⟨read,write⟩,listed,rfl⟩ := Option.map_eq_some_iff.mp found
  obtain ⟨pipe,rfl⟩ := Option.isSome_iff_exists.mp opened
  refine ⟨pipe,pairs.set index ⟨none,write⟩,?_,?_⟩
  · simp [Shell.takeRead,listed,Outcome.unwrap]
  · simp [endsOf,List.map_set,close]

theorem replayStep_endsOf {pairs : List PipePair} {step : Step} {next : Ends}
    (stepped : Ends.step (endsOf pairs) step = some next) :
    ∃ rest, replayStep pairs step = .ok rest ∧ endsOf rest = next := by
  cases step_stepped stepped with
  | pipe => exact ⟨_,rfl,by simp [endsOf]⟩
  | openOutputFile => exact ⟨_,rfl,by simp [endsOf]⟩
  | run remote cmd process first second next stdout stderr stdin =>
    obtain ⟨_,pairs₁,out,rfl⟩ := takeWrite_endsOf stdout
    obtain ⟨_,pairs₂,err,rfl⟩ := takeWrite_endsOf stderr
    obtain ⟨_,pairs₃,input,rfl⟩ := takeRead_endsOf stdin
    refine ⟨pairs₃,?_,rfl⟩
    simp only [replayStep,out,err,input,Outcome.ok_bind,Outcome.pure_ok]

theorem replaySteps_endsOf {steps : List Step} {pairs : List PipePair} {final : Ends}
    (run : steps.foldlM Ends.step (endsOf pairs) = some final) :
    ∃ rest, steps.foldlM replayStep pairs = .ok rest ∧ endsOf rest = final := by
  induction steps generalizing pairs with
  | nil =>
    cases run
    exact ⟨pairs,rfl,rfl⟩
  | cons step steps ih =>
    obtain ⟨next,stepped,run⟩ := Option.bind_eq_some_iff.mp run
    obtain ⟨middle,replayed,rfl⟩ := replayStep_endsOf stepped
    obtain ⟨rest,others,same⟩ := ih run
    exact ⟨rest,by rw [List.foldlM_cons,replayed]; exact others,same⟩

/-- The builder's own table is what its steps come to. -/
structure Lockstep (builder next : PlanBuilder) : Prop where
  ran : ∃ more, next.plan.steps = builder.plan.steps ++ more ∧
    more.foldlM Ends.step builder.pipes = some next.pipes

instance : IsPreorder PlanBuilder Lockstep where
  refl _ := ⟨[],by simp,rfl⟩
  trans _ _ _ first second := by
    obtain ⟨more₁,steps₁,run₁⟩ := first
    obtain ⟨more₂,steps₂,run₂⟩ := second
    refine ⟨more₁ ++ more₂,by rw [steps₂,steps₁,List.append_assoc],?_⟩
    rw [List.foldlM_append,run₁]
    exact run₂

theorem useReadEnd_cases (pipe : Nat) (builder : PlanBuilder) :
    (∃ ends, take .read builder.pipes pipe = some ends ∧
      (PlanBuilder.useReadEnd pipe : Building Unit) builder = .ok (.ok (),{ builder with pipes := ends })) ∨
    take .read builder.pipes pipe = none ∧
    ∃ panic, (PlanBuilder.useReadEnd pipe : Building Unit) builder = .error panic := by
  unfold PlanBuilder.useReadEnd
  rw [get_bind]
  cases found : builder.pipes[pipe]? with
  | none => exact Or.inr ⟨by simp [take,found],_,rfl⟩
  | some pair =>
    obtain ⟨read,write⟩ := pair
    cases read with
    | false => exact Or.inr ⟨by simp [take,found,isOpen],_,rfl⟩
    | true => exact Or.inl ⟨_,by simp [take,found,isOpen,close],rfl⟩

theorem useWriteEnd_cases (pipe : Nat) (builder : PlanBuilder) :
    (∃ ends, take .write builder.pipes pipe = some ends ∧
      (PlanBuilder.useWriteEnd pipe : Building Unit) builder = .ok (.ok (),{ builder with pipes := ends })) ∨
    take .write builder.pipes pipe = none ∧
    ∃ panic, (PlanBuilder.useWriteEnd pipe : Building Unit) builder = .error panic := by
  unfold PlanBuilder.useWriteEnd
  rw [get_bind]
  cases found : builder.pipes[pipe]? with
  | none => exact Or.inr ⟨by simp [take,found],_,rfl⟩
  | some pair =>
    obtain ⟨read,write⟩ := pair
    cases write with
    | false => exact Or.inr ⟨by simp [take,found,isOpen],_,rfl⟩
    | true => exact Or.inl ⟨_,by simp [take,found,isOpen,close],rfl⟩

theorem useReadEnd_ok {pipe : Nat} {builder : PlanBuilder} {ends : Ends}
    (taken : take .read builder.pipes pipe = some ends) :
    (PlanBuilder.useReadEnd pipe : Building Unit) builder = .ok (.ok (),{ builder with pipes := ends }) := by
  rcases useReadEnd_cases pipe builder with ⟨other,same,used⟩ | ⟨none,_⟩
  · rw [taken] at same
    cases same
    exact used
  · rw [taken] at none
    cases none

theorem useWriteEnd_ok {pipe : Nat} {builder : PlanBuilder} {ends : Ends}
    (taken : take .write builder.pipes pipe = some ends) :
    (PlanBuilder.useWriteEnd pipe : Building Unit) builder = .ok (.ok (),{ builder with pipes := ends }) := by
  rcases useWriteEnd_cases pipe builder with ⟨other,same,used⟩ | ⟨none,_⟩
  · rw [taken] at same
    cases same
    exact used
  · rw [taken] at none
    cases none

/-- What adding a command takes and what it leaves. -/
structure Added (remote : RemoteRef) (cmd : Command) (stdin stdout stderr : Nat) (builder next : PlanBuilder) :
    Prop where
  ends : ∃ first second, take .read builder.pipes stdin = some first ∧ take .write first stdout = some second ∧
    take .write second stderr = some next.pipes
  plan : next.plan = { builder.plan with steps := builder.plan.steps ++
    [.remote remote (.run cmd ⟨builder.procIds.nextId,stdin,stdout,stderr⟩)] }

section AddCommand
variable {remote : RemoteRef} {cmd : Command} {stdin stdout stderr : Nat} {builder next : PlanBuilder}

theorem addCommand_added {result : Except Error Unit}
    (ok : (PlanBuilder.addCommand remote cmd stdin stdout stderr : Building Unit) builder = .ok (result,next)) :
    Added remote cmd stdin stdout stderr builder next := by
  unfold PlanBuilder.addCommand at ok
  rcases useReadEnd_cases stdin builder with ⟨first,read,used⟩ | ⟨-,_,panics⟩
  · rw [ok_bind used] at ok
    rcases useWriteEnd_cases stdout { builder with pipes := first } with ⟨second,out,used⟩ | ⟨-,_,panics⟩
    · rw [ok_bind used] at ok
      rcases useWriteEnd_cases stderr { builder with pipes := second } with ⟨third,err,used⟩ | ⟨-,_,panics⟩
      · rw [ok_bind used] at ok
        cases ok
        exact ⟨⟨first,second,read,out,err⟩,rfl⟩
      · rw [panic_bind panics] at ok
        cases ok
    · rw [panic_bind panics] at ok
      cases ok
  · rw [panic_bind panics] at ok
    cases ok

theorem addCommand_ok {first second third : Ends} (read : take .read builder.pipes stdin = some first)
    (out : take .write first stdout = some second) (err : take .write second stderr = some third) :
    (PlanBuilder.addCommand remote cmd stdin stdout stderr : Building Unit) builder =
      .ok (.ok (),⟨{ builder.plan with steps := builder.plan.steps ++
        [.remote remote (.run cmd ⟨builder.procIds.nextId,stdin,stdout,stderr⟩)] },
          ⟨builder.procIds.nextId + 1⟩,third⟩) := by
  unfold PlanBuilder.addCommand
  rw [ok_bind (useReadEnd_ok read)]
  rw [ok_bind (@useWriteEnd_ok _ { builder with pipes := first } _ out)]
  rw [ok_bind (@useWriteEnd_ok _ { builder with pipes := second } _ err)]
  rfl

theorem Added.lockstep (added : Added remote cmd stdin stdout stderr builder next) : Lockstep builder next := by
  obtain ⟨first,second,read,out,err⟩ := added.ends
  obtain ⟨first,out,read⟩ := take_comm (by simp) read out
  obtain ⟨second,err,read⟩ := take_comm (by simp) read err
  refine ⟨[.remote remote (.run cmd ⟨builder.procIds.nextId,stdin,stdout,stderr⟩)],by rw [added.plan],?_⟩
  simp [Ends.step,out,err,read]

end AddCommand

theorem built_lockstep : Built Lockstep where
  pipe := by
    refine ⟨fun ok => ?_⟩
    cases ok
    exact ⟨[.pipe],rfl,rfl⟩
  file remote file := by
    refine ⟨fun ok => ?_⟩
    cases ok
    exact ⟨[.remote remote (.openOutputFile file)],rfl,rfl⟩
  command _ _ _ _ _ := ⟨fun ok => (addCommand_added ok).lockstep⟩

section Convert
variable (remotes : Remotes) (prefs : Prefs)

mutual

/-- There are no sequences in it, and each of its commands converts. -/
def Converts : Ast → Prop
  | .empty => True
  | .cmd cmd => ∃ command, convertSingle prefs cmd = .ok (.ok command)
  | .sequence _ _ => False
  | .redirect head clauses => Converts head ∧ ClausesConvert clauses

def ClausesConvert : List (RedirectClause Ast) → Prop
  | [] => True
  | clause :: clauses => ClauseConverts clause ∧ ClausesConvert clauses

def ClauseConverts : RedirectClause Ast → Prop
  | ⟨_,target⟩ => TargetConverts target

def TargetConverts : Target Ast → Prop
  | .file _ => True
  | .command cmd => Converts cmd

end

structure Ready (stdout stderr : Nat) (builder : PlanBuilder) : Prop where
  apart : stdout ≠ stderr
  out : Free .write builder.pipes stdout
  err : Free .write builder.pipes stderr

/-- Only the write ends of these two have been taken. -/
structure Kept (stdout stderr : Nat) (builder next : PlanBuilder) : Prop where
  longer : builder.pipes.length ≤ next.pipes.length
  reads : ∀ index, Free .read builder.pipes index → Free .read next.pipes index
  writes : ∀ index, Free .write builder.pipes index → index ≠ stdout → index ≠ stderr → Free .write next.pipes index

def Handed (stdout stderr : Nat) (builder : PlanBuilder) (index : Nat) : Prop :=
  index = stdout ∨ index = stderr ∨ builder.pipes.length ≤ index

/-- A stage has been put in front of the two outputs: they are replaced by others. -/
structure Staged (stdout stderr : Nat) (builder next : PlanBuilder) (out err : Nat) : Prop where
  kept : Kept stdout stderr builder next
  ready : Ready out err next
  out : Handed stdout stderr builder out
  err : Handed stdout stderr builder err

/-- What has been converted leaves its input, whose pipe can be written to. -/
structure Converted (stdout stderr : Nat) (builder next : PlanBuilder) (stdin : Nat) : Prop where
  kept : Kept stdout stderr builder next
  free : Free .write next.pipes stdin
  handed : Handed stdout stderr builder stdin

variable {remotes prefs} {stdout stderr : Nat} {builder next final : PlanBuilder}

theorem Kept.refl (stdout stderr : Nat) (builder : PlanBuilder) : Kept stdout stderr builder builder :=
  ⟨Nat.le_refl _,fun _ => id,fun _ free _ _ => free⟩

theorem Kept.trans {out err : Nat} (first : Kept stdout stderr builder next) (second : Kept out err next final)
    (handedOut : Handed stdout stderr builder out) (handedErr : Handed stdout stderr builder err) :
    Kept stdout stderr builder final where
  longer := Nat.le_trans first.longer second.longer
  reads index free := second.reads index (first.reads index free)
  writes index free apart₁ apart₂ := by
    have within := free_lt free
    refine second.writes index (first.writes index free apart₁ apart₂) ?_ ?_
    · rintro rfl
      rcases handedOut with same | same | beyond
      · exact apart₁ same
      · exact apart₂ same
      · exact Nat.not_lt_of_le beyond within
    · rintro rfl
      rcases handedErr with same | same | beyond
      · exact apart₁ same
      · exact apart₂ same
      · exact Nat.not_lt_of_le beyond within

theorem Handed.trans {out err index : Nat} (handed : Handed out err next index)
    (kept : Kept stdout stderr builder next) (handedOut : Handed stdout stderr builder out)
    (handedErr : Handed stdout stderr builder err) : Handed stdout stderr builder index := by
  rcases handed with rfl | rfl | beyond
  · exact handedOut
  · exact handedErr
  · exact Or.inr (Or.inr (Nat.le_trans kept.longer beyond))

theorem kept_append (stdout stderr : Nat) (pair : Bool × Bool) (same : next.pipes = builder.pipes ++ [pair]) :
    Kept stdout stderr builder next where
  longer := by simp [same]
  reads index free := by
    rw [same]
    exact append_free pair free
  writes index free _ _ := by
    rw [same]
    exact append_free pair free

theorem lastRemote_ok {remote : RemoteRef} (rooted : remotes.stack.getLast? = some remote) (builder : PlanBuilder) :
    lastRemote remotes builder = .ok (.ok remote,builder) := by
  rw [lastRemote,rooted]
  rfl

theorem pipe_ok (builder : PlanBuilder) : (PlanBuilder.pipe : Building Nat) builder =
    .ok (.ok builder.pipes.length,{ builder with
      plan := { builder.plan with steps := builder.plan.steps ++ [.pipe] }
      pipes := builder.pipes ++ [(true,true)] }) := rfl

theorem convertCmd_ok {remote : RemoteRef} (rooted : remotes.stack.getLast? = some remote) {cmd : Cmd}
    {command : Command} (converts : convertSingle prefs cmd = .ok (.ok command)) (ready : Ready stdout stderr builder) :
    ∃ next, convertAst remotes prefs (.cmd cmd) stdout stderr builder = .ok (.ok builder.pipes.length,next) ∧
      Added remote command builder.pipes.length stdout stderr
        { builder with
          plan := { builder.plan with steps := builder.plan.steps ++ [.pipe] }
          pipes := builder.pipes ++ [(true,true)] } next ∧
      Converted stdout stderr builder next builder.pipes.length := by
  have within₁ := free_lt ready.out
  have within₂ := free_lt ready.err
  obtain ⟨first,read⟩ := take_ok (free_new .read builder.pipes (true,true) rfl)
  obtain ⟨second,out⟩ := take_ok ((take_free read).mpr ⟨append_free (true,true) ready.out,by simp⟩)
  obtain ⟨third,err⟩ := take_ok ((take_free out).mpr
    ⟨(take_free read).mpr ⟨append_free (true,true) ready.err,by simp⟩,fun same => ready.apart same.2.symm⟩)
  have left {side : Side} {index : Nat} : Free side third index ↔ Free side (builder.pipes ++ [(true,true)]) index ∧
      ¬(side = .read ∧ index = builder.pipes.length) ∧ ¬(side = .write ∧ index = stdout) ∧
        ¬(side = .write ∧ index = stderr) := by
    rw [take_free err,take_free out,take_free read,and_assoc,and_assoc]
  have added := @addCommand_ok remote command builder.pipes.length stdout stderr { builder with
    plan := { builder.plan with steps := builder.plan.steps ++ [.pipe] }
    pipes := builder.pipes ++ [(true,true)] } first second third read out err
  refine ⟨_,?_,addCommand_added added,⟨?_,fun index free => ?_,fun index free apart₁ apart₂ => ?_⟩,?_,?_⟩
  · rw [convertAst,ok_bind (pipe_ok builder),ok_bind (lastRemote_ok rooted _),lift_continues converts]
    exact ok_bind added
  · rw [take_length err,take_length out,take_length read,List.length_append]
    exact Nat.le_add_right _ _
  · exact left.mpr ⟨append_free _ free,fun same => (free_lt free).ne same.2,by simp,by simp⟩
  · exact left.mpr ⟨append_free _ free,by simp,fun same => apart₁ same.2,fun same => apart₂ same.2⟩
  · exact left.mpr ⟨free_new .write _ _ rfl,by simp,fun same => within₁.ne same.2.symm,fun same =>
      within₂.ne same.2.symm⟩
  · exact Or.inr (Or.inr (Nat.le_refl _))

theorem convertFile_ok {remote : RemoteRef} (rooted : remotes.stack.getLast? = some remote) (path : Word)
    (stdout stderr : Nat) (builder : PlanBuilder) :
    ∃ next, convertTarget remotes prefs (.file path) stdout stderr builder = .ok (.ok builder.pipes.length,next) ∧
      next.plan.steps = builder.plan.steps ++ [.remote remote (.openOutputFile path.expandString)] ∧
      next.pipes = builder.pipes ++ [(false,true)] ∧ Converted stdout stderr builder next builder.pipes.length := by
  refine ⟨{ builder with
      plan := { builder.plan with steps := builder.plan.steps ++ [.remote remote (.openOutputFile path.expandString)] }
      pipes := builder.pipes ++ [(false,true)] },?_,rfl,rfl,kept_append _ _ (false,true) rfl,
    free_new .write builder.pipes (false,true) rfl,Or.inr (Or.inr (Nat.le_refl _))⟩
  rw [convertTarget,ok_bind (lastRemote_ok rooted builder)]
  rfl

theorem Staged.refl (ready : Ready stdout stderr builder) : Staged stdout stderr builder builder stdout stderr :=
  ⟨.refl _ _ _,ready,Or.inl rfl,Or.inr (Or.inl rfl)⟩

theorem Staged.trans {out err out' err' : Nat} (first : Staged stdout stderr builder next out err)
    (second : Staged out err next final out' err') : Staged stdout stderr builder final out' err' where
  kept := first.kept.trans second.kept first.out first.err
  ready := second.ready
  out := second.out.trans first.kept first.out first.err
  err := second.err.trans first.kept first.out first.err

theorem staged_clause {stdin : Nat} (converted : Converted stdout stderr builder next stdin)
    (stream : Parse.Stream) :
    ∃ final, (do
        let other ← PlanBuilder.pipe
        match stream with
        | .stdout => pure (stdin,other)
        | .stderr => pure (other,stdin) : Building (Nat × Nat)) next = .ok (.ok (match stream with
          | .stdout => (stdin,next.pipes.length)
          | .stderr => (next.pipes.length,stdin)),final) ∧
      final = { next with
        plan := { next.plan with steps := next.plan.steps ++ [.pipe] }
        pipes := next.pipes ++ [(true,true)] } ∧
      match stream with
      | .stdout => Staged stdout stderr builder final stdin next.pipes.length
      | .stderr => Staged stdout stderr builder final next.pipes.length stdin := by
  have within := free_lt converted.free
  have appended := @kept_append next { next with
    plan := { next.plan with steps := next.plan.steps ++ [.pipe] }
    pipes := next.pipes ++ [(true,true)] } stdout stderr (true,true) rfl
  have kept := converted.kept.trans appended (Or.inl rfl) (Or.inr (Or.inl rfl))
  have free := append_free (true,true) converted.free
  have new := free_new .write next.pipes (true,true) rfl
  have beyond : Handed stdout stderr builder next.pipes.length := Or.inr (Or.inr converted.kept.longer)
  cases stream with
  | stdout => exact ⟨_,rfl,rfl,kept,⟨within.ne,free,new⟩,converted.handed,beyond⟩
  | stderr => exact ⟨_,rfl,rfl,kept,⟨within.ne',new,free⟩,beyond,converted.handed⟩

mutual

theorem convertAst_ok {remote : RemoteRef} (rooted : remotes.stack.getLast? = some remote) (ast : Ast)
    (converts : Converts prefs ast) {stdout stderr : Nat} {builder : PlanBuilder}
    (ready : Ready stdout stderr builder) :
    ∃ stdin next, convertAst remotes prefs ast stdout stderr builder = .ok (.ok stdin,next) ∧
      Converted stdout stderr builder next stdin := by
  cases ast with
  | empty =>
    rw [convertAst]
    exact ⟨stdout,builder,rfl,.refl _ _ _,ready.out,Or.inl rfl⟩
  | cmd cmd =>
    rw [Converts] at converts
    obtain ⟨command,converts⟩ := converts
    obtain ⟨next,ok,-,converted⟩ := convertCmd_ok rooted converts ready
    exact ⟨_,next,ok,converted⟩
  | sequence head clauses =>
    rw [Converts] at converts
    exact converts.elim
  | redirect head clauses =>
    rw [Converts] at converts
    obtain ⟨out,err,middle,staged,stage⟩ := convertClauses_ok rooted clauses converts.2 ready
    obtain ⟨stdin,next,ok,converted⟩ := convertAst_ok rooted head converts.1 stage.ready
    refine ⟨stdin,next,?_,stage.kept.trans converted.kept stage.out stage.err,converted.free,
      converted.handed.trans stage.kept stage.out stage.err⟩
    rw [convertAst,ok_bind staged]
    exact ok

theorem convertClauses_ok {remote : RemoteRef} (rooted : remotes.stack.getLast? = some remote)
    (clauses : List (RedirectClause Ast)) (converts : ClausesConvert prefs clauses) {stdout stderr : Nat}
    {builder : PlanBuilder} (ready : Ready stdout stderr builder) :
    ∃ out err next, convertClauses remotes prefs clauses stdout stderr builder = .ok (.ok (out,err),next) ∧
      Staged stdout stderr builder next out err := by
  match clauses with
  | [] =>
    rw [convertClauses]
    exact ⟨stdout,stderr,builder,rfl,.refl ready⟩
  | clause :: clauses =>
    rw [ClausesConvert] at converts
    obtain ⟨out,err,middle,staged,stage⟩ := convertClauses_ok rooted clauses converts.2 ready
    obtain ⟨out',err',next,ok,later⟩ := convertClause_ok rooted clause converts.1 stage.ready
    refine ⟨out',err',next,?_,stage.trans later⟩
    rw [convertClauses,ok_bind staged]
    exact ok

theorem convertClause_ok {remote : RemoteRef} (rooted : remotes.stack.getLast? = some remote)
    (clause : RedirectClause Ast) (converts : ClauseConverts prefs clause) {stdout stderr : Nat}
    {builder : PlanBuilder} (ready : Ready stdout stderr builder) :
    ∃ out err next, convertClause remotes prefs clause stdout stderr builder = .ok (.ok (out,err),next) ∧
      Staged stdout stderr builder next out err := by
  match clause with
  | ⟨stream,target⟩ =>
    rw [ClauseConverts] at converts
    obtain ⟨stdin,middle,ok,converted⟩ := convertTarget_ok rooted target converts ready
    obtain ⟨next,made,-,staged⟩ := staged_clause converted stream
    rw [convertClause,ok_bind ok]
    cases stream with
    | stdout => exact ⟨_,_,next,made,staged⟩
    | stderr => exact ⟨_,_,next,made,staged⟩

theorem convertTarget_ok {remote : RemoteRef} (rooted : remotes.stack.getLast? = some remote) (target : Target Ast)
    (converts : TargetConverts prefs target) {stdout stderr : Nat} {builder : PlanBuilder}
    (ready : Ready stdout stderr builder) :
    ∃ stdin next, convertTarget remotes prefs target stdout stderr builder = .ok (.ok stdin,next) ∧
      Converted stdout stderr builder next stdin := by
  match target with
  | .file path =>
    obtain ⟨next,ok,-,-,converted⟩ := convertFile_ok rooted path stdout stderr builder
    exact ⟨_,next,ok,converted⟩
  | .command cmd =>
    rw [TargetConverts] at converts
    rw [convertTarget]
    exact convertAst_ok rooted cmd converts ready

end

mutual

theorem convertAst_converts {ast : Ast} {stdout stderr stdin : Nat} {builder next : PlanBuilder}
    (ok : convertAst remotes prefs ast stdout stderr builder = .ok (.ok stdin,next)) : Converts prefs ast := by
  cases ast with
  | empty =>
    rw [Converts]
    trivial
  | cmd cmd =>
    rw [convertAst] at ok
    obtain ⟨_,_,_,ok⟩ := bind_ok.mp ok
    obtain ⟨_,_,_,ok⟩ := bind_ok.mp ok
    obtain ⟨command,converted,ok⟩ := lift_bind_ok.mp ok
    obtain ⟨_,_,given,_⟩ := bind_ok.mp ok
    rw [Converts,converted,(Prod.mk.inj (Except.ok.inj given)).1]
    exact ⟨_,rfl⟩
  | sequence head clauses =>
    rw [convertAst] at ok
    cases ok
  | redirect head clauses =>
    rw [convertAst] at ok
    obtain ⟨⟨_,_⟩,_,before,ok⟩ := bind_ok.mp ok
    rw [Converts]
    exact ⟨convertAst_converts ok,convertClauses_converts before⟩

theorem convertClauses_converts {clauses : List (RedirectClause Ast)} {stdout stderr : Nat} {outputs : Nat × Nat}
    {builder next : PlanBuilder}
    (ok : convertClauses remotes prefs clauses stdout stderr builder = .ok (.ok outputs,next)) :
    ClausesConvert prefs clauses := by
  match clauses with
  | [] =>
    rw [ClausesConvert]
    trivial
  | clause :: clauses =>
    rw [convertClauses] at ok
    obtain ⟨⟨_,_⟩,_,before,ok⟩ := bind_ok.mp ok
    rw [ClausesConvert]
    exact ⟨convertClause_converts ok,convertClauses_converts before⟩

theorem convertClause_converts {clause : RedirectClause Ast} {stdout stderr : Nat} {outputs : Nat × Nat}
    {builder next : PlanBuilder}
    (ok : convertClause remotes prefs clause stdout stderr builder = .ok (.ok outputs,next)) :
    ClauseConverts prefs clause := by
  match clause with
  | ⟨stream,target⟩ =>
    rw [convertClause] at ok
    obtain ⟨_,_,before,_⟩ := bind_ok.mp ok
    rw [ClauseConverts]
    exact convertTarget_converts before

theorem convertTarget_converts {target : Target Ast} {stdout stderr stdin : Nat} {builder next : PlanBuilder}
    (ok : convertTarget remotes prefs target stdout stderr builder = .ok (.ok stdin,next)) :
    TargetConverts prefs target := by
  match target with
  | .file path =>
    rw [TargetConverts]
    trivial
  | .command cmd =>
    rw [convertTarget] at ok
    rw [TargetConverts]
    exact convertAst_converts ok

end

def opened : PlanBuilder := ⟨⟨[.pipe,.pipe],none,0,0,[]⟩,Ids.new,[(true,true),(true,true)]⟩

theorem opened_ready : Ready 0 1 opened := ⟨by simp,rfl,rfl⟩

theorem opened_lockstep : Lockstep PlanBuilder.new opened := ⟨[.pipe,.pipe],rfl,rfl⟩

theorem planCommandSimple_eq {ast : Ast} {stdin : Nat}
    (ok : convertAst remotes prefs ast 0 1 opened = .ok (.ok stdin,builder)) :
    planCommandSimple remotes prefs ast =
      .ok (.ok { builder.plan with stdin := some stdin, sinkMap := [some .stdout,some .stderr] }) := by
  have empty : builder.plan.sinkMap = [] := ((convertAst_keeps remotes prefs built_sinks ast 0 1).after ok).sinkMap
  have shown (stream : Nat) (sink : Sink) {builder : PlanBuilder} {sinks : List (Option Sink)}
      (grown : builder.plan.sinkMap ++ List.replicate (stream + 1 - builder.plan.sinkMap.length) none = sinks)
      (free : sinks[stream]? = some none) :
      (PlanBuilder.sink stream sink : Building Unit) builder =
        .ok (.ok (),{ builder with plan := { builder.plan with sinkMap := sinks.set stream (some sink) } }) := by
    unfold PlanBuilder.sink
    rw [get_bind]
    dsimp only
    rw [grown,lift_continues (Outcome.assert_true free)]
    rfl
  have made : convertCommand remotes prefs ast PlanBuilder.new = .ok (.ok (),{ builder with
      plan := { builder.plan with stdin := some stdin, sinkMap := [some .stdout,some .stderr] } }) := by
    unfold convertCommand
    rw [ok_bind (pipe_ok _),ok_bind (pipe_ok _)]
    refine (ok_bind ok).trans ?_
    unfold PlanBuilder.setStdin PlanBuilder.addStdout PlanBuilder.addStderr
    rw [modify_bind]
    refine (ok_bind (@shown 0 .stdout _ [none] ?_ rfl)).trans ?_
    · change builder.plan.sinkMap ++ List.replicate (0 + 1 - builder.plan.sinkMap.length) none = [none]
      rw [empty]
      rfl
    · exact @shown 1 .stderr _ [some .stdout,none] rfl rfl
  rw [planCommandSimple,made]
  rfl

theorem planCommandSimple_ok {remote : RemoteRef} (rooted : remotes.stack.getLast? = some remote) {ast : Ast}
    (converts : Converts prefs ast) : ∃ stdin builder,
      convertAst remotes prefs ast 0 1 opened = .ok (.ok stdin,builder) ∧ Converted 0 1 opened builder stdin ∧
      planCommandSimple remotes prefs ast =
        .ok (.ok { builder.plan with stdin := some stdin, sinkMap := [some .stdout,some .stderr] }) := by
  obtain ⟨stdin,builder,ok,converted⟩ := convertAst_ok rooted ast converts opened_ready
  exact ⟨stdin,builder,ok,converted,planCommandSimple_eq ok⟩

/-- A plan is built of exactly the trees whose commands convert. -/
theorem planCommandSimple_iff {remote : RemoteRef} (rooted : remotes.stack.getLast? = some remote) {ast : Ast} :
    (∃ plan, planCommandSimple remotes prefs ast = .ok (.ok plan)) ↔ Converts prefs ast := by
  constructor
  · rintro ⟨plan,planned⟩
    obtain ⟨⟨result,builder⟩,converted,last⟩ := Outcome.bind_ok.mp planned
    cases result with
    | error error => cases last
    | ok done =>
      obtain ⟨_,_,_,rest⟩ := bind_ok.mp converted
      obtain ⟨_,_,_,rest⟩ := bind_ok.mp rest
      obtain ⟨_,_,walked,_⟩ := bind_ok.mp rest
      exact convertAst_converts walked
  · intro converts
    obtain ⟨_,_,_,_,planned⟩ := planCommandSimple_ok rooted converts
    exact ⟨_,planned⟩

theorem replaySinks_ok {pairs : List PipePair} (first : Free .read (endsOf pairs) 0)
    (second : Free .read (endsOf pairs) 1) : (replaySinks 0 [some .stdout,some .stderr] pairs).Returns := by
  obtain ⟨_,taken⟩ := take_ok first
  obtain ⟨_,pairs₁,read,rfl⟩ := takeRead_endsOf taken
  obtain ⟨_,taken⟩ := take_ok ((take_free taken).mpr ⟨second,by simp⟩)
  obtain ⟨_,pairs₂,read',rfl⟩ := takeRead_endsOf taken
  refine ⟨pairs₂,?_⟩
  simp only [replaySinks,read,read',Outcome.ok_bind,Outcome.pure_ok]

/-- The steps of a built plan go through, and leave the read ends of its first two pipes. -/
theorem planCommandSimple_run {remote : RemoteRef} (rooted : remotes.stack.getLast? = some remote) {ast : Ast}
    (converts : Converts prefs ast) : ∃ plan final, planCommandSimple remotes prefs ast = .ok (.ok plan) ∧
      plan.sinkMap = [some .stdout,some .stderr] ∧ plan.steps.foldlM Ends.step [] = some final ∧
      Free .read final 0 ∧ Free .read final 1 := by
  obtain ⟨stdin,builder,ok,converted,planned⟩ := planCommandSimple_ok rooted converts
  have lockstep := (convertAst_keeps remotes prefs built_lockstep ast 0 1).after ok
  obtain ⟨steps,same,run⟩ := (IsTrans.trans _ _ _ opened_lockstep lockstep).ran
  obtain rfl : builder.plan.steps = steps := same
  exact ⟨_,builder.pipes,planned,rfl,run,converted.kept.reads 0 rfl,converted.kept.reads 1 rfl⟩

/-- For every tree without sequences whose commands convert, a plan is built, and carrying it
out gives every end of a pipe to one user at most. -/
theorem planCommandSimple_linear {remote : RemoteRef} (rooted : remotes.stack.getLast? = some remote) {ast : Ast}
    (converts : Converts prefs ast) :
    ∃ plan, planCommandSimple remotes prefs ast = .ok (.ok plan) ∧ plan.Linear := by
  obtain ⟨plan,final,planned,sinks,run,first,second⟩ := planCommandSimple_run rooted converts
  have shown : plan.sinkIndexes = [0,1] := by
    rw [Plan.sinkIndexes,sinks]
    rfl
  refine ⟨plan,planned,?_,(spending .write).nodup_run run,?_⟩
  · obtain ⟨pairs,replayed,rfl⟩ := @replaySteps_endsOf plan.steps [] _ run
    rw [Plan.replay,replayed,sinks]
    exact replaySinks_ok first second
  · rw [shown]
    refine List.nodup_append.mpr ⟨(spending .read).nodup_run run,by simp,?_⟩
    intro index used sink listed same
    have spent := (spending .read).gone_run run index used
    subst same
    obtain rfl | rfl : index = 0 ∨ index = 1 := by simpa using listed
    · rw [Spent,first] at spent
      cases spent
    · rw [Spent,second] at spent
      cases spent

end Convert
/-- `a|b` with the errors of `a` in a file. -/
theorem planCommandSimple_linear_nested : ∃ plan, planCommandSimple ⟨[⟨0⟩]⟩ ⟨[]⟩
    (.redirect (.redirect (.cmd ⟨none,[.normal "a"]⟩) [⟨.stderr,.file (.normal "errors")⟩])
      [⟨.stdout,.command (.cmd ⟨none,[.normal "b"]⟩)⟩]) = .ok (.ok plan) ∧ plan.Linear := by
  refine planCommandSimple_linear rfl ?_
  simp only [Converts,ClausesConvert,ClauseConverts,TargetConverts]
  exact ⟨⟨⟨_,rfl⟩,trivial,trivial⟩,⟨_,rfl⟩,trivial⟩

end Nak
