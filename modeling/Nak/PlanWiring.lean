import Nak.ParserGrammar
import Nak.PlanLinear

/-! How the plan of a line without `;` is wired: its commands write to the next clause in
order, and every clause brings a new pipe for errors. -/
namespace Nak
open Library Action Parse Grammar Ends

section Line
variable (remotes : Remotes) (prefs : Prefs)

def parseCommandSimple (input : String) : Outcome (Except Error Plan) := do
  let cmd ← parseInput input
  planCommandSimple remotes prefs cmd

end Line

abbrev Started : Type := Command × PlanProcess

def started : Step → Option Started
  | .remote _ (.run cmd process) => some (cmd,process)
  | _ => none

def runs (steps : List Step) : List Started := steps.filterMap started

def makes : Step → Bool
  | .pipe => true
  | .remote _ (.openOutputFile _) => true
  | _ => false

def made (steps : List Step) : Nat := steps.countP makes

def opens : Step → Option String
  | .remote _ (.openOutputFile path) => some path
  | _ => none

def filesFrom : Nat → List Step → List (Nat × String)
  | _, [] => []
  | place, step :: steps => ((opens step).map (place,·)).toList ++ filesFrom (place + made [step]) steps

def files (steps : List Step) : List (Nat × String) := filesFrom 0 steps

/-- The commands run and the files opened are those of the clauses, the last one first. What
is written to `target` comes to the first clause, and past the last one to the line's own
output. -/
inductive Wired (prefs : Prefs) : List (Target Cmd) → Nat → List Started → List (Nat × String) → Prop
  | last : Wired prefs [] 0 [] []
  | command {clauses stdout runs files} (cmd : Cmd) (command : Command) (id stdin stderr : Nat)
      (converts : convertSingle prefs cmd = .ok (.ok command)) (rest : Wired prefs clauses stdout runs files) :
      Wired prefs (.command cmd :: clauses) stdin (runs ++ [(command,⟨id,stdin,stdout,stderr⟩)]) files
  | file {clauses stdout runs files} (path : Word) (index : Nat) (rest : Wired prefs clauses stdout runs files) :
      Wired prefs (.file path :: clauses) index runs (files ++ [(index,path.expandString)])

/-- What a command reads from, and what it writes to. -/
def piped (started : Started) : Nat × Nat × Nat := (started.2.stdin,started.2.stdout,started.2.stderr)

def stage (stdin stdout stderr : Nat) : Target Cmd → List (Nat × Nat × Nat)
  | .file _ => []
  | .command _ => [(stdin,stdout,stderr)]

/-- The pipes of the commands of these clauses: every clause brings two pipes, after those of
the clauses behind it. -/
def stages : List (Target Cmd) → List (Nat × Nat × Nat)
  | [] => []
  | target :: targets => stages targets ++
      stage (2 * targets.length + 2) (2 * targets.length) (2 * targets.length + 1) target

/-- Every pipe that a command writes to is a file's, the input of a command, or shown. -/
def Plan.AllRead (plan : Plan) : Prop :=
  ∀ started ∈ runs plan.steps, ∀ output ∈ [started.2.stdout,started.2.stderr],
    output ∈ (files plan.steps).map Prod.fst ∨ output ∈ (runs plan.steps).map (·.2.stdin) ∨ output ∈ plan.sinkIndexes

theorem runs_append (first second : List Step) : runs (first ++ second) = runs first ++ runs second :=
  List.filterMap_append

theorem made_append (first second : List Step) : made (first ++ second) = made first + made second :=
  List.countP_append

theorem filesFrom_append (place : Nat) (first second : List Step) :
    filesFrom place (first ++ second) = filesFrom place first ++ filesFrom (place + made first) second := by
  induction first generalizing place with
  | nil => simp [filesFrom,made]
  | cons step steps ih =>
    have split : made (step :: steps) = made [step] + made steps := made_append [step] steps
    simp [filesFrom,ih,split,Nat.add_assoc]

section Stages
variable {remotes : Remotes} {prefs : Prefs} {targets : List (Target Cmd)} {out err : Nat} {builder next : PlanBuilder}

/-- What the builder holds when these clauses have been converted, with the outputs of what
comes in front of them. -/
structure Composed (prefs : Prefs) (targets : List (Target Cmd)) (out err : Nat) (builder : PlanBuilder) : Prop where
  ready : Ready out err builder
  wired : Wired prefs targets out (runs builder.plan.steps) (files builder.plan.steps)
  counted : made builder.plan.steps = builder.pipes.length
  inputs : ∀ started ∈ runs builder.plan.steps, started.2.stdin < builder.pipes.length
  places : ∀ file ∈ files builder.plan.steps, file.1 < builder.pipes.length
  unread : targets ≠ [] → 2 ≤ err ∧ err ∉ (runs builder.plan.steps).map (·.2.stdin) ∧
    err ∉ (files builder.plan.steps).map Prod.fst
  shown : targets = [] → err = 1
  some : 2 ≤ builder.pipes.length

structure Numbered (targets : List (Target Cmd)) (out err : Nat) (builder : PlanBuilder) : Prop where
  length : builder.pipes.length = 2 * targets.length + 2
  out : out = 2 * targets.length
  err : err = 2 * targets.length + 1
  piped : (runs builder.plan.steps).map piped = stages targets

theorem numbered_opened : Numbered [] 0 1 opened := ⟨rfl,rfl,rfl,rfl⟩

structure Grown (target : Target Cmd) (out err : Nat) (builder next : PlanBuilder) : Prop where
  length : next.pipes.length = builder.pipes.length + 2
  runs : (runs next.plan.steps).map piped =
    (runs builder.plan.steps).map piped ++ stage builder.pipes.length out err target

theorem Numbered.put {target : Target Cmd} (numbered : Numbered targets out err builder)
    (grown : Grown target out err builder next) :
    Numbered (target :: targets) builder.pipes.length (builder.pipes.length + 1) next where
  length := by rw [grown.length,numbered.length,List.length_cons]; omega
  out := by rw [numbered.length,List.length_cons]; omega
  err := by rw [numbered.length,List.length_cons]; omega
  piped := by rw [grown.runs,numbered.piped,numbered.length,numbered.out,numbered.err,stages]

theorem composed_opened : Composed prefs [] 0 1 opened where
  ready := opened_ready
  wired := .last
  counted := rfl
  inputs := by simp [opened,runs,started]
  places := by simp [opened,files,filesFrom,opens]
  unread := by simp
  shown _ := rfl
  some := Nat.le_refl _

theorem Added.length {remote : RemoteRef} {cmd : Command} {stdin stdout stderr : Nat}
    (added : Added remote cmd stdin stdout stderr builder next) : next.pipes.length = builder.pipes.length := by
  obtain ⟨first,second,read,out,err⟩ := added.ends
  rw [take_length err,take_length out,take_length read]

theorem Composed.command {remote : RemoteRef} {cmd : Cmd} {command : Command}
    (composed : Composed prefs targets out err builder)
    (converts : convertSingle prefs cmd = .ok (.ok command)) {more : List Step}
    (quiet : runs more = [] ∧ ∀ place, filesFrom place more = []) {steps : List Step}
    (shape : steps = builder.plan.steps ++ ([.pipe,.remote remote (.run command
      ⟨builder.procIds.nextId,builder.pipes.length,out,err⟩)] ++ more)) :
    Wired prefs (.command cmd :: targets) builder.pipes.length (runs steps) (files steps) ∧
      runs steps = runs builder.plan.steps ++
        [(command,⟨builder.procIds.nextId,builder.pipes.length,out,err⟩)] ∧
      files steps = files builder.plan.steps := by
  have same : runs steps = runs builder.plan.steps ++
      [(command,⟨builder.procIds.nextId,builder.pipes.length,out,err⟩)] := by
    rw [shape,runs_append,runs_append,quiet.1]
    rfl
  have kept : files steps = files builder.plan.steps := by
    rw [shape,files,filesFrom_append,filesFrom_append,quiet.2]
    simp [files,filesFrom,opens]
  refine ⟨?_,same,kept⟩
  rw [same,kept]
  exact .command cmd command _ _ err converts composed.wired

theorem Composed.put {target : Target Cmd} (composed : Composed prefs targets out err builder)
    (ready : Ready builder.pipes.length (builder.pipes.length + 1) next)
    (wired : Wired prefs (target :: targets) builder.pipes.length (runs next.plan.steps) (files next.plan.steps))
    (length : next.pipes.length = builder.pipes.length + 2)
    (counted : made next.plan.steps = made builder.plan.steps + 2)
    (inputs : ∀ started ∈ runs next.plan.steps, started ∈ runs builder.plan.steps ∨
      started.2.stdin = builder.pipes.length)
    (places : ∀ file ∈ files next.plan.steps, file ∈ files builder.plan.steps ∨ file.1 = builder.pipes.length) :
    Composed prefs (target :: targets) builder.pipes.length (builder.pipes.length + 1) next := by
  have within (started : Started) (member : started ∈ runs next.plan.steps) :
      started.2.stdin ≤ builder.pipes.length := by
    rcases inputs started member with old | new
    · exact Nat.le_of_lt (composed.inputs started old)
    · exact new.le
  have placed (file : Nat × String) (member : file ∈ files next.plan.steps) : file.1 ≤ builder.pipes.length := by
    rcases places file member with old | new
    · exact Nat.le_of_lt (composed.places file old)
    · exact new.le
  have some := composed.some
  refine ⟨ready,wired,by rw [counted,composed.counted,length],fun started member => ?_,fun file member =>
    ?_,fun _ => ?_,by simp,by omega⟩
  · have := within started member
    omega
  · have := placed file member
    omega
  · refine ⟨by omega,fun member => ?_,fun member => ?_⟩
    · obtain ⟨started,listed,same⟩ := List.mem_map.mp member
      have := within started listed
      omega
    · obtain ⟨file,listed,same⟩ := List.mem_map.mp member
      have := placed file listed
      omega

theorem composed_clause {remote : RemoteRef} (rooted : remotes.stack.getLast? = some remote) (target : Target Cmd)
    (converts : ClauseConverts prefs (clause target)) (composed : Composed prefs targets out err builder) :
    ∃ next, convertClause remotes prefs (clause target) out err builder =
        .ok (.ok (builder.pipes.length,builder.pipes.length + 1),next) ∧
      Composed prefs (target :: targets) builder.pipes.length (builder.pipes.length + 1) next ∧
      Grown target out err builder next := by
  cases target with
  | file path =>
    obtain ⟨middle,ok,steps,pipes,converted⟩ := convertFile_ok rooted path out err builder
    obtain ⟨next,pushed,rfl,staged⟩ := staged_clause converted .stdout
    have length : middle.pipes.length = builder.pipes.length + 1 := by simp [pipes]
    rw [length] at pushed staged
    have opened : files (middle.plan.steps ++ [.pipe]) =
        files builder.plan.steps ++ [(builder.pipes.length,path.expandString)] := by
      rw [steps,List.append_assoc,files,filesFrom_append,Nat.zero_add,composed.counted]
      rfl
    have quiet : runs (middle.plan.steps ++ [.pipe]) = runs builder.plan.steps := by
      rw [steps,List.append_assoc,runs_append]
      exact List.append_nil _
    refine ⟨_,?_,composed.put staged.ready ?_ ?_ ?_ ?_ ?_,by simp [length],by simp [quiet,stage]⟩
    · rw [clause,convertClause,ok_bind ok]
      exact pushed
    · dsimp only
      rw [opened,quiet]
      exact .file path _ composed.wired
    · simp [length]
    · rw [steps,List.append_assoc,made_append]
      rfl
    · intro started member
      exact Or.inl (quiet ▸ member)
    · intro file member
      rw [opened] at member
      refine (List.mem_append.mp member).imp_right fun new => ?_
      rw [List.mem_singleton.mp new]
  | command cmd =>
    simp only [clause,ClauseConverts,TargetConverts,Converts] at converts
    obtain ⟨command,converts⟩ := converts
    obtain ⟨middle,ok,added,converted⟩ := convertCmd_ok rooted converts composed.ready
    obtain ⟨next,pushed,rfl,staged⟩ := staged_clause converted .stdout
    have length : middle.pipes.length = builder.pipes.length + 1 := by simp [added.length]
    have steps : middle.plan.steps ++ [.pipe] = builder.plan.steps ++ ([.pipe,.remote remote (.run command
        ⟨builder.procIds.nextId,builder.pipes.length,out,err⟩)] ++ [.pipe]) := by simp [added.plan]
    rw [length] at pushed staged
    have quiet : runs [.pipe] = [] ∧ ∀ place, filesFrom place [.pipe] = [] := ⟨rfl,fun _ => rfl⟩
    obtain ⟨wired,same,kept⟩ := composed.command converts quiet steps
    refine ⟨_,?_,composed.put staged.ready wired ?_ ?_ ?_ ?_,by simp [length],by simp [same,stage,piped]⟩
    · rw [clause,convertClause,convertTarget,ok_bind ok]
      exact pushed
    · simp [length]
    · rw [steps]
      rw [made_append]
      rfl
    · intro started member
      rw [same] at member
      refine (List.mem_append.mp member).imp_right fun new => ?_
      rw [List.mem_singleton.mp new]
    · intro file member
      exact Or.inl (kept ▸ member)

theorem composed_clauses {remote : RemoteRef} (rooted : remotes.stack.getLast? = some remote)
    (converts : ClausesConvert prefs (targets.map clause)) :
    ∃ out err next, convertClauses remotes prefs (targets.map clause) 0 1 opened = .ok (.ok (out,err),next) ∧
      Composed prefs targets out err next ∧ Numbered targets out err next := by
  induction targets with
  | nil =>
    rw [List.map_nil,convertClauses]
    exact ⟨0,1,opened,rfl,composed_opened,numbered_opened⟩
  | cons target targets ih =>
    rw [List.map_cons,ClausesConvert] at converts
    obtain ⟨out,err,middle,before,composed,numbered⟩ := ih converts.2
    obtain ⟨next,ok,put,grown⟩ := composed_clause rooted target converts.1 composed
    refine ⟨_,_,next,?_,put,numbered.put grown⟩
    rw [List.map_cons,convertClauses,ok_bind before]
    exact ok

theorem convertAst_pipeline (pipeline : Pipeline) (stdout stderr : Nat) :
    convertAst remotes prefs pipeline.ast stdout stderr = (do
      let (stdout,stderr) ← convertClauses remotes prefs (pipeline.targets.map clause) stdout stderr
      convertAst remotes prefs (.cmd pipeline.head) stdout stderr) := by
  obtain ⟨head,targets⟩ := pipeline
  cases targets with
  | nil =>
    rw [List.map_nil,convertClauses]
    rfl
  | cons target targets =>
    rw [Pipeline.ast,if_neg (by simp),convertAst]

theorem converts_pipeline {pipeline : Pipeline} (converts : Converts prefs pipeline.ast) :
    (∃ command, convertSingle prefs pipeline.head = .ok (.ok command)) ∧
      ClausesConvert prefs (pipeline.targets.map clause) := by
  obtain ⟨head,targets⟩ := pipeline
  cases targets with
  | nil =>
    rw [List.map_nil,ClausesConvert]
    change Converts prefs (.cmd head) at converts
    rw [Converts] at converts
    exact ⟨converts,trivial⟩
  | cons target targets =>
    rw [Pipeline.ast,if_neg (by simp),Converts,Converts] at converts
    exact converts

/-- The plan of a pipeline: its head is run last, after what the clauses come to. -/
theorem planned_pipeline {remote : RemoteRef} (rooted : remotes.stack.getLast? = some remote) {pipeline : Pipeline}
    (converts : Converts prefs pipeline.ast) : ∃ out err builder command,
      Composed prefs pipeline.targets out err builder ∧ Numbered pipeline.targets out err builder ∧
      convertSingle prefs pipeline.head = .ok (.ok command) ∧
      ∃ plan, planCommandSimple remotes prefs pipeline.ast = .ok (.ok plan) ∧
        plan.stdin = some builder.pipes.length ∧ plan.sinkMap = [some .stdout,some .stderr] ∧
        plan.steps = builder.plan.steps ++ ([.pipe,.remote remote (.run command
          ⟨builder.procIds.nextId,builder.pipes.length,out,err⟩)] ++ []) := by
  obtain ⟨⟨command,head⟩,clauses⟩ := converts_pipeline converts
  obtain ⟨out,err,middle,before,composed,numbered⟩ := composed_clauses rooted clauses
  obtain ⟨builder,ok,added,-⟩ := convertCmd_ok rooted head composed.ready
  have whole : convertAst remotes prefs pipeline.ast 0 1 opened = .ok (.ok middle.pipes.length,builder) := by
    rw [convertAst_pipeline,ok_bind before]
    exact ok
  refine ⟨out,err,middle,command,composed,numbered,head,_,planCommandSimple_eq whole,rfl,rfl,?_⟩
  simp [added.plan]

end Stages

section Line
variable {remotes : Remotes} {prefs : Prefs} {remote : RemoteRef} {line : String}

/-- Every command of a pipeline writes to the clause after it, and the last one to the pipe
that is shown. -/
theorem pipeline_wired (rooted : remotes.stack.getLast? = some remote) {pipeline : Pipeline}
    (parsed : parseInput line = .ok pipeline.ast) (converts : Converts prefs pipeline.ast) :
    ∃ plan, parseCommandSimple remotes prefs line = .ok (.ok plan) ∧ plan.sinkMap[0]? = some (some .stdout) ∧
      ∃ stdin, plan.stdin = some stdin ∧
        Wired prefs (.command pipeline.head :: pipeline.targets) stdin (runs plan.steps) (files plan.steps) := by
  obtain ⟨out,err,builder,command,composed,-,head,plan,planned,stdin,sinks,steps⟩ := planned_pipeline rooted converts
  have quiet : runs [] = [] ∧ ∀ place, filesFrom place [] = [] := ⟨rfl,fun _ => rfl⟩
  refine ⟨plan,?_,by rw [sinks]; rfl,_,stdin,(composed.command head quiet steps).1⟩
  rw [parseCommandSimple,parsed]
  exact planned

/-- `a|b > c`, and `d` reads what nothing writes. -/
theorem pipeline_wired_nested : ∃ plan, parseCommandSimple ⟨[⟨0⟩]⟩ ⟨[]⟩ "a|b > c | d" = .ok (.ok plan) ∧
    plan.sinkMap[0]? = some (some .stdout) ∧ ∃ stdin, plan.stdin = some stdin ∧
      Wired ⟨[]⟩ [.command (command ["a"]),.command (command ["b"]),.file (.normal "c"),.command (command ["d"])] stdin
        (runs plan.steps) (files plan.steps) := by
  have parsed : parseInput "a|b > c | d" = .ok (Pipeline.ast ⟨command ["a"],
      [.command (command ["b"]),.file (.normal "c"),.command (command ["d"])]⟩) :=
    parsed_of_reference rfl
  refine pipeline_wired rfl parsed ?_
  rw [Pipeline.ast,if_neg (by simp)]
  simp only [List.map_cons,List.map_nil,clause,Converts,ClausesConvert,ClauseConverts,TargetConverts]
  exact ⟨⟨_,rfl⟩,⟨_,rfl⟩,trivial,⟨_,rfl⟩,trivial⟩

theorem pipeline_allRead (rooted : remotes.stack.getLast? = some remote) {pipeline : Pipeline}
    (converts : Converts prefs pipeline.ast) :
    ∃ plan, planCommandSimple remotes prefs pipeline.ast = .ok (.ok plan) ∧
      (plan.AllRead ↔ pipeline.targets = []) := by
  obtain ⟨out,err,builder,command,composed,-,head,plan,planned,-,sinks,steps⟩ := planned_pipeline rooted converts
  have quiet : runs [] = [] ∧ ∀ place, filesFrom place [] = [] := ⟨rfl,fun _ => rfl⟩
  obtain ⟨-,begun,opened⟩ := composed.command head quiet steps
  have shown : plan.sinkIndexes = [0,1] := by
    rw [Plan.sinkIndexes,sinks]
    rfl
  refine ⟨plan,planned,?_⟩
  unfold Plan.AllRead
  rw [begun,opened,shown]
  constructor
  · intro read
    by_contra some
    obtain ⟨beyond,input,file⟩ := composed.unread some
    have within := free_lt composed.ready.err
    rcases read _ (List.mem_append_right _ (List.mem_singleton.mpr rfl)) err (by simp) with among | among | among
    · exact file among
    · rw [List.map_append] at among
      rcases List.mem_append.mp among with old | new
      · exact input old
      · exact within.ne (List.mem_singleton.mp new)
    · simp only [List.mem_cons,List.not_mem_nil,or_false] at among
      omega
  · intro none
    obtain rfl := composed.shown none
    have wired := composed.wired
    rw [none] at wired
    generalize runs builder.plan.steps = before at wired
    generalize files builder.plan.steps = places at wired
    cases wired with
    | last =>
      intro started member output among
      obtain rfl := List.mem_singleton.mp member
      exact Or.inr (Or.inr among)

theorem planned_single {holds : Plan → Prop} {allowed : List Token → Prop} {ast : Ast}
    (parsed : parseInput line = .ok ast) (converts : Converts prefs ast)
    (blank : holds { opened.plan with stdin := some 0, sinkMap := [some .stdout,some .stderr] } ↔ allowed [])
    (pipelines : ∀ tokens segment, readSegment tokens = some segment → Converts prefs segment.pipeline.ast →
      ∃ plan, planCommandSimple remotes prefs segment.pipeline.ast = .ok (.ok plan) ∧ (holds plan ↔ allowed tokens)) :
    ∃ tokens, lex line.toList = some tokens ∧
      ∃ plan, parseCommandSimple remotes prefs line = .ok (.ok plan) ∧ (holds plan ↔ allowed tokens) := by
  have single : ∀ head clauses, ast ≠ .sequence head clauses := by
    rintro head clauses rfl
    rw [Converts] at converts
    exact converts
  obtain ⟨tokens,lexed,reads⟩ := reference_single (reference_of_parsed parsed) single
  refine ⟨tokens,lexed,?_⟩
  rw [parseCommandSimple,parsed]
  rcases reads with ⟨rfl,rfl⟩ | ⟨segment,read,rfl⟩
  · have converted : convertAst remotes prefs .empty 0 1 opened = .ok (.ok 0,opened) := by
      rw [convertAst]
      rfl
    exact ⟨_,planCommandSimple_eq converted,blank⟩
  · exact pipelines tokens segment read converts

/-- Every output of the line's commands has a reader exactly when the line has no clause:
each clause gives what is in front of it a pipe for errors that nothing reads. -/
theorem allRead_iff (rooted : remotes.stack.getLast? = some remote) {ast : Ast} (parsed : parseInput line = .ok ast)
    (converts : Converts prefs ast) :
    ∃ plan, parseCommandSimple remotes prefs line = .ok (.ok plan) ∧ (plan.AllRead ↔ ¬HasClause line) := by
  obtain ⟨tokens,lexed,plan,planned,read⟩ :=
    @planned_single remotes prefs line Plan.AllRead (fun tokens => .pipe ∉ tokens ∧
      .redirect ∉ tokens) ast parsed converts
      (by simp [Plan.AllRead,opened,runs,started]) fun tokens segment read converts => by
        obtain ⟨plan,planned,same⟩ := pipeline_allRead rooted converts
        exact ⟨plan,planned,same.trans (readSegment_targets read)⟩
  have clause : ¬HasClause line ↔ .pipe ∉ tokens ∧ .redirect ∉ tokens := by
    rw [HasClause,lexed]
    simp [not_or]
  exact ⟨plan,planned,read.trans clause.symm⟩

/-- `"a > b" c` has no clause: the operator is in quotes. -/
theorem allRead_iff_quoted : ∃ plan, parseCommandSimple ⟨[⟨0⟩]⟩ ⟨[]⟩ "\"a > b\" c" = .ok (.ok plan) ∧ plan.AllRead := by
  have parsed : parseInput "\"a > b\" c" = .ok (.cmd (command ["a > b","c"])) :=
    parsed_of_reference rfl
  have converts : Converts ⟨[]⟩ (.cmd (command ["a > b","c"])) := by
    rw [Converts]
    exact ⟨_,rfl⟩
  obtain ⟨plan,planned,read⟩ := @allRead_iff ⟨[⟨0⟩]⟩ ⟨[]⟩ ⟨0⟩ "\"a > b\" c" rfl _ parsed converts
  refine ⟨plan,planned,read.mpr ?_⟩
  rintro ⟨tokens,lexed,clause⟩
  cases lexed
  simp at clause

/-- What `a` of `a>b` writes to its standard error goes to a pipe that nothing reads. -/
theorem allRead_fails : ∃ plan, parseCommandSimple ⟨[⟨0⟩]⟩ ⟨[]⟩ "a>b" = .ok (.ok plan) ∧
    (.unknown "a" [],⟨0,4,2,3⟩) ∈ runs plan.steps ∧ ¬plan.AllRead := by
  have parsed : parseInput "a>b" = .ok (Pipeline.ast ⟨command ["a"],[.file (.normal "b")]⟩) :=
    parsed_of_reference rfl
  refine ⟨⟨[.pipe,.pipe,.remote ⟨0⟩ (.openOutputFile "b"),.pipe,.pipe,.remote ⟨0⟩ (.run (.unknown "a" []) ⟨0,4,2,3⟩)],
    some 4,0,0,[some .stdout,some .stderr]⟩,?_,by simp [runs,started],fun read => ?_⟩
  · rw [parseCommandSimple,parsed]
    rfl
  · have unread := read (.unknown "a" [],⟨0,4,2,3⟩) (by simp [runs,started]) 3 (by simp)
    revert unread
    decide

end Line
end Nak
