import Nak.Protocol
import Nak.Library.Action
import Nak.Grammar
import Nak.Prefs

/-! The plan of a command line: pipes are numbered in the order in which the steps make them,
and `sinkMap` says where the output that no process reads goes. The builder numbers the pipes and remembers which of
their ends are still free; redirects are built from the last clause to the first. -/
namespace Nak
open Library Parse

structure RemoteRef where
  val : Nat
  deriving DecidableEq, Repr

structure PlanProcess where
  id : Nat
  stdin : Nat
  stdout : Nat
  stderr : Nat
  deriving DecidableEq, Repr

inductive RemoteStep where
  | openInputFile (path : String)
  | openOutputFile (path : String)
  | run (cmd : Command) (process : PlanProcess)
  | beginRemote (cmd : Command)
  | close
  deriving DecidableEq, Repr

inductive Step where
  | remote (remote : RemoteRef) (step : RemoteStep)
  | pipe
  | pager
  | editor
  deriving DecidableEq, Repr

structure GatherId where
  val : Nat
  deriving DecidableEq, Repr

structure PagerId where
  val : Nat
  deriving DecidableEq, Repr

inductive Sink where
  | devNull
  | stdout
  | stderr
  | gather (id : GatherId)
  | pager (id : PagerId)
  deriving DecidableEq, Repr

structure Plan where
  steps : List Step
  stdin : Option Nat
  gatherCount : Nat
  pagerCount : Nat
  sinkMap : List (Option Sink)
  deriving DecidableEq, Repr

structure Remotes where
  stack : List RemoteRef

structure PlanBuilder where
  plan : Plan
  procIds : Ids
  pipes : List (Bool × Bool)

namespace PlanBuilder
variable {ε : Type}

def new : PlanBuilder := ⟨⟨[],none,0,0,[]⟩,Ids.new,[]⟩

def build (builder : PlanBuilder) : Plan := builder.plan

def push (step : Step) : Action ε PlanBuilder Unit :=
  .modify fun builder => { builder with plan := { builder.plan with steps := builder.plan.steps ++ [step] } }

def addPipe (ends : Bool × Bool) : Action ε PlanBuilder Nat := do
  let builder ← .get
  .modify fun builder => { builder with pipes := builder.pipes ++ [ends] }
  pure builder.pipes.length

def pipe : Action ε PlanBuilder Nat := do
  let id ← addPipe (true,true)
  push .pipe
  pure id

def exit (remote : RemoteRef) : Action ε PlanBuilder Unit := push (.remote remote .close)

def addFileOutput (remote : RemoteRef) (file : String) : Action ε PlanBuilder Nat := do
  let id ← addPipe (false,true)
  push (.remote remote (.openOutputFile file))
  pure id

def useReadEnd (pipe : Nat) : Action ε PlanBuilder Unit := do
  let builder ← .get
  match builder.pipes[pipe]? with
  | none => .panic .bounds
  | some (read,write) => do
    .lift (Outcome.assert (read = true))
    .modify fun builder => { builder with pipes := builder.pipes.set pipe (false,write) }

def useWriteEnd (pipe : Nat) : Action ε PlanBuilder Unit := do
  let builder ← .get
  match builder.pipes[pipe]? with
  | none => .panic .bounds
  | some (read,write) => do
    .lift (Outcome.assert (write = true))
    .modify fun builder => { builder with pipes := builder.pipes.set pipe (read,false) }

def setStdin (stdin : Option Nat) : Action ε PlanBuilder Unit :=
  .modify fun builder => { builder with plan := { builder.plan with stdin } }

def addCommand (remote : RemoteRef) (cmd : Command) (stdin stdout stderr : Nat) : Action ε PlanBuilder Unit := do
  useReadEnd stdin
  useWriteEnd stdout
  useWriteEnd stderr
  let builder ← .get
  let (id,procIds) := builder.procIds.next
  .modify fun builder => { builder with procIds }
  push (.remote remote (.run cmd ⟨id,stdin,stdout,stderr⟩))

def setSinkMap (sinkMap : List (Option Sink)) : Action ε PlanBuilder Unit :=
  .modify fun builder => { builder with plan := { builder.plan with sinkMap } }

def sink (stream : Nat) (sink : Sink) : Action ε PlanBuilder Unit := do
  let builder ← .get
  let sinkMap := builder.plan.sinkMap ++ List.replicate (stream + 1 - builder.plan.sinkMap.length) none
  .lift (Outcome.assert (sinkMap[stream]? = some none))
  setSinkMap (sinkMap.set stream (some sink))

def addStdout (stdout : Nat) : Action ε PlanBuilder Unit := sink stdout .stdout

def addStderr (stderr : Nat) : Action ε PlanBuilder Unit := sink stderr .stderr

end PlanBuilder

def formatErr (msg : String) : Error := ⟨.other,"ErrorMessage \x7b msg: " ++ msg.quote ++ " \x7d"⟩

def checkSingleArg : List String → Except Error String
  | [] => .error (formatErr "not enough args")
  | [arg] => .ok arg
  | _ => .error (formatErr "bad too many args")

def convertSingle (prefs : Prefs) (cmd : Cmd) : Outcome (Except Error Command) := do
  let items ← prefs.expand (cmd.words.map Word.expandString)
  match items with
  | [] => .error .unwrap
  | head :: rest =>
    if head = "cd" then pure ((checkSingleArg rest).map .setDirectory)
    else if head = "micro" then pure ((checkSingleArg rest).map .edit)
    else if head = "nak" then do
      let _ ← Outcome.unwrap rest.head?
      .error .explicit
    else pure (.ok (.unknown head rest))

abbrev Building (α : Type) := Action Error PlanBuilder α

section Convert
variable (remotes : Remotes) (prefs : Prefs)

def lastRemote : Building RemoteRef := .lift (Outcome.unwrap remotes.stack.getLast?)

mutual

/-- The pipe that the input of the command comes from. -/
def convertAst : Ast → Nat → Nat → Building Nat
  | .empty, stdout, _ => pure stdout
  | .cmd cmd, stdout, stderr => do
    let stdin ← PlanBuilder.pipe
    let remote ← lastRemote remotes
    let command ← .lift (convertSingle prefs cmd)
    PlanBuilder.addCommand remote (← .propagate command) stdin stdout stderr
    pure stdin
  | .sequence _ _, _, _ => .panic .explicit
  | .redirect head clauses, stdout, stderr => do
    let (stdout,stderr) ← convertClauses clauses stdout stderr
    convertAst head stdout stderr

/-- The loop goes through the clauses from the last to the first. -/
def convertClauses : List (RedirectClause Ast) → Nat → Nat → Building (Nat × Nat)
  | [], stdout, stderr => pure (stdout,stderr)
  | clause :: clauses, stdout, stderr => do
    let (stdout,stderr) ← convertClauses clauses stdout stderr
    convertClause clause stdout stderr

def convertClause : RedirectClause Ast → Nat → Nat → Building (Nat × Nat)
  | ⟨stream,target⟩, stdout, stderr => do
    let stdin ← convertTarget target stdout stderr
    let other ← PlanBuilder.pipe
    match stream with
    | .stdout => pure (stdin,other)
    | .stderr => pure (other,stdin)

def convertTarget : Target Ast → Nat → Nat → Building Nat
  | .file path, _, _ => do PlanBuilder.addFileOutput (← lastRemote remotes) path.expandString
  | .command cmd, stdout, stderr => convertAst cmd stdout stderr

end

def convertCommand (cmd : Ast) : Building Unit := do
  let stdout ← PlanBuilder.pipe
  let stderr ← PlanBuilder.pipe
  let stdin ← convertAst remotes prefs cmd stdout stderr
  PlanBuilder.setStdin (some stdin)
  PlanBuilder.addStdout stdout
  PlanBuilder.addStderr stderr

/-- `parse_command_simple` on what `parse_input` has read the line as. -/
def planCommandSimple (cmd : Ast) : Outcome (Except Error Plan) := do
  let (result,builder) ← convertCommand remotes prefs cmd PlanBuilder.new
  pure (result.map fun _ => builder.build)

open Action

/-- What the steps that are added keep, however they are put together. -/
structure Built (relates : PlanBuilder → PlanBuilder → Prop) : Prop where
  pipe : Keeps relates (PlanBuilder.pipe : Building Nat)
  file : ∀ remote file, Keeps relates (PlanBuilder.addFileOutput remote file : Building Nat)
  command : ∀ remote cmd stdin stdout stderr,
    Keeps relates (PlanBuilder.addCommand remote cmd stdin stdout stderr : Building Unit)

section Built
variable {relates : PlanBuilder → PlanBuilder → Prop} [IsPreorder _ relates]

mutual

theorem convertAst_keeps (built : Built relates) (ast : Ast) (stdout stderr : Nat) :
    Keeps relates (convertAst remotes prefs ast stdout stderr) := by
  cases ast with
  | empty => exact .pure _
  | cmd cmd =>
    exact built.pipe.bind fun _ => (Keeps.lift _).bind fun _ => (Keeps.lift _).bind fun _ =>
      (Keeps.propagate _).bind fun _ => (built.command _ _ _ _ _).bind fun _ => .pure _
  | sequence head clauses => exact .panic _
  | redirect head clauses =>
    exact (convertClauses_keeps built clauses _ _).bind fun _ => convertAst_keeps built head _ _

theorem convertClauses_keeps (built : Built relates) (clauses : List (RedirectClause Ast)) (stdout stderr : Nat) :
    Keeps relates (convertClauses remotes prefs clauses stdout stderr) := by
  match clauses with
  | [] => exact .pure _
  | clause :: clauses =>
    exact (convertClauses_keeps built clauses _ _).bind fun _ => convertClause_keeps built clause _ _

theorem convertClause_keeps (built : Built relates) (clause : RedirectClause Ast) (stdout stderr : Nat) :
    Keeps relates (convertClause remotes prefs clause stdout stderr) := by
  match clause with
  | ⟨stream,target⟩ =>
    refine (convertTarget_keeps built target _ _).bind fun _ => built.pipe.bind fun _ => ?_
    cases stream with
    | stdout => exact .pure _
    | stderr => exact .pure _

theorem convertTarget_keeps (built : Built relates) (target : Target Ast) (stdout stderr : Nat) :
    Keeps relates (convertTarget remotes prefs target stdout stderr) := by
  match target with
  | .file path => exact (Keeps.lift _).bind fun _ => built.file _ _
  | .command cmd => exact convertAst_keeps built cmd _ _

end

end Built

structure SameSinks (builder next : PlanBuilder) : Prop where
  sinkMap : next.plan.sinkMap = builder.plan.sinkMap

instance : IsPreorder PlanBuilder SameSinks where
  refl _ := ⟨rfl⟩
  trans _ _ _ first second := ⟨second.sinkMap.trans first.sinkMap⟩

theorem useEnd_sinks (pipe : Nat) : Keeps SameSinks (PlanBuilder.useReadEnd pipe : Building Unit) ∧
    Keeps SameSinks (PlanBuilder.useWriteEnd pipe : Building Unit) := by
  constructor
  · refine Keeps.get.bind fun builder => ?_
    split
    · exact .panic _
    · exact (Keeps.lift _).bind fun _ => .modify _ fun _ => ⟨rfl⟩
  · refine Keeps.get.bind fun builder => ?_
    split
    · exact .panic _
    · exact (Keeps.lift _).bind fun _ => .modify _ fun _ => ⟨rfl⟩

theorem built_sinks : Built SameSinks where
  pipe := (Keeps.get.bind fun _ => (Keeps.modify _ fun _ => ⟨rfl⟩).bind fun _ => .pure _).bind fun _ =>
    (Keeps.modify _ fun _ => ⟨rfl⟩).bind fun _ => .pure _
  file _ _ := (Keeps.get.bind fun _ => (Keeps.modify _ fun _ => ⟨rfl⟩).bind fun _ => .pure _).bind fun _ =>
    (Keeps.modify _ fun _ => ⟨rfl⟩).bind fun _ => .pure _
  command _ _ stdin stdout stderr :=
    (useEnd_sinks stdin).1.bind fun _ => (useEnd_sinks stdout).2.bind fun _ => (useEnd_sinks stderr).2.bind fun _ =>
      Keeps.get.bind fun _ => (Keeps.modify _ fun _ => ⟨rfl⟩).bind fun _ => .modify _ fun _ => ⟨rfl⟩

theorem sink_ok {stream : Nat} {sink : Sink} {builder next : PlanBuilder}
    (ok : (PlanBuilder.sink stream sink : Building Unit) builder = .ok (.ok (),next)) :
    next.plan.sinkMap = (builder.plan.sinkMap ++
      List.replicate (stream + 1 - builder.plan.sinkMap.length) none).set stream (some sink) := by
  unfold PlanBuilder.sink at ok
  rw [get_bind] at ok
  obtain ⟨_,_,set⟩ := lift_bind_ok.mp ok
  obtain ⟨_,rfl⟩ := Prod.mk.inj (Except.ok.inj set)
  rfl

theorem planCommandSimple_sinks {cmd : Ast} {plan : Plan}
    (ok : planCommandSimple remotes prefs cmd = .ok (.ok plan)) :
    plan.sinkMap = [some .stdout,some .stderr] := by
  obtain ⟨⟨result,builder⟩,converted,last⟩ := Outcome.bind_ok.mp ok
  cases result with
  | error error => cases last
  | ok done =>
    obtain rfl := Except.ok.inj (Except.ok.inj last)
    obtain ⟨_,_,made₁,rest⟩ := bind_ok.mp converted
    obtain ⟨same₁,rfl⟩ := Prod.mk.inj (Except.ok.inj made₁)
    obtain rfl := Except.ok.inj same₁
    obtain ⟨_,_,made₂,rest⟩ := bind_ok.mp rest
    obtain ⟨same₂,rfl⟩ := Prod.mk.inj (Except.ok.inj made₂)
    obtain rfl := Except.ok.inj same₂
    obtain ⟨stdin,converted,walked,rest⟩ := bind_ok.mp rest
    have empty := ((convertAst_keeps remotes prefs built_sinks cmd _ _).after walked).sinkMap
    obtain ⟨_,_,set,rest⟩ := bind_ok.mp rest
    obtain ⟨_,rfl⟩ := Prod.mk.inj (Except.ok.inj set)
    obtain ⟨_,_,shown,last⟩ := bind_ok.mp rest
    change builder.plan.sinkMap = _
    rw [sink_ok last,sink_ok shown]
    simp only [empty]
    rfl

end Convert
end Nak
