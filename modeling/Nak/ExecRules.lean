import Nak.MachineRuns
import Nak.Exec

/-! What the functions of the executor can do, each said once. Everything that `run` does
before it answers leaves the machine alone and reports no result. -/
namespace Nak.ExecInternal
open Library Action

structure PipeSide (α : Type) where
  taken : String
  handle : Pair → Option α
  left : Pair → Pair
  made : GenericPipe → Nat → Pair
  handed : GenericPipe → Nat → α

def readSide : PipeSide InputPipe where
  taken := "read side taken"
  handle pair := pair.read
  left pair := { pair with read := none }
  made pipe number := ⟨none,some (.fromPipe number pipe)⟩
  handed pipe number := .fromPipe number pipe

def writeSide : PipeSide OutputPipe where
  taken := "write side taken"
  handle pair := pair.write
  left pair := { pair with write := none }
  made pipe number := ⟨some (.fromPipe number pipe),none⟩
  handed pipe number := .fromPipe number pipe

def takeEnd {α : Type} (os : Os) (side : PipeSide α) (pipe : GenericPipe) : Exec α := do
  let exec ← .get
  if pipe ∈ exec.openHandles then
    let pair ← .lift (Outcome.expect "already checked!?!?!" (exec.openHandles.lookup pipe))
    let handle ← .lift (Outcome.expect side.taken (side.handle pair))
    .modify fun exec => { exec with openHandles := exec.openHandles.insert pipe (side.left pair) }
    pure handle
  else
    let number ← allocPipe os pipe
    .modify fun exec => { exec with openHandles := exec.openHandles.insert pipe (side.made pipe number) }
    pure (side.handed pipe number)

theorem readEnd_eq (os : Os) (pipe : ReadPipe) : readEnd os pipe = takeEnd os readSide pipe.toGeneric := rfl

theorem writeEnd_eq (os : Os) (pipe : WritePipe) : writeEnd os pipe = takeEnd os writeSide pipe.toGeneric := rfl

structure Quiet (exec next : ExecInternal) : Prop where
  machine : next.machine = exec.machine
  effects : ∃ more, next.effects = exec.effects ++ more ∧ ∀ pid code, Effect.sent (.commandDone pid code) ∉ more

theorem Quiet.same {exec next : ExecInternal} (machine : next.machine = exec.machine)
    (effects : next.effects = exec.effects) : Quiet exec next :=
  ⟨machine,[],by rw [effects,List.append_nil],by simp⟩

instance : IsPreorder ExecInternal Quiet where
  refl _ := .same rfl rfl
  trans _ _ _ first second := by
    obtain ⟨more,effects,none⟩ := first.effects
    obtain ⟨rest,appended,none'⟩ := second.effects
    refine ⟨second.machine.trans first.machine,more ++ rest,by rw [appended,effects,List.append_assoc],?_⟩
    intro pid code member
    exact (List.mem_append.mp member).elim (none pid code) (none' pid code)

section Quiet
variable (os : Os)

theorem cause_quiet (effect : Effect) (silent : ∀ pid code, effect ≠ .sent (.commandDone pid code)) :
    Keeps Quiet (cause effect) := by
  apply Keeps.modify
  intro exec
  refine ⟨rfl,[effect],rfl,?_⟩
  intro pid code member
  exact silent pid code (List.mem_singleton.mp member).symm

theorem nextHandle_quiet : Keeps Quiet nextHandle := by
  unfold nextHandle
  apply Keeps.bind Keeps.get
  intro exec
  apply Keeps.bind (Keeps.modify _ fun _ => .same rfl rfl)
  intro _
  exact Keeps.pure _

theorem allocPipe_quiet (pipe : GenericPipe) : Keeps Quiet (allocPipe os pipe) := by
  unfold allocPipe
  split
  · exact nextHandle_quiet
  · exact Keeps.panic _

theorem takeEnd_quiet {α : Type} (side : PipeSide α) (pipe : GenericPipe) : Keeps Quiet (takeEnd os side pipe) := by
  unfold takeEnd
  apply Keeps.bind Keeps.get
  intro exec
  split
  · apply Keeps.bind (Keeps.lift _)
    intro pair
    apply Keeps.bind (Keeps.lift _)
    intro handle
    exact Keeps.bind (Keeps.modify _ fun _ => .same rfl rfl) fun _ => Keeps.pure _
  · apply Keeps.bind (allocPipe_quiet os _)
    intro number
    exact Keeps.bind (Keeps.modify _ fun _ => .same rfl rfl) fun _ => Keeps.pure _

theorem readEnd_quiet (pipe : ReadPipe) : Keeps Quiet (readEnd os pipe) := by
  rw [readEnd_eq]
  exact takeEnd_quiet os _ _

theorem writeEnd_quiet (pipe : WritePipe) : Keeps Quiet (writeEnd os pipe) := by
  rw [writeEnd_eq]
  exact takeEnd_quiet os _ _

/-- A relation that the elementary moves of `run` keep. -/
structure Frame (relates : ExecInternal → ExecInternal → Prop) : Prop where
  readEnd : ∀ pipe, Keeps relates (readEnd os pipe)
  writeEnd : ∀ pipe, Keeps relates (writeEnd os pipe)
  cause : ∀ effect, (∀ pid code, effect ≠ .sent (.commandDone pid code)) → Keeps relates (cause effect)
  awaiting : ∀ exec editIds waitingEdits, relates exec { exec with editIds, waitingEdits }

namespace Frame
variable {os} {relates : ExecInternal → ExecInternal → Prop}

theorem pipeAndClose (frame : Frame os relates) (pipe : WritePipe) (handle : OutputPipe) (data : Bytes) :
    Keeps relates (pipeAndClose pipe handle data) := by
  unfold ExecInternal.pipeAndClose
  split <;> exact frame.cause _ (by nofun)

variable [IsPreorder ExecInternal relates]

theorem pipeOutputAndClose (frame : Frame os relates) (pipes : WritePipes) (stdout stderr : Bytes) :
    Keeps relates (pipeOutputAndClose os pipes stdout stderr) := by
  unfold ExecInternal.pipeOutputAndClose
  apply Keeps.bind (frame.writeEnd _)
  intro handle
  apply Keeps.bind (frame.pipeAndClose _ _ _)
  intro _
  apply Keeps.bind (frame.writeEnd _)
  intro handle
  exact frame.pipeAndClose _ _ _

theorem beginEditRequest (frame : Frame os relates) (pid : ProcessId) (path : String) (data : Bytes) :
    Keeps relates (beginEditRequest os pid path data) := by
  unfold ExecInternal.beginEditRequest editRequest send
  apply Keeps.bind Keeps.get
  intro exec
  apply Keeps.bind (Keeps.modify _ fun exec => frame.awaiting exec _ _)
  intro _
  apply Keeps.bind (Keeps.propagate _)
  intro _
  exact frame.cause _ (by nofun)

theorem readContents (pid : ProcessId) : Keeps relates (readContents os pid) := by
  unfold ExecInternal.readContents
  split
  · exact Keeps.propagate _
  · split
    · exact Keeps.raise _
    · exact Keeps.pure _

theorem run (frame : Frame os relates) (pid : ProcessId) (c : RunCmd) : Keeps relates (run os pid c) := by
  unfold ExecInternal.run
  apply Keeps.bind (frame.cause _ (by nofun))
  intro _
  split
  · apply Keeps.bind (frame.readEnd _)
    intro stdin
    apply Keeps.bind (frame.writeEnd _)
    intro stdout
    apply Keeps.bind (frame.writeEnd _)
    intro stderr
    apply Keeps.bind (Keeps.propagate _)
    intro handle
    exact Keeps.bind (frame.cause _ (by nofun)) fun _ => Keeps.pure _
  · split
    · apply Keeps.bind (frame.cause _ (by nofun))
      intro _
      exact Keeps.bind (frame.pipeOutputAndClose _ _ _) fun _ => Keeps.pure _
    · exact Keeps.bind (frame.pipeOutputAndClose _ _ _) fun _ => Keeps.pure _
  · split <;> exact Keeps.bind (frame.pipeOutputAndClose _ _ _) fun _ => Keeps.pure _
  · apply Keeps.bind (readContents pid)
    intro contents
    exact Keeps.bind (frame.beginEditRequest _ _ _) fun _ => Keeps.pure _

end Frame

theorem quiet_frame : Frame os Quiet where
  readEnd := readEnd_quiet os
  writeEnd := writeEnd_quiet os
  cause := cause_quiet
  awaiting _ _ _ := .same rfl rfl

end Quiet

section Errorless
variable (os : Os)

theorem allocPipe_errorless (pipe : GenericPipe) : Errorless (allocPipe os pipe) := by
  unfold allocPipe nextHandle
  split
  · apply Errorless.bind Errorless.get
    intro exec
    exact Errorless.bind (Errorless.modify _) fun _ => Errorless.pure _
  · exact Errorless.panic _

theorem takeEnd_errorless {α : Type} (side : PipeSide α) (pipe : GenericPipe) : Errorless (takeEnd os side pipe) := by
  unfold takeEnd
  apply Errorless.bind Errorless.get
  intro exec
  split
  · apply Errorless.bind (Errorless.lift _)
    intro pair
    apply Errorless.bind (Errorless.lift _)
    intro handle
    exact Errorless.bind (Errorless.modify _) fun _ => Errorless.pure _
  · apply Errorless.bind (allocPipe_errorless os _)
    intro number
    exact Errorless.bind (Errorless.modify _) fun _ => Errorless.pure _

theorem readEnd_errorless (pipe : ReadPipe) : Errorless (readEnd os pipe) := by
  rw [readEnd_eq]
  exact takeEnd_errorless os _ _

theorem writeEnd_errorless (pipe : WritePipe) : Errorless (writeEnd os pipe) := by
  rw [writeEnd_eq]
  exact takeEnd_errorless os _ _

theorem cause_errorless (effect : Effect) : Errorless (cause effect) := Errorless.modify _

theorem pipeAndClose_errorless (pipe : WritePipe) (handle : OutputPipe) (data : Bytes) :
    Errorless (pipeAndClose pipe handle data) := by
  unfold pipeAndClose
  split <;> exact cause_errorless _

/-- The clean-up never answers with an error; it returns or panics. -/
theorem pipeOutputAndClose_errorless (pipes : WritePipes) (stdout stderr : Bytes) :
    Errorless (pipeOutputAndClose os pipes stdout stderr) := by
  unfold pipeOutputAndClose
  apply Errorless.bind (writeEnd_errorless os _)
  intro handle
  apply Errorless.bind (pipeAndClose_errorless _ _ _)
  intro _
  apply Errorless.bind (writeEnd_errorless os _)
  intro handle
  exact pipeAndClose_errorless _ _ _

end Errorless

section Elementary
variable {exec next : ExecInternal}

theorem cause_ok {effect : Effect} {result : Except Error Unit} (ok : cause effect exec = .ok (result,next)) :
    result = .ok () ∧ next = { exec with effects := exec.effects ++ [effect] } := by
  obtain ⟨rfl,rfl⟩ := Prod.mk.inj (Except.ok.inj ok)
  exact ⟨rfl,rfl⟩

theorem nextHandle_ok {number : Nat} (ok : nextHandle exec = .ok (.ok number,next)) :
    number = exec.opened ∧ next = { exec with opened := exec.opened + 1 } := by
  obtain ⟨same,rfl⟩ := Prod.mk.inj (Except.ok.inj ok)
  exact ⟨(Except.ok.inj same).symm,rfl⟩

end Elementary

section WriteEnd
variable {os : Os} {exec next : ExecInternal} {pipe : WritePipe}

theorem allocPipe_ok {pipe : GenericPipe} {number : Nat} (ok : allocPipe os pipe exec = .ok (.ok number,next)) :
    number = exec.opened ∧ next = { exec with opened := exec.opened + 1 } := by
  unfold allocPipe at ok
  cases made : os.allocPipe pipe with
  | error e =>
    rw [made] at ok
    cases ok
  | ok =>
    rw [made] at ok
    obtain ⟨same,rfl⟩ := Prod.mk.inj (Except.ok.inj ok)
    exact ⟨(Except.ok.inj same).symm,rfl⟩

theorem takeEnd_cases {α : Type} {side : PipeSide α} {pipe : GenericPipe} {handle : α}
    (ok : takeEnd os side pipe exec = .ok (.ok handle,next)) :
    (∃ pair, exec.openHandles.lookup pipe = some pair ∧ side.handle pair = some handle ∧
      next = { exec with openHandles := exec.openHandles.insert pipe (side.left pair) }) ∨
    (pipe ∉ exec.openHandles ∧ handle = side.handed pipe exec.opened ∧ next = { exec with
      opened := exec.opened + 1
      openHandles := exec.openHandles.insert pipe (side.made pipe exec.opened) }) := by
  unfold takeEnd at ok
  rw [get_bind] at ok
  split at ok
  · obtain ⟨pair,found,ok⟩ := lift_bind_ok.mp ok
    obtain ⟨taken,held,ok⟩ := lift_bind_ok.mp ok
    rw [modify_bind] at ok
    obtain ⟨rfl,rfl⟩ := pure_ok.mp ok
    exact Or.inl ⟨pair,(Outcome.expect_ok _ _ _).mp found,(Outcome.expect_ok _ _ _).mp held,rfl⟩
  · rename_i absent
    obtain ⟨number,_,made,ok⟩ := bind_ok.mp ok
    rw [modify_bind] at ok
    obtain ⟨rfl,rfl⟩ := pure_ok.mp ok
    obtain ⟨rfl,rfl⟩ := allocPipe_ok made
    exact Or.inr ⟨absent,rfl,rfl⟩

theorem writeEnd_cases {handle : OutputPipe} (ok : writeEnd os pipe exec = .ok (.ok handle,next)) :
    (∃ read, exec.openHandles.lookup pipe.toGeneric = some ⟨read,some handle⟩ ∧
      next = { exec with openHandles := exec.openHandles.insert pipe.toGeneric ⟨read,none⟩ }) ∨
    (pipe.toGeneric ∉ exec.openHandles ∧ handle = .fromPipe exec.opened pipe.toGeneric ∧ next = { exec with
      opened := exec.opened + 1
      openHandles := exec.openHandles.insert pipe.toGeneric
        ⟨some (.fromPipe exec.opened pipe.toGeneric),none⟩ }) := by
  rw [writeEnd_eq] at ok
  rcases takeEnd_cases ok with ⟨⟨read,_⟩,found,rfl,rfl⟩ | new
  · exact Or.inl ⟨read,found,rfl⟩
  · exact Or.inr new

theorem writeEnd_takes {handle : OutputPipe} (ok : writeEnd os pipe exec = .ok (.ok handle,next)) :
    (∃ read, next.openHandles.lookup pipe.toGeneric = some ⟨read,none⟩) ∧
      ∀ other, other ≠ pipe.toGeneric → next.openHandles.lookup other = exec.openHandles.lookup other := by
  rcases writeEnd_cases ok with ⟨read,_,rfl⟩ | ⟨_,_,rfl⟩
  · exact ⟨⟨read,Finmap.lookup_insert _⟩,fun other different => Finmap.lookup_insert_of_ne _ different⟩
  · exact ⟨⟨_,Finmap.lookup_insert _⟩,fun other different => Finmap.lookup_insert_of_ne _ different⟩

theorem writeEnd_again {read : Option InputPipe} (taken : exec.openHandles.lookup pipe.toGeneric = some ⟨read,none⟩) :
    writeEnd os pipe exec = .error (.expect "write side taken") := by
  unfold writeEnd
  rw [get_bind,if_pos (FiniteMap.mem_of_lookup taken),taken]
  rfl

end WriteEnd

def EditFails (os : Os) (pid : ProcessId) (path : String) : Prop :=
  (∃ e, os.openFile pid = .error e ∧ e.kind ≠ .notFound) ∨
  (os.openFile pid = .ok () ∧ ∃ e, os.readToEnd pid = .error e) ∨
  ∃ editId data e, os.send (.editRequest pid editId path data) = .error e

inductive RunCases (os : Os) (pid : ProcessId) : Command → Except Error RunResult → Prop
  | spawned (path args child) (spawn : os.spawn pid = .ok child) :
      RunCases os pid (.unknown path args) (.ok (.process (.running child)))
  | unspawned (path args e) (spawn : os.spawn pid = .error e) : RunCases os pid (.unknown path args) (.error e)
  | directorySet (dir) (set : os.setCurrentDir pid = .ok ()) :
      RunCases os pid (.setDirectory dir) (.ok (.alreadyDone 0))
  | directoryUnset (dir e) (set : os.setCurrentDir pid = .error e) :
      RunCases os pid (.setDirectory dir) (.ok (.alreadyDone 1))
  | directoryRead (dir) (got : os.currentDir pid = .ok dir) : RunCases os pid .getDirectory (.ok (.alreadyDone 0))
  | directoryUnread (e) (got : os.currentDir pid = .error e) : RunCases os pid .getDirectory (.ok (.alreadyDone 1))
  | editing (path) : RunCases os pid (.edit path) (.ok (.process .awaitingEdit))
  | unedited (path e) (fails : EditFails os pid path) : RunCases os pid (.edit path) (.error e)

variable {os : Os}

private theorem closing_cases {pipes : WritePipes} {stdout stderr : Bytes} {code : Int} {exec next : ExecInternal}
    {result : Except Error RunResult}
    (ok : (do pipeOutputAndClose os pipes stdout stderr; pure (.alreadyDone code) : Exec RunResult) exec =
      .ok (result,next)) : result = .ok (.alreadyDone code) := by
  obtain ⟨_,_,_,last⟩ := (pipeOutputAndClose_errorless os _ _ _).continues ok
  exact (Prod.mk.inj (Except.ok.inj last)).1.symm

private theorem readContents_fails {pid : ProcessId} {exec next : ExecInternal} {e : Error} (path : String)
    (raised : readContents os pid exec = .ok (.error e,next)) : EditFails os pid path := by
  unfold readContents at raised
  cases opened : os.openFile pid with
  | ok =>
    rw [opened] at raised
    exact Or.inr (Or.inl ⟨opened,e,(Prod.mk.inj (Except.ok.inj raised)).1⟩)
  | error cause =>
    simp only [opened] at raised
    split at raised
    · rename_i other
      exact Or.inl ⟨cause,opened,other⟩
    · cases raised

private theorem beginEditRequest_fails {pid : ProcessId} {path : String} {data : Bytes} {exec next : ExecInternal}
    {e : Error} (raised : beginEditRequest os pid path data exec = .ok (.error e,next)) : EditFails os pid path := by
  unfold beginEditRequest editRequest send at raised
  rw [get_bind] at raised
  obtain ⟨_,_,_,raised⟩ := (Errorless.modify _).continues raised
  rcases bind_raised.mp raised with failed | ⟨_,_,_,caused⟩
  · exact Or.inr (Or.inr ⟨_,_,e,(Prod.mk.inj (Except.ok.inj failed)).1⟩)
  · exact absurd caused (cause_errorless _).never

theorem run_cases {pid : ProcessId} {c : RunCmd} {exec next : ExecInternal} {result : Except Error RunResult}
    (ok : run os pid c exec = .ok (result,next)) : RunCases os pid c.cmd result := by
  obtain ⟨cmd,pipes⟩ := c
  obtain ⟨_,_,_,ok⟩ := (cause_errorless _).continues ok
  cases cmd with
  | unknown path args =>
    obtain ⟨stdin,_,_,ok⟩ := (readEnd_errorless os _).continues ok
    obtain ⟨stdout,_,_,ok⟩ := (writeEnd_errorless os _).continues ok
    obtain ⟨stderr,middle,_,ok⟩ := (writeEnd_errorless os _).continues ok
    cases spawn : os.spawn pid with
    | error e =>
      rw [spawn] at ok
      obtain ⟨rfl,_⟩ := Prod.mk.inj (Except.ok.inj ok)
      exact .unspawned path args e spawn
    | ok child =>
      rw [spawn] at ok
      obtain ⟨rfl,_⟩ := Prod.mk.inj (Except.ok.inj ok)
      exact .spawned path args child spawn
  | setDirectory dir =>
    cases set : os.setCurrentDir pid with
    | ok =>
      simp only [set] at ok
      obtain ⟨_,_,_,ok⟩ := (cause_errorless _).continues ok
      obtain rfl := closing_cases ok
      exact .directorySet dir set
    | error e =>
      simp only [set] at ok
      obtain rfl := closing_cases ok
      exact .directoryUnset dir e set
  | getDirectory =>
    cases got : os.currentDir pid with
    | ok dir =>
      simp only [got] at ok
      obtain rfl := closing_cases ok
      exact .directoryRead dir got
    | error e =>
      simp only [got] at ok
      obtain rfl := closing_cases ok
      exact .directoryUnread e got
  | edit path =>
    cases result with
    | error e =>
      apply RunCases.unedited
      rcases bind_raised.mp ok with raised | ⟨contents,middle,_,ok⟩
      · exact readContents_fails path raised
      · rcases bind_raised.mp ok with raised | ⟨_,_,_,last⟩
        · exact beginEditRequest_fails raised
        · cases last
    | ok value =>
      obtain ⟨_,_,_,ok⟩ := bind_ok.mp ok
      obtain ⟨_,_,_,ok⟩ := bind_ok.mp ok
      obtain ⟨same,_⟩ := Prod.mk.inj (Except.ok.inj ok)
      obtain rfl := Except.ok.inj same
      exact .editing path

end Nak.ExecInternal
