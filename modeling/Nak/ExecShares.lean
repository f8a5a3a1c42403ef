import Nak.ExecTaken

/-! Each end of a pipe is handed out once. What has been handed out of an end and what can
still be handed out of it make up at most one share, and no event adds to that. -/
namespace Nak
open Library Action

namespace Effect

def holdsRead (pipe : GenericPipe) : Effect → Bool
  | .spawned _ _ _ _ stdin _ _ => stdin.handle.id? = some pipe
  | .reader other _ => other = pipe
  | _ => false

def holdsWrite (pipe : GenericPipe) : Effect → Bool
  | .spawned _ _ _ _ _ stdout _ => stdout.handle.id? = some pipe
  | .writer _ handle _ => handle.handle.id? = some pipe
  | .dropped _ handle => handle.handle.id? = some pipe
  | _ => false

def holdsError (pipe : GenericPipe) : Effect → Bool
  | .spawned _ _ _ _ _ _ stderr => stderr.handle.id? = some pipe
  | _ => false

structure Endless (effect : Effect) : Prop where
  read : ∀ pipe, effect.holdsRead pipe = false
  write : ∀ pipe, effect.holdsWrite pipe = false
  error : ∀ pipe, effect.holdsError pipe = false

end Effect

namespace ExecInternal
variable {os : Os} {exec middle next : ExecInternal} {pipe other : GenericPipe}

def reads (pipe : GenericPipe) (effects : List Effect) : Nat := effects.countP (Effect.holdsRead pipe)

def writes (pipe : GenericPipe) (effects : List Effect) : Nat :=
  effects.countP (Effect.holdsWrite pipe) + effects.countP (Effect.holdsError pipe)

/-- Whether the end can still be handed out; that of a pipe not made yet can. -/
def left {α : Type} (side : Pair → Option α) (handles : Handles) (pipe : GenericPipe) : Nat :=
  (handles.lookup pipe).elim 1 fun pair => (side pair).toList.length

/-- What handing out an end of `taken` takes of the share of `pipe`. -/
def shareOf (pipe taken : GenericPipe) : Nat := if pipe = taken then 1 else 0

theorem left_insert {α : Type} (side : Pair → Option α) (handles : Handles) (pair : Pair) :
    left side (handles.insert pipe pair) other =
      if other = pipe then (side pair).toList.length else left side handles other := by
  unfold left
  rw [FiniteMap.lookup_insert_if]
  split <;> rfl

theorem reads_append (effects more : List Effect) :
    reads pipe (effects ++ more) = reads pipe effects + reads pipe more :=
  List.countP_append

theorem writes_append (effects more : List Effect) :
    writes pipe (effects ++ more) = writes pipe effects + writes pipe more := by
  simp only [writes,List.countP_append]
  omega

/-- At most one entry of the list holds, so any two that hold are one. -/
theorem holder_unique {α : Type} {holds : α → Bool} {list : List α} (most : list.countP holds ≤ 1) {one two : α}
    (member : one ∈ list) (given : holds one) (member' : two ∈ list) (given' : holds two) : one = two := by
  induction list with
  | nil => cases member
  | cons head list ih =>
    rw [List.countP_cons] at most
    rcases List.mem_cons.mp member with rfl | tail
    · rcases List.mem_cons.mp member' with rfl | tail'
      · rfl
      · have later : 0 < list.countP holds := List.countP_pos_iff.mpr ⟨two,tail',given'⟩
        rw [if_pos given] at most
        omega
    · have later : 0 < list.countP holds := List.countP_pos_iff.mpr ⟨one,tail,given⟩
      rcases List.mem_cons.mp member' with rfl | tail'
      · rw [if_pos given'] at most
        omega
      · exact ih (by omega) tail tail'

theorem taken_left {handles : Handles} (taken : Taken handles pipe) : left Pair.write handles pipe = 0 := by
  obtain ⟨read,found⟩ := taken
  simp [left,found]

theorem readEnd_left {pipe : ReadPipe} {handle : InputPipe} (ok : readEnd os pipe exec = .ok (.ok handle,next))
    (other : GenericPipe) :
    left Pair.read exec.openHandles other = left Pair.read next.openHandles other + shareOf other pipe.toGeneric ∧
    left Pair.write exec.openHandles other = left Pair.write next.openHandles other := by
  by_cases same : other = pipe.toGeneric
  · subst same
    rcases readEnd_cases ok with ⟨write,found,rfl⟩ | ⟨absent,_,rfl⟩
    · simp [shareOf,left,found]
    · simp [shareOf,left,Finmap.lookup_eq_none.mpr absent]
  · rcases readEnd_cases ok with ⟨write,_,rfl⟩ | ⟨_,_,rfl⟩
    · simp [left_insert,shareOf,same]
    · simp [left_insert,shareOf,same]

theorem writeEnd_left {pipe : WritePipe} {handle : OutputPipe} (ok : writeEnd os pipe exec = .ok (.ok handle,next))
    (other : GenericPipe) :
    left Pair.write exec.openHandles other = left Pair.write next.openHandles other + shareOf other pipe.toGeneric ∧
    left Pair.read exec.openHandles other = left Pair.read next.openHandles other := by
  by_cases same : other = pipe.toGeneric
  · subst same
    rcases writeEnd_cases ok with ⟨read,found,rfl⟩ | ⟨absent,_,rfl⟩
    · simp [shareOf,left,found]
    · simp [shareOf,left,Finmap.lookup_eq_none.mpr absent]
  · rcases writeEnd_cases ok with ⟨read,_,rfl⟩ | ⟨_,_,rfl⟩
    · simp [left_insert,shareOf,same]
    · simp [left_insert,shareOf,same]

def readShare (exec : ExecInternal) (pipe : GenericPipe) : Nat :=
  left Pair.read exec.openHandles pipe + reads pipe exec.effects

def writeShare (exec : ExecInternal) (pipe : GenericPipe) : Nat :=
  left Pair.write exec.openHandles pipe + writes pipe exec.effects

structure Thrifty (exec next : ExecInternal) : Prop where
  named : Named exec.openHandles → Named next.openHandles
  read : Named exec.openHandles → ∀ pipe, next.readShare pipe ≤ exec.readShare pipe
  write : Named exec.openHandles → ∀ pipe, next.writeShare pipe ≤ exec.writeShare pipe

instance : IsPreorder ExecInternal Thrifty where
  refl _ := ⟨id,fun _ _ => le_rfl,fun _ _ => le_rfl⟩
  trans _ _ _ first second := {
    named := fun named => second.named (first.named named)
    read := fun named pipe => (second.read (first.named named) pipe).trans (first.read named pipe)
    write := fun named pipe => (second.write (first.named named) pipe).trans (first.write named pipe) }

namespace Thrifty

theorem silent {more : List Effect} (handles : next.openHandles = exec.openHandles)
    (effects : next.effects = exec.effects ++ more) (endless : ∀ effect ∈ more, effect.Endless) :
    Thrifty exec next where
  named named := handles ▸ named
  read := by
    intro _ pipe
    have none : reads pipe more = 0 := by
      apply List.countP_eq_zero.mpr
      intro effect member
      simp [(endless effect member).read]
    rw [readShare,readShare,handles,effects,reads_append,none,Nat.add_zero]
  write := by
    intro _ pipe
    have none : writes pipe more = 0 := by
      apply Nat.add_eq_zero_iff.mpr
      constructor
      · apply List.countP_eq_zero.mpr
        intro effect member
        simp [(endless effect member).write]
      · apply List.countP_eq_zero.mpr
        intro effect member
        simp [(endless effect member).error]
    rw [writeShare,writeShare,handles,effects,writes_append,none,Nat.add_zero]

theorem same (handles : next.openHandles = exec.openHandles) (effects : next.effects = exec.effects) :
    Thrifty exec next := by
  refine silent handles (effects.trans (List.append_nil _).symm) ?_
  simp

end Thrifty

theorem of_share {handle : Handle} {taken : GenericPipe} (of : handle.Of taken) (pipe : GenericPipe) :
    (if handle.id? = some pipe then 1 else 0) ≤ shareOf pipe taken := by
  unfold shareOf
  split
  · rename_i on
    simp [of pipe on]
  · exact Nat.zero_le _

section Keeping
variable (os)

theorem cause_thrifty {effect : Effect} (endless : effect.Endless) : Keeps Thrifty (cause effect) := by
  apply Keeps.modify
  intro exec
  refine Thrifty.silent rfl rfl ?_
  intro other member
  exact List.mem_singleton.mp member ▸ endless

theorem send_thrifty (response : RemoteResponse) : Keeps Thrifty (send os response) := by
  apply Keeps.bind (Keeps.propagate _)
  intro _
  exact cause_thrifty ⟨fun _ => rfl,fun _ => rfl,fun _ => rfl⟩

theorem onMachine_thrifty (call : Machine ProcessId RunCmd ProcessState →
    Outcome (List (Task ProcessId RunCmd) × Machine ProcessId RunCmd ProcessState)) :
    Keeps Thrifty (onMachine call) := by
  unfold onMachine
  apply Keeps.bind Keeps.get
  intro exec
  apply Keeps.bind (Keeps.lift _)
  intro answer
  exact Keeps.bind (Keeps.modify _ fun _ => .same rfl rfl) fun _ => Keeps.pure _

end Keeping

private theorem endAndClose_thrifty {pipe : WritePipe} {handle : OutputPipe} {data : Bytes} {value : Except Error Unit}
    (ended : writeEnd os pipe exec = .ok (.ok handle,middle))
    (closed : pipeAndClose pipe handle data middle = .ok (value,next)) : Thrifty exec next := by
  obtain ⟨same,ends,of⟩ := writeEnd_ends ended
  have handed : ∃ effect, next = { middle with effects := middle.effects ++ [effect] } ∧
      (∀ pipe, effect.holdsRead pipe = false) ∧ (∀ pipe, effect.holdsError pipe = false) ∧
      ∀ pipe, effect.holdsWrite pipe = decide (handle.handle.id? = some pipe) := by
    unfold pipeAndClose at closed
    split at closed
    · exact ⟨_,(cause_ok closed).2,fun _ => rfl,fun _ => rfl,fun _ => rfl⟩
    · exact ⟨_,(cause_ok closed).2,fun _ => rfl,fun _ => rfl,fun _ => rfl⟩
  obtain ⟨effect,rfl,read,error,write⟩ := handed
  refine ⟨ends.named,?_,?_⟩
  · intro _ other
    have before := (writeEnd_left ended other).2
    simp [readShare,reads,read,same.effects,before]
  · intro named other
    have before := (writeEnd_left ended other).1
    have share := of_share (of named) other
    simp [writeShare,writes,error,write,same.effects,before]
    omega

theorem pipeOutputAndClose_thrifty (os : Os) (pipes : WritePipes) (stdout stderr : Bytes) :
    Keeps Thrifty (pipeOutputAndClose os pipes stdout stderr) where
  after := by
    intro exec value next ok
    obtain ⟨_,_,first,ok⟩ := (writeEnd_errorless os _).continues ok
    obtain ⟨_,_,closed,ok⟩ := (pipeAndClose_errorless _ _ _).continues ok
    obtain ⟨_,_,second,last⟩ := (writeEnd_errorless os _).continues ok
    exact IsTrans.trans _ _ _ (endAndClose_thrifty first closed) (endAndClose_thrifty second last)

theorem readEnd_thrifty (os : Os) (pipe : ReadPipe) : Keeps Thrifty (readEnd os pipe) where
  after := by
    intro exec value next ok
    cases value with
    | error e => exact absurd ok (readEnd_errorless os pipe).never
    | ok handle =>
      obtain ⟨same,ends,_⟩ := readEnd_ends ok
      refine ⟨ends.named,?_,?_⟩
      · intro _ other
        have before := (readEnd_left ok other).1
        simp [readShare,same.effects,before]
      · intro _ other
        have before := (readEnd_left ok other).2
        simp [writeShare,same.effects,before]

theorem writeEnd_thrifty (os : Os) (pipe : WritePipe) : Keeps Thrifty (writeEnd os pipe) where
  after := by
    intro exec value next ok
    cases value with
    | error e => exact absurd ok (writeEnd_errorless os pipe).never
    | ok handle =>
      obtain ⟨same,ends,_⟩ := writeEnd_ends ok
      refine ⟨ends.named,?_,?_⟩
      · intro _ other
        have before := (writeEnd_left ok other).2
        simp [readShare,same.effects,before]
      · intro _ other
        have before := (writeEnd_left ok other).1
        simp [writeShare,same.effects,before]

private theorem spawn_thrifty {pid : ProcessId} {path : String} {args : List String} {pipes : WritePipes} :
    Keeps Thrifty (do
      let stdin ← readEnd os pipes.stdin
      let stdout ← writeEnd os pipes.stdout
      let stderr ← writeEnd os pipes.stderr
      let handle ← .propagate (os.spawn pid)
      cause (.spawned pid handle path args stdin stdout stderr)
      pure (.process (.running handle)) : Exec RunResult) where
  after := by
    intro exec value next ok
    obtain ⟨stdin,one,first,ok⟩ := (readEnd_errorless os _).continues ok
    obtain ⟨stdout,two,second,ok⟩ := (writeEnd_errorless os _).continues ok
    obtain ⟨stderr,three,third,ok⟩ := (writeEnd_errorless os _).continues ok
    cases spawn : os.spawn pid with
    | error e =>
      rw [spawn] at ok
      obtain ⟨_,rfl⟩ := Prod.mk.inj (Except.ok.inj ok)
      have taken := IsTrans.trans _ _ _ ((readEnd_thrifty os _).after first) ((writeEnd_thrifty os _).after second)
      exact IsTrans.trans _ _ _ taken ((writeEnd_thrifty os _).after third)
    | ok child =>
      rw [spawn] at ok
      obtain ⟨_,rfl⟩ := Prod.mk.inj (Except.ok.inj ok)
      obtain ⟨same,ends,of,_⟩ := readEnd_ends first
      obtain ⟨same',ends',of'⟩ := writeEnd_ends second
      obtain ⟨same'',ends'',of''⟩ := writeEnd_ends third
      have effects : three.effects = exec.effects := by rw [same''.effects,same'.effects,same.effects]
      refine ⟨fun named => ends''.named (ends'.named (ends.named named)),?_,?_⟩
      · intro named other
        have given := of_share (of named) other
        have before := (readEnd_left first other).1
        have before' := (writeEnd_left second other).2
        have before'' := (writeEnd_left third other).2
        simp [readShare,reads,Effect.holdsRead,effects]
        omega
      · intro named other
        have given := of_share (of' (ends.named named)) other
        have given' := of_share (of'' (ends'.named (ends.named named))) other
        have before := (readEnd_left first other).2
        have before' := (writeEnd_left second other).1
        have before'' := (writeEnd_left third other).1
        simp [writeShare,writes,Effect.holdsWrite,Effect.holdsError,effects]
        omega

theorem run_thrifty (os : Os) (pid : ProcessId) (c : RunCmd) : Keeps Thrifty (run os pid c) := by
  obtain ⟨cmd,pipes⟩ := c
  apply Keeps.bind (cause_thrifty ⟨fun _ => rfl,fun _ => rfl,fun _ => rfl⟩)
  intro _
  have closing (stdout stderr : Bytes) (code : Int) :
      Keeps Thrifty (do pipeOutputAndClose os pipes stdout stderr; pure (.alreadyDone code) : Exec RunResult) :=
    Keeps.bind (pipeOutputAndClose_thrifty os _ _ _) fun _ => Keeps.pure _
  cases cmd with
  | unknown path args => exact spawn_thrifty
  | setDirectory dir =>
    cases set : os.setCurrentDir pid with
    | ok =>
      simp only
      apply Keeps.bind (cause_thrifty ⟨fun _ => rfl,fun _ => rfl,fun _ => rfl⟩)
      intro _
      exact closing _ _ _
    | error e =>
      simp only
      exact closing _ _ _
  | getDirectory =>
    cases got : os.currentDir pid with
    | ok dir =>
      simp only
      exact closing _ _ _
    | error e =>
      simp only
      exact closing _ _ _
  | edit path =>
    apply Keeps.bind
    · exact ⟨fun ok => readContents_same ok ▸ Std.Refl.refl _⟩
    · intro contents
      refine Keeps.bind ?_ fun _ => Keeps.pure _
      apply Keeps.bind Keeps.get
      intro exec
      apply Keeps.bind (Keeps.modify _ fun _ => .same rfl rfl)
      intro _
      exact send_thrifty os _

theorem processTask_thrifty (os : Os) (task : Task ProcessId RunCmd) : Keeps Thrifty (processTask os task) := by
  have reporting (pid : ProcessId) (code : Int) : Keeps Thrifty (commandResult os pid code) := send_thrifty os _
  cases task with
  | conditionFailed pid cmd => exact Keeps.bind (Keeps.unwrap (reporting pid 1)) fun _ => Keeps.pure _
  | start pid cmd =>
    apply Keeps.bind (Keeps.result (run_thrifty os pid cmd))
    intro result
    rcases result with e | state | exitCode
    · apply Keeps.bind (onMachine_thrifty _)
      intro tasks
      apply Keeps.bind (pipeOutputAndClose_thrifty os _ _ _)
      intro _
      exact Keeps.bind (reporting pid 1) fun _ => Keeps.pure _
    · exact onMachine_thrifty _
    · apply Keeps.bind (onMachine_thrifty _)
      intro tasks
      exact Keeps.bind (Keeps.unwrap (reporting pid 0)) fun _ => Keeps.pure _

theorem processTasks_thrifty {tasks : List (Task ProcessId RunCmd)}
    (ok : processTasks os tasks exec = .ok (.ok (),next)) : Thrifty exec next :=
  processTasks_queue (fun _ => Thrifty exec)
    (fun task _ _ _ _ thrifty ok => IsTrans.trans _ _ _ thrifty ((processTask_thrifty os task).after ok))
    (.same rfl rfl) ok

theorem completed_thrifty {pid : ProcessId} {exitCode : Int} (ok : completed os pid exitCode exec = .ok (.ok (),next)) :
    Thrifty exec next := by
  obtain ⟨_,_,reported,rest⟩ := bind_ok.mp ok
  obtain ⟨tasks,_,called,processed⟩ := bind_ok.mp rest
  have sent := (Keeps.unwrap (send_thrifty os _)).after reported
  have freed := IsTrans.trans _ _ _ sent ((onMachine_thrifty _).after called)
  exact IsTrans.trans _ _ _ freed (processTasks_thrifty processed)

private theorem opened_thrifty {number : Nat} {pair : Pair} (absent : pipe ∉ exec.openHandles)
    (read : ∀ input, pair.read = some input → input.handle.id? = none)
    (write : ∀ output, pair.write = some output → output.handle.id? = none) :
    Thrifty exec { exec with opened := number, openHandles := exec.openHandles.insert pipe pair } := by
  have ends : Ends (· = pipe) (· = pipe) exec.openHandles (exec.openHandles.insert pipe pair) := by
    refine Ends.insert (Or.inr (Or.inl rfl)) ?_ (fun _ => Or.inr rfl)
    intro _
    constructor
    · intro input shape id on
      simp [read input shape] at on
    · intro output shape id on
      simp [write output shape] at on
  have most {α : Type} (side : Pair → Option α) (other : GenericPipe) :
      left side (exec.openHandles.insert pipe pair) other ≤ left side exec.openHandles other := by
    rw [left_insert]
    split
    · rename_i same
      subst same
      simp [left,Finmap.lookup_eq_none.mpr absent,Option.length_toList_le]
    · exact le_rfl
  refine ⟨ends.named,?_,?_⟩
  · exact fun _ other => Nat.add_le_add_right (most Pair.read other) _
  · exact fun _ other => Nat.add_le_add_right (most Pair.write other) _

private theorem beginRead_thrifty (os : Os) (pipe : GenericPipe) : Keeps Thrifty (pipeMessage os pipe .beginRead) where
  after := by
    intro exec value next ok
    obtain ⟨handle,middle,taken,ok⟩ := (readEnd_errorless os _).continues ok
    obtain ⟨_,_,caused,last⟩ := (cause_errorless _).continues ok
    obtain ⟨_,rfl⟩ := cause_ok caused
    obtain ⟨_,rfl⟩ := Prod.mk.inj (Except.ok.inj last)
    obtain ⟨same,ends,_⟩ := readEnd_ends taken
    refine ⟨ends.named,?_,?_⟩
    · intro _ other
      have before := (readEnd_left taken other).1
      change _ = _ + shareOf other pipe at before
      simp [readShare,reads,Effect.holdsRead,same.effects,before,shareOf,eq_comm]
      omega
    · intro _ other
      have before := (readEnd_left taken other).2
      simp [writeShare,writes,Effect.holdsWrite,Effect.holdsError,same.effects,before]

theorem handle_thrifty {event : ExecEvent} (ok : handle os event exec = .ok next) : Thrifty exec next := by
  have done := handle_ok.mp ok
  cases event with
  | enqueue pid cmd blockFor =>
    obtain ⟨tasks,middle,called,processed⟩ := bind_ok.mp done
    exact IsTrans.trans _ _ _ ((onMachine_thrifty _).after called) (processTasks_thrifty processed)
  | completed pid exitCode => exact completed_thrifty done
  | editComplete editId data =>
    obtain ⟨pid,path,_,done⟩ := finishEdit_cases done
    have written : Thrifty exec { exec with
        waitingEdits := exec.waitingEdits.erase editId
        effects := exec.effects ++ [.written path data] } := by
      refine .silent rfl rfl ?_
      intro effect member
      obtain rfl := List.mem_singleton.mp member
      exact ⟨fun _ => rfl,fun _ => rfl,fun _ => rfl⟩
    exact IsTrans.trans _ _ _ written (completed_thrifty done)
  | openOutputFile pipe path =>
    obtain ⟨absent,rfl⟩ := openOutputFile_ok done
    refine opened_thrifty absent (by simp) ?_
    intro output shape
    obtain rfl := Option.some.inj shape
    rfl
  | openInputFile pipe path =>
    obtain ⟨absent,rfl⟩ := openInputFile_ok done
    refine opened_thrifty absent ?_ (by simp)
    intro input shape
    obtain rfl := Option.some.inj shape
    rfl
  | cancelExec pid =>
    obtain ⟨more,rfl,kills⟩ := cancel_ok done
    refine .silent rfl rfl ?_
    intro effect member
    obtain ⟨child,rfl⟩ := kills effect member
    exact ⟨fun _ => rfl,fun _ => rfl,fun _ => rfl⟩
  | pipeClosed pipe endOffset => exact (send_thrifty os _).after done
  | pipeOutput pipe data endOffset => exact (send_thrifty os _).after done
  | pipeMessage pipe msg =>
    cases msg with
    | beginRead => exact (beginRead_thrifty os pipe).after done
    | read limit =>
      obtain ⟨_,rfl⟩ := pure_ok.mp done
      exact .same rfl rfl
    | closed => cases done
    | data => cases done

end ExecInternal
end Nak
