import Nak.ExecHandles

/-! The footprint of running a command: which ends it takes, which threads it starts and
what it sends. A child is started last, so a command that fails has started none. -/
namespace Nak
open Library Action

namespace ExecInternal
variable {os : Os} {exec next : ExecInternal} {pid : ProcessId} {pipes : WritePipes}

/-- What a command that has these pipes may cause besides a child. -/
inductive Closing (pipes : WritePipes) : Effect → Prop
  | running (pid cmd) : Closing pipes (.running pid cmd)
  | directory (dir) : Closing pipes (.currentDirSet dir)
  | writer (pipe handle data) (output : pipes.output pipe.toGeneric) (of : handle.handle.Of pipe.toGeneric) :
      Closing pipes (.writer pipe handle data)
  | dropped (pipe handle) : Closing pipes (.dropped pipe handle)
  | sent (response) (silent : ∀ envelope, response ≠ .pipe envelope) : Closing pipes (.sent response)

structure Footprint (pid : ProcessId) (pipes : WritePipes) (exec next : ExecInternal) : Prop where
  ends : Ends pipes.input pipes.output exec.openHandles next.openHandles
  effects : ∃ more, next.effects = exec.effects ++ more ∧
    (Named exec.openHandles → ∀ effect ∈ more, Closing pipes effect)
  edits : ∀ editId entry, next.waitingEdits.lookup editId = some entry →
    exec.waitingEdits.lookup editId = some entry ∨ entry.1 = pid

namespace Footprint

theorem refl : Footprint pid pipes exec exec where
  ends := .refl
  effects := ⟨[],by rw [List.append_nil],fun _ => by simp⟩
  edits _ _ := Or.inl

theorem trans {middle : ExecInternal} (first : Footprint pid pipes exec middle)
    (second : Footprint pid pipes middle next) : Footprint pid pipes exec next where
  ends := first.ends.trans second.ends
  effects := by
    obtain ⟨more,effects,closing⟩ := first.effects
    obtain ⟨rest,appended,closing'⟩ := second.effects
    refine ⟨more ++ rest,by rw [appended,effects,List.append_assoc],?_⟩
    intro named effect member
    rcases List.mem_append.mp member with early | late
    · exact closing named effect early
    · exact closing' (first.ends.named named) effect late
  edits editId entry found := (second.edits editId entry found).elim (first.edits editId entry) Or.inr

theorem of_ends (same : SameBut exec next) (ends : Ends pipes.input pipes.output exec.openHandles next.openHandles) :
    Footprint pid pipes exec next where
  ends := ends
  effects := ⟨[],by rw [same.effects,List.append_nil],fun _ => by simp⟩
  edits editId entry found := Or.inl (same.waitingEdits ▸ found)

theorem causing (print : Footprint pid pipes exec next) {effect : Effect}
    (closing : Named exec.openHandles → Closing pipes effect) :
    Footprint pid pipes exec { next with effects := next.effects ++ [effect] } where
  ends := print.ends
  effects := by
    obtain ⟨more,effects,all⟩ := print.effects
    refine ⟨more ++ [effect],by rw [effects,List.append_assoc],?_⟩
    intro named other member
    rcases List.mem_append.mp member with early | late
    · exact all named other early
    · exact List.mem_singleton.mp late ▸ closing named
  edits := print.edits

end Footprint

theorem readEnd_footprint {handle : InputPipe} (ok : readEnd os pipes.stdin exec = .ok (.ok handle,next)) :
    Footprint pid pipes exec next := by
  obtain ⟨same,ends,_⟩ := readEnd_ends ok
  exact .of_ends same (ends.mono (fun _ => id) (fun _ => False.elim))

theorem writeEnd_footprint {pipe : WritePipe} {handle : OutputPipe} (output : pipes.output pipe.toGeneric)
    (ok : writeEnd os pipe exec = .ok (.ok handle,next)) : Footprint pid pipes exec next := by
  obtain ⟨same,ends,_⟩ := writeEnd_ends ok
  refine .of_ends same (ends.mono (fun _ => False.elim) ?_)
  intro other named
  exact named ▸ output

private theorem endAndClose_footprint {pipe : WritePipe} {data : Bytes} {handle : OutputPipe} {middle : ExecInternal}
    (output : pipes.output pipe.toGeneric) (ended : writeEnd os pipe exec = .ok (.ok handle,middle))
    (closed : pipeAndClose pipe handle data middle = .ok (.ok (),next)) : Footprint pid pipes exec next := by
  obtain ⟨same,ends,of⟩ := writeEnd_ends ended
  unfold pipeAndClose at closed
  have print : Footprint pid pipes exec middle := writeEnd_footprint output ended
  split at closed
  · obtain ⟨_,rfl⟩ := cause_ok closed
    exact print.causing fun named => .writer pipe handle data output (of named)
  · obtain ⟨_,rfl⟩ := cause_ok closed
    exact print.causing fun _ => .dropped pipe handle

theorem pipeOutputAndClose_footprint {stdout stderr : Bytes}
    (ok : pipeOutputAndClose os pipes stdout stderr exec = .ok (.ok (),next)) : Footprint pid pipes exec next := by
  obtain ⟨_,_,first,ok⟩ := bind_ok.mp ok
  obtain ⟨_,_,closed,ok⟩ := bind_ok.mp ok
  obtain ⟨_,_,second,last⟩ := bind_ok.mp ok
  exact (endAndClose_footprint (Or.inl rfl) first closed).trans (endAndClose_footprint (Or.inr rfl) second last)

/-- How `run` leaves the executor: with a child, or without one. -/
inductive RunEnds (pid : ProcessId) (pipes : WritePipes) (exec : ExecInternal) :
    Except Error RunResult → ExecInternal → Prop
  | spawned (middle child path args stdin stdout stderr) (print : Footprint pid pipes exec middle)
      (edits : middle.waitingEdits = exec.waitingEdits)
      (of : Named exec.openHandles → stdin.handle.Of pipes.stdin.toGeneric ∧
        stdout.handle.Of pipes.stdout.toGeneric ∧ stderr.handle.Of pipes.stderr.toGeneric) :
      RunEnds pid pipes exec (.ok (.process (.running child)))
        { middle with effects := middle.effects ++ [.spawned pid child path args stdin stdout stderr] }
  | childless (result next) (print : Footprint pid pipes exec next)
      (none : ∀ child, result ≠ .ok (.process (.running child))) : RunEnds pid pipes exec result next

private theorem closing_ends {stdout stderr : Bytes} {code : Int} {start : ExecInternal}
    {result : Except Error RunResult} (before : Footprint pid pipes start exec)
    (ok : (do pipeOutputAndClose os pipes stdout stderr; pure (.alreadyDone code) : Exec RunResult) exec =
      .ok (result,next)) : RunEnds pid pipes start result next := by
  obtain ⟨_,_,closed,last⟩ := (pipeOutputAndClose_errorless os _ _ _).continues ok
  obtain ⟨rfl,rfl⟩ := Prod.mk.inj (Except.ok.inj last)
  exact .childless _ _ (before.trans (pipeOutputAndClose_footprint closed)) nofun

theorem readContents_same {result : Except Error Bytes} (ok : readContents os pid exec = .ok (result,next)) :
    next = exec := by
  unfold readContents at ok
  cases opened : os.openFile pid with
  | ok =>
    rw [opened] at ok
    exact (Prod.mk.inj (Except.ok.inj ok)).2.symm
  | error e =>
    simp only [opened] at ok
    split at ok
    · exact (Prod.mk.inj (Except.ok.inj ok)).2.symm
    · exact (Prod.mk.inj (Except.ok.inj ok)).2.symm

private theorem beginEditRequest_footprint {path : String} {data : Bytes} {result : Except Error Unit}
    (ok : beginEditRequest os pid path data exec = .ok (result,next)) : Footprint pid pipes exec next := by
  unfold beginEditRequest editRequest send at ok
  rw [get_bind] at ok
  obtain ⟨_,middle,asked,ok⟩ := (Errorless.modify _).continues ok
  obtain ⟨_,rfl⟩ := Prod.mk.inj (Except.ok.inj asked)
  have print : Footprint pid pipes exec { exec with
      editIds := exec.editIds.next.2
      waitingEdits := exec.waitingEdits.insert exec.editIds.next.1 (pid,path) } := by
    refine ⟨.refl,⟨[],by rw [List.append_nil],fun _ => by simp⟩,?_⟩
    intro editId entry found
    rw [FiniteMap.lookup_insert_if] at found
    split at found
    · exact Or.inr (congrArg Prod.fst (Option.some.inj found)).symm
    · exact Or.inl found
  cases result with
  | error e =>
    rcases bind_raised.mp ok with raised | ⟨_,_,_,caused⟩
    · obtain ⟨_,rfl⟩ := Prod.mk.inj (Except.ok.inj raised)
      exact print
    · exact absurd caused (cause_errorless _).never
  | ok =>
    obtain ⟨_,_,sent,caused⟩ := bind_ok.mp ok
    obtain ⟨_,rfl⟩ := Prod.mk.inj (Except.ok.inj sent)
    obtain ⟨_,rfl⟩ := cause_ok caused
    exact print.causing fun _ => .sent _ nofun

private theorem spawning_ends {path : String} {args : List String} {result : Except Error RunResult}
    {start : ExecInternal} (before : Footprint pid pipes start exec) (same : exec.waitingEdits = start.waitingEdits)
    (ok : (do
      let stdin ← readEnd os pipes.stdin
      let stdout ← writeEnd os pipes.stdout
      let stderr ← writeEnd os pipes.stderr
      let handle ← .propagate (os.spawn pid)
      cause (.spawned pid handle path args stdin stdout stderr)
      pure (.process (.running handle)) : Exec RunResult) exec = .ok (result,next)) :
    RunEnds pid pipes start result next := by
  obtain ⟨stdin,one,first,ok⟩ := (readEnd_errorless os _).continues ok
  obtain ⟨stdout,two,second,ok⟩ := (writeEnd_errorless os _).continues ok
  obtain ⟨stderr,three,third,ok⟩ := (writeEnd_errorless os _).continues ok
  obtain ⟨same₁,ends₁,of₁,_⟩ := readEnd_ends first
  obtain ⟨same₂,ends₂,of₂⟩ := writeEnd_ends second
  obtain ⟨same₃,ends₃,of₃⟩ := writeEnd_ends third
  have handed : Footprint pid pipes exec three := (readEnd_footprint first).trans
    ((writeEnd_footprint (Or.inl rfl) second).trans (writeEnd_footprint (Or.inr rfl) third))
  have edits : three.waitingEdits = start.waitingEdits := by
    rw [same₃.waitingEdits,same₂.waitingEdits,same₁.waitingEdits,same]
  cases spawn : os.spawn pid with
  | error e =>
    rw [spawn] at ok
    obtain ⟨rfl,rfl⟩ := Prod.mk.inj (Except.ok.inj ok)
    exact .childless _ _ (before.trans handed) nofun
  | ok child =>
    rw [spawn] at ok
    obtain ⟨rfl,rfl⟩ := Prod.mk.inj (Except.ok.inj ok)
    refine .spawned three child path args stdin stdout stderr (before.trans handed) edits ?_
    intro named
    have named₁ := before.ends.named named
    have named₂ := ends₁.named named₁
    exact ⟨of₁ named₁,of₂ named₂,of₃ (ends₂.named named₂)⟩

theorem run_ends {c : RunCmd} {result : Except Error RunResult} (ok : run os pid c exec = .ok (result,next)) :
    RunEnds pid c.pipes exec result next := by
  obtain ⟨cmd,pipes⟩ := c
  obtain ⟨_,_,began,ok⟩ := (cause_errorless _).continues ok
  obtain ⟨_,rfl⟩ := cause_ok began
  have before : Footprint pid pipes exec { exec with effects := exec.effects ++ [.running pid cmd] } :=
    Footprint.refl.causing fun _ => .running pid cmd
  cases cmd with
  | unknown path args => exact spawning_ends before rfl ok
  | setDirectory dir =>
    cases set : os.setCurrentDir pid with
    | ok =>
      simp only [set] at ok
      obtain ⟨_,_,caused,ok⟩ := (cause_errorless _).continues ok
      obtain ⟨_,rfl⟩ := cause_ok caused
      exact closing_ends (before.causing fun _ => .directory dir) ok
    | error e =>
      simp only [set] at ok
      exact closing_ends before ok
  | getDirectory =>
    cases got : os.currentDir pid with
    | ok dir =>
      simp only [got] at ok
      exact closing_ends before ok
    | error e =>
      simp only [got] at ok
      exact closing_ends before ok
  | edit path =>
    have childless : ∃ last, Footprint pid pipes exec last ∧ next = last ∧
        ∀ child, result ≠ .ok (.process (.running child)) := by
      cases result with
      | error e =>
        rcases bind_raised.mp ok with raised | ⟨contents,middle,read,ok⟩
        · have same := readContents_same raised
          exact ⟨_,before,same,nofun⟩
        · obtain rfl := readContents_same read
          rcases bind_raised.mp ok with raised | ⟨_,_,_,last⟩
          · exact ⟨_,before.trans (beginEditRequest_footprint raised),rfl,nofun⟩
          · cases last
      | ok value =>
        obtain ⟨contents,middle,read,ok⟩ := bind_ok.mp ok
        obtain rfl := readContents_same read
        obtain ⟨_,_,asked,last⟩ := bind_ok.mp ok
        obtain ⟨same,rfl⟩ := Prod.mk.inj (Except.ok.inj last)
        refine ⟨_,before.trans (beginEditRequest_footprint asked),rfl,?_⟩
        rw [← same]
        nofun
    obtain ⟨last,print,rfl,none⟩ := childless
    exact .childless _ _ print none

end ExecInternal
end Nak
