import Nak.ExecHandled

/-! The write ends that have been handed out. Nothing puts one back into `open_handles`, and
a command that `process_tasks` reports itself, or that is left running as a child, has been
given both of its own. -/
namespace Nak.ExecInternal
open Library Action
variable {os : Os} {exec next : ExecInternal} {pid : ProcessId}

def KeepsTaken (exec next : ExecInternal) : Prop :=
  ∀ pipe, Taken exec.openHandles pipe → Taken next.openHandles pipe

theorem KeepsTaken.same (same : next.openHandles = exec.openHandles) : KeepsTaken exec next := by
  intro pipe taken
  rwa [same]

instance : IsPreorder ExecInternal KeepsTaken where
  refl _ _ := id
  trans _ _ _ first second pipe taken := second pipe (first pipe taken)

theorem Taken.insert {handles : Handles} {pipe other : GenericPipe} {pair : Pair} (taken : Taken handles other)
    (handed : other = pipe → pair.write = none) : Taken (handles.insert pipe pair) other := by
  obtain ⟨read,found⟩ := taken
  by_cases same : other = pipe
  · subst other
    obtain ⟨read',write⟩ := pair
    obtain rfl := handed rfl
    exact ⟨read',Finmap.lookup_insert _⟩
  · exact ⟨read,by rw [Finmap.lookup_insert_of_ne _ same,found]⟩

theorem Taken.present {handles : Handles} {pipe : GenericPipe} (taken : Taken handles pipe) : pipe ∈ handles := by
  obtain ⟨_,found⟩ := taken
  exact FiniteMap.mem_of_lookup found

section Keeping
variable (os)

theorem readEnd_taken (pipe : ReadPipe) : Keeps KeepsTaken (readEnd os pipe) where
  after := by
    intro exec value next ok
    cases value with
    | error e => exact absurd ok (readEnd_errorless os pipe).never
    | ok handle =>
      intro other taken
      rcases readEnd_cases ok with ⟨write,found,rfl⟩ | ⟨absent,_,rfl⟩
      · refine taken.insert ?_
        intro same
        subst other
        obtain ⟨read,lookup⟩ := taken
        rw [found] at lookup
        exact congrArg Pair.write (Option.some.inj lookup)
      · refine taken.insert ?_
        intro same
        subst other
        exact absurd taken.present absent

theorem writeEnd_taken (pipe : WritePipe) : Keeps KeepsTaken (writeEnd os pipe) where
  after := by
    intro exec value next ok
    cases value with
    | error e => exact absurd ok (writeEnd_errorless os pipe).never
    | ok handle =>
      intro other taken
      rcases writeEnd_cases ok with ⟨_,_,rfl⟩ | ⟨_,_,rfl⟩
      · exact taken.insert fun _ => rfl
      · exact taken.insert fun _ => rfl

theorem cause_taken (effect : Effect) : Keeps KeepsTaken (cause effect) := Keeps.modify _ fun _ => .same rfl

theorem taken_frame : Frame os KeepsTaken where
  readEnd := readEnd_taken os
  writeEnd := writeEnd_taken os
  cause effect _ := cause_taken effect
  awaiting _ _ _ := .same rfl

theorem send_taken (response : RemoteResponse) : Keeps KeepsTaken (send os response) :=
  Keeps.bind (Keeps.propagate _) fun _ => cause_taken _

theorem onMachine_taken (call : Machine ProcessId RunCmd ProcessState →
    Outcome (List (Task ProcessId RunCmd) × Machine ProcessId RunCmd ProcessState)) :
    Keeps KeepsTaken (onMachine call) := by
  unfold onMachine
  apply Keeps.bind Keeps.get
  intro exec
  apply Keeps.bind (Keeps.lift _)
  intro answer
  exact Keeps.bind (Keeps.modify _ fun _ => .same rfl) fun _ => Keeps.pure _

end Keeping

def HandsOut (exec : ExecInternal) (pipes : WritePipes) : Prop :=
  ∀ pipe, pipes.output pipe → Taken exec.openHandles pipe

theorem HandsOut.kept {pipes : WritePipes} (hands : HandsOut exec pipes) (kept : KeepsTaken exec next) :
    HandsOut next pipes :=
  fun pipe output => kept pipe (hands pipe output)

private theorem both_handsOut {pipes : WritePipes} (stdout : Taken next.openHandles pipes.stdout.toGeneric)
    (stderr : Taken next.openHandles pipes.stderr.toGeneric) : HandsOut next pipes := by
  intro pipe output
  rcases output with rfl | rfl
  · exact stdout
  · exact stderr

theorem pipeOutputAndClose_handsOut {pipes : WritePipes} {stdout stderr : Bytes} {value : Except Error Unit}
    (ok : pipeOutputAndClose os pipes stdout stderr exec = .ok (value,next)) : HandsOut next pipes := by
  obtain ⟨_,_,first,ok⟩ := (writeEnd_errorless os _).continues ok
  obtain ⟨_,_,closed,ok⟩ := (pipeAndClose_errorless _ _ _).continues ok
  obtain ⟨_,_,second,ok⟩ := (writeEnd_errorless os _).continues ok
  have stdout := (writeEnd_takes first).1
  have stderr := (writeEnd_takes second).1
  have ended := ((taken_frame os).pipeAndClose _ _ _).after ok
  refine both_handsOut ?_ (ended _ stderr)
  exact ended _ ((writeEnd_taken os _).after second _ (((taken_frame os).pipeAndClose _ _ _).after closed _ stdout))

theorem run_handsOut {c : RunCmd} {value : RunResult} (ok : run os pid c exec = .ok (.ok value,next)) :
    value = .process .awaitingEdit ∨ HandsOut next c.pipes := by
  obtain ⟨cmd,pipes⟩ := c
  obtain ⟨_,_,_,ok⟩ := (cause_errorless _).continues ok
  cases cmd with
  | unknown path args =>
    obtain ⟨stdin,_,_,ok⟩ := (readEnd_errorless os _).continues ok
    obtain ⟨stdout,_,first,ok⟩ := (writeEnd_errorless os _).continues ok
    obtain ⟨stderr,_,second,ok⟩ := (writeEnd_errorless os _).continues ok
    have left : Keeps KeepsTaken (do
        let handle ← .propagate (os.spawn pid)
        cause (.spawned pid handle path args stdin stdout stderr)
        pure (.process (.running handle)) : Exec RunResult) :=
      Keeps.bind (Keeps.propagate _) fun _ => Keeps.bind (cause_taken _) fun _ => Keeps.pure _
    have kept := left.after ok
    have taken := (writeEnd_taken os _).after second _ (writeEnd_takes first).1
    exact Or.inr (both_handsOut (kept _ taken) (kept _ (writeEnd_takes second).1))
  | setDirectory dir =>
    cases set : os.setCurrentDir pid with
    | ok =>
      simp only [set] at ok
      obtain ⟨_,_,_,ok⟩ := (cause_errorless _).continues ok
      obtain ⟨_,_,closed,last⟩ := bind_ok.mp ok
      obtain ⟨_,rfl⟩ := pure_ok.mp last
      exact Or.inr (pipeOutputAndClose_handsOut closed)
    | error e =>
      simp only [set] at ok
      obtain ⟨_,_,closed,last⟩ := bind_ok.mp ok
      obtain ⟨_,rfl⟩ := pure_ok.mp last
      exact Or.inr (pipeOutputAndClose_handsOut closed)
  | getDirectory =>
    cases got : os.currentDir pid with
    | ok dir =>
      simp only [got] at ok
      obtain ⟨_,_,closed,last⟩ := bind_ok.mp ok
      obtain ⟨_,rfl⟩ := pure_ok.mp last
      exact Or.inr (pipeOutputAndClose_handsOut closed)
    | error e =>
      simp only [got] at ok
      obtain ⟨_,_,closed,last⟩ := bind_ok.mp ok
      obtain ⟨_,rfl⟩ := pure_ok.mp last
      exact Or.inr (pipeOutputAndClose_handsOut closed)
  | edit path =>
    obtain ⟨_,_,_,ok⟩ := bind_ok.mp ok
    obtain ⟨_,_,_,last⟩ := bind_ok.mp ok
    obtain ⟨rfl,_⟩ := pure_ok.mp last
    exact Or.inl rfl

theorem processTask_taken (task : Task ProcessId RunCmd) : Keeps KeepsTaken (processTask os task) := by
  have reporting (pid : ProcessId) (code : Int) : Keeps KeepsTaken (commandResult os pid code) := send_taken os _
  cases task with
  | conditionFailed pid cmd => exact Keeps.bind (Keeps.unwrap (reporting pid 1)) fun _ => Keeps.pure _
  | start pid cmd =>
    apply Keeps.bind (Keeps.result ((taken_frame os).run pid cmd))
    intro result
    rcases result with e | state | exitCode
    · apply Keeps.bind (onMachine_taken _)
      intro tasks
      apply Keeps.bind ((taken_frame os).pipeOutputAndClose _ _ _)
      intro _
      exact Keeps.bind (reporting pid 1) fun _ => Keeps.pure _
    · exact onMachine_taken _
    · apply Keeps.bind (onMachine_taken _)
      intro tasks
      exact Keeps.bind (Keeps.unwrap (reporting pid 0)) fun _ => Keeps.pure _

theorem processTasks_taken {tasks : List (Task ProcessId RunCmd)}
    (ok : processTasks os tasks exec = .ok (.ok (),next)) : KeepsTaken exec next :=
  processTasks_queue (fun _ => KeepsTaken exec)
    (fun task _ _ _ _ kept ok => IsTrans.trans _ _ _ kept ((processTask_taken task).after ok)) (.same rfl) ok

private theorem opened_taken {pipe : GenericPipe} {pair : Pair} {number : Nat} (absent : pipe ∉ exec.openHandles) :
    KeepsTaken exec { exec with opened := number, openHandles := exec.openHandles.insert pipe pair } := by
  intro other taken
  refine taken.insert ?_
  intro same
  subst other
  exact absurd taken.present absent

theorem handle_taken {event : ExecEvent} (ok : handle os event exec = .ok next) : KeepsTaken exec next := by
  have done := handle_ok.mp ok
  cases event with
  | enqueue pid cmd blockFor =>
    obtain ⟨tasks,middle,called,processed⟩ := bind_ok.mp done
    exact IsTrans.trans _ _ _ ((onMachine_taken _).after called) (processTasks_taken processed)
  | completed pid exitCode =>
    obtain ⟨_,_,_,processed⟩ := completed_cases done
    exact fun pipe taken => processTasks_taken processed pipe taken
  | editComplete editId data =>
    obtain ⟨_,_,_,done⟩ := finishEdit_cases done
    obtain ⟨_,_,_,processed⟩ := completed_cases done
    exact fun pipe taken => processTasks_taken processed pipe taken
  | openOutputFile pipe path =>
    obtain ⟨absent,rfl⟩ := openOutputFile_ok done
    exact opened_taken absent
  | openInputFile pipe path =>
    obtain ⟨absent,rfl⟩ := openInputFile_ok done
    exact opened_taken absent
  | cancelExec pid =>
    obtain ⟨more,rfl,_⟩ := cancel_ok done
    exact .same rfl
  | pipeClosed pipe endOffset => exact (send_taken os _).after done
  | pipeOutput pipe data endOffset => exact (send_taken os _).after done
  | pipeMessage pipe msg =>
    cases msg with
    | beginRead =>
      have reading : Keeps KeepsTaken (pipeMessage os pipe .beginRead) :=
        Keeps.bind (readEnd_taken os _) fun _ => Keeps.bind (cause_taken _) fun _ => Keeps.modify _ fun _ => .same rfl
      exact reading.after done
    | read limit =>
      obtain ⟨_,rfl⟩ := pure_ok.mp done
      exact .same rfl
    | closed => cases done
    | data => cases done

end Nak.ExecInternal
