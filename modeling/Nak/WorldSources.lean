import Nak.ExecHandled
import Nak.WorldMoves

/-! Where everything in the system comes from. Every id was drawn for one line, so that a
process, a descriptor or a message leads back to the line it belongs to. -/
namespace Nak
open Library

def Line.Draws (line : Line) (id : Nat) : Prop :=
  (∃ job ∈ line.all, job.id.val = id) ∨
  (∃ job ∈ line.all, ∃ pipe, (job.pipes.input pipe ∨ job.pipes.output pipe) ∧ pipe.val = id) ∨
  ∃ entry ∈ line.sinks, entry.1.val = id

namespace Line
variable {line : Line} {job : Job} {pipe : GenericPipe} {lo hi id : Nat}

theorem directory_mem : line.directory ∈ line.all := List.mem_append_right _ (List.mem_singleton.mpr rfl)

theorem draws_job (member : job ∈ line.all) : line.Draws job.id.val := Or.inl ⟨job,member,rfl⟩

theorem draws_pipe (member : job ∈ line.all) (used : job.pipes.input pipe ∨ job.pipes.output pipe) :
    line.Draws pipe.val := Or.inr (Or.inl ⟨job,member,pipe,used,rfl⟩)

theorem draws_sink {entry : GenericPipe × Sink} (member : entry ∈ line.sinks) : line.Draws entry.1.val :=
  Or.inr (Or.inr ⟨entry,member,rfl⟩)

theorem draws_cwd : line.Draws line.cwd.val := draws_pipe directory_mem (Or.inr (Or.inl rfl))

theorem Sound.draws (sound : line.Sound lo hi) (draws : line.Draws id) : Within lo hi id := by
  rcases draws with ⟨job,member,rfl⟩ | ⟨job,member,pipe,used,rfl⟩ | ⟨entry,member,rfl⟩
  · exact sound.ids job member
  · exact sound.pipes job member pipe used
  · exact sound.sinks entry member

theorem Reads.draws (reads : line.Reads pipe) : line.Draws pipe.val := by
  rcases reads with output | ⟨sink,member⟩
  · exact draws_pipe directory_mem (Or.inr output)
  · exact draws_sink member

end Line

/-- Every line has ids of its own below the bound. -/
structure Laid (lines : List Line) (hi : Nat) : Prop where
  sound : ∀ line ∈ lines, ∃ lo hi', hi' ≤ hi ∧ line.Sound lo hi'
  apart : ∀ line ∈ lines, ∀ other ∈ lines, ∀ id, line.Draws id → other.Draws id → line = other

def Begun (lines : List Line) (pid : ProcessId) (cmd : RunCmd) : Prop :=
  ∃ line ∈ lines, ∃ job ∈ line.all, job.id = pid ∧ cmd = ⟨job.command,job.pipes⟩

theorem Begun.more {lines more : List Line} {pid : ProcessId} {cmd : RunCmd} (begun : Begun lines pid cmd) :
    Begun (lines ++ more) pid cmd := by
  obtain ⟨line,listed,begun⟩ := begun
  exact ⟨line,List.mem_append_left _ listed,begun⟩

namespace Laid
variable {lines : List Line} {line other : Line} {entry : GenericPipe × Sink} {job : Job}
variable {lo hi id : Nat} {pid : ProcessId} {cmd : RunCmd} {pipe : GenericPipe}

theorem nil : Laid [] hi := ⟨by simp,by simp⟩

theorem below (laid : Laid lines hi) (listed : line ∈ lines) (draws : line.Draws id) : id < hi := by
  obtain ⟨_,_,bound,sound⟩ := laid.sound line listed
  exact (sound.draws draws).2.trans_le bound

theorem snoc (laid : Laid lines lo) (sound : line.Sound lo hi) : Laid (lines ++ [line]) hi where
  sound := by
    intro other member
    rcases List.mem_append.mp member with old | new
    · obtain ⟨lo',hi',bound,sound'⟩ := laid.sound other old
      have first := sound.ids line.directory Line.directory_mem
      exact ⟨lo',hi',bound.trans (first.1.trans first.2.le),sound'⟩
    · exact ⟨lo,hi,le_rfl,List.mem_singleton.mp new ▸ sound⟩
  apart := by
    have fresh (other : Line) (listed : other ∈ lines) (id : Nat) (draws : other.Draws id) : ¬line.Draws id := by
      intro again
      exact absurd (laid.below listed draws) (not_lt.mpr (sound.draws again).1)
    intro one member two member' id draws draws'
    rcases List.mem_append.mp member with old | new
    · rcases List.mem_append.mp member' with old' | new'
      · exact laid.apart one old two old' id draws draws'
      · exact absurd (List.mem_singleton.mp new' ▸ draws') (fresh one old id draws)
    · rcases List.mem_append.mp member' with old' | new'
      · exact absurd (List.mem_singleton.mp new ▸ draws) (fresh two old' id draws')
      · exact (List.mem_singleton.mp new).trans (List.mem_singleton.mp new').symm

theorem begun_below (laid : Laid lines hi) (begun : Begun lines pid cmd) : pid.val < hi := by
  obtain ⟨line,listed,job,member,rfl,_⟩ := begun
  exact laid.below listed (Line.draws_job member)

theorem used_below (laid : Laid lines hi) (begun : Begun lines pid cmd)
    (used : cmd.pipes.input pipe ∨ cmd.pipes.output pipe) : pipe.val < hi := by
  obtain ⟨line,listed,job,member,_,rfl⟩ := begun
  exact laid.below listed (Line.draws_pipe member used)

/-- Only jobs of its own line write to the pipe of a sink. -/
theorem sink_writer (laid : Laid lines hi) (listed : line ∈ lines) (sink : entry ∈ line.sinks)
    (begun : Begun lines pid cmd) (output : cmd.pipes.output entry.1) : ∃ job ∈ line.jobs, job.id = pid := by
  obtain ⟨other,listed',job,member,same,rfl⟩ := begun
  obtain rfl := laid.apart line listed other listed' _ (Line.draws_sink sink) (Line.draws_pipe member (Or.inr output))
  obtain ⟨_,_,_,sound⟩ := laid.sound line listed
  rcases List.mem_append.mp member with old | last
  · exact ⟨job,old,same⟩
  · rw [List.mem_singleton.mp last] at output
    exact absurd output (sound.apart entry sink)

theorem sink_reader (laid : Laid lines hi) (listed : line ∈ lines) (sink : entry ∈ line.sinks)
    (begun : Begun lines pid cmd) : ¬cmd.pipes.input entry.1 := by
  obtain ⟨other,listed',job,member,_,rfl⟩ := begun
  intro input
  obtain rfl := laid.apart line listed other listed' _ (Line.draws_sink sink) (Line.draws_pipe member (Or.inl input))
  obtain ⟨_,_,_,sound⟩ := laid.sound line listed
  exact sound.unread entry sink job member input

theorem sink_cwd (laid : Laid lines hi) (listed : line ∈ lines) (sink : entry ∈ line.sinks)
    (listed' : other ∈ lines) : entry.1 ≠ other.cwd := by
  intro same
  have draws := Line.draws_sink sink
  rw [same] at draws
  obtain rfl := laid.apart line listed other listed' _ draws Line.draws_cwd
  obtain ⟨_,_,_,sound⟩ := laid.sound line listed
  exact sound.apart entry sink (Or.inl same)

theorem directory (laid : Laid lines hi) (listed : line ∈ lines) (listed' : other ∈ lines) (member : job ∈ other.all)
    (same : job.id = line.directory.id) : other = line ∧ job = line.directory := by
  have draws := Line.draws_job member
  rw [same] at draws
  obtain rfl := laid.apart other listed' line listed _ draws (Line.draws_job Line.directory_mem)
  obtain ⟨_,_,_,sound⟩ := laid.sound other listed
  rcases List.mem_append.mp member with old | last
  · have before := sound.last job old
    rw [same] at before
    exact absurd before (lt_irrefl _)
  · exact ⟨rfl,List.mem_singleton.mp last⟩

/-- Only the directory at its end writes the answer of a line. -/
theorem cwd_writer (laid : Laid lines hi) (listed : line ∈ lines) (begun : Begun lines pid cmd)
    (output : cmd.pipes.output line.cwd) : pid = line.directory.id := by
  obtain ⟨other,listed',job,member,rfl,rfl⟩ := begun
  obtain rfl := laid.apart line listed other listed' _ Line.draws_cwd (Line.draws_pipe member (Or.inr output))
  obtain ⟨_,_,_,sound⟩ := laid.sound line listed
  rcases List.mem_append.mp member with old | last
  · exact absurd output (sound.cwd job old)
  · rw [List.mem_singleton.mp last]

end Laid

/-- An event of the lines; none opens a file for reading. -/
inductive Drawn (lines : List Line) (hi : Nat) : ExecEvent → Prop
  | enqueue (line job blockFor) (listed : line ∈ lines) (member : job ∈ line.all)
      (blocks : job = line.directory → ∀ other ∈ line.jobs, other.id ∈ blockFor) :
      Drawn lines hi (.enqueue job.id ⟨job.command,job.pipes⟩ blockFor)
  | completed (pid exitCode) : Drawn lines hi (.completed pid exitCode)
  | openOutputFile (pipe path) (below : pipe.val < hi) : Drawn lines hi (.openOutputFile pipe path)
  | cancelExec (pid) : Drawn lines hi (.cancelExec pid)
  | pipeMessage (pipe msg) (below : pipe.val < hi) : Drawn lines hi (.pipeMessage pipe msg)
  | pipeOutput (pipe data endOffset) (below : pipe.val < hi) : Drawn lines hi (.pipeOutput pipe data endOffset)
  | pipeClosed (pipe endOffset) (below : pipe.val < hi) : Drawn lines hi (.pipeClosed pipe endOffset)
  | editComplete (editId data) : Drawn lines hi (.editComplete editId data)

/-- A request of the lines, or one of a turn that begins nothing. -/
def Posed (lines : List Line) (hi : Nat) (request : Request) : Prop :=
  Shell.Idle request ∨ ∃ line ∈ lines, ∃ lo hi', hi' ≤ hi ∧ line.Sends lo hi' request.message

section Growth
variable {lines more : List Line} {lo hi : Nat} {event : ExecEvent}

theorem Drawn.mono (drawn : Drawn lines lo event) (later : lo ≤ hi) : Drawn (lines ++ more) hi event := by
  cases drawn with
  | enqueue line job blockFor listed member blocks =>
    exact .enqueue line job blockFor (List.mem_append_left _ listed) member blocks
  | completed pid exitCode => exact .completed pid exitCode
  | openOutputFile pipe path below => exact .openOutputFile pipe path (below.trans_le later)
  | cancelExec pid => exact .cancelExec pid
  | pipeMessage pipe msg below => exact .pipeMessage pipe msg (below.trans_le later)
  | pipeOutput pipe data endOffset below => exact .pipeOutput pipe data endOffset (below.trans_le later)
  | pipeClosed pipe endOffset below => exact .pipeClosed pipe endOffset (below.trans_le later)
  | editComplete editId data => exact .editComplete editId data

theorem Posed.mono {request : Request} (posed : Posed lines lo request) (later : lo ≤ hi) :
    Posed (lines ++ more) hi request := by
  rcases posed with idle | ⟨line,listed,lo',hi',bound,sends⟩
  · exact Or.inl idle
  · exact Or.inr ⟨line,List.mem_append_left _ listed,lo',hi',bound.trans later,sends⟩

theorem Drawn.envelope_below (drawn : Drawn lines hi event) {envelope : PipeEnvelope}
    (asked : event.envelope? = some envelope) : envelope.id < hi := by
  cases drawn with
  | pipeOutput pipe data endOffset below =>
    obtain rfl := Option.some.inj asked
    exact below
  | pipeClosed pipe endOffset below =>
    obtain rfl := Option.some.inj asked
    exact below
  | _ => cases asked

theorem Drawn.about_below (drawn : Drawn lines hi event) {pipe : GenericPipe}
    (about : ExecInternal.About event pipe) : pipe.val < hi := by
  cases drawn with
  | openOutputFile other path below => exact congrArg GenericPipe.val about ▸ below
  | pipeMessage other msg below => exact congrArg GenericPipe.val about ▸ below
  | _ => exact about.elim

theorem World.routed_drawn {request : Request} {order : OrderedMap ProcessId Condition} (laid : Laid lines hi)
    (posed : Posed lines hi request) (routed : routeRequest order request.message = .ok event) :
    Drawn lines hi event ∧ event.envelope? = none := by
  rcases posed with idle | ⟨line,listed,lo,hi',bound,sends⟩
  · rcases idle with ⟨id,same⟩ | ⟨editId,data,same⟩
    · rw [same] at routed
      obtain rfl := Except.ok.inj routed
      exact ⟨.cancelExec id,rfl⟩
    · rw [same] at routed
      obtain rfl := Except.ok.inj routed
      exact ⟨.editComplete editId data,rfl⟩
  · generalize request.message = message at sends routed
    cases sends with
    | job blockFor job member blocks =>
      obtain ⟨_,perm,last⟩ := Outcome.bind_ok.mp routed
      obtain rfl := Except.ok.inj last
      refine ⟨.enqueue line job order listed member ?_,rfl⟩
      intro same other member
      have keys := ((Outcome.assert_ok _ _).mp perm).map Sigma.fst
      exact keys.mem_iff.mpr (blocks same other member)
    | file id path within =>
      obtain rfl := Except.ok.inj routed
      exact ⟨.openOutputFile ⟨id⟩ path (within.2.trans_le bound),rfl⟩
    | remote id => cases routed
    | pipe id msg reads =>
      obtain rfl := Except.ok.inj routed
      exact ⟨.pipeMessage ⟨id⟩ msg (laid.below listed (Line.Reads.draws reads)),rfl⟩

end Growth
end Nak
