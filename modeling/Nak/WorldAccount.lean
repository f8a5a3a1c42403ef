import Nak.EventLoop
import Nak.WorldTraces

/-! Who is still at work. A running command has one child, one exit to report or one report
in the queue, and the directory at the end of a line is written when all jobs of the line
have finished. -/
namespace Nak
open Library

theorem process_pid (effect : Effect) (pid : ProcessId) :
    (effect.process?.map fun child => decide (child.pid = pid)).getD false = ExecInternal.childOf pid effect := by
  cases effect <;> rfl

namespace World
variable {world after : World} {move : Move} {info : RemoteInfo} {pid : ProcessId}

/-- The child, its exit and the report of it, as far as they are still there. -/
def outstanding (world : World) (pid : ProcessId) : Nat :=
  world.children.countP (·.pid = pid) + world.exited.countP (·.1 = pid) + world.events.countP (·.reports pid)

theorem outstanding_push {event : ExecEvent} (children : after.children = world.children)
    (exited : after.exited = world.exited) (events : after.events = world.events ++ [event])
    (other : event.reports pid = false) : after.outstanding pid = world.outstanding pid := by
  rw [outstanding,outstanding,children,exited,events,List.countP_append]
  simp [other]

theorem outstanding_exit {child : Process} {exitCode : Int} (alive : child ∈ world.children)
    (children : after.children = world.children.erase child)
    (exited : after.exited = world.exited ++ [(child.pid,exitCode)]) (events : after.events = world.events) :
    after.outstanding pid = world.outstanding pid := by
  have split := (List.perm_cons_erase alive).countP_eq (·.pid = pid)
  rw [outstanding,outstanding,children,exited,events,split,List.countP_append,List.countP_cons,List.countP_cons,
    List.countP_nil]
  dsimp only
  omega

theorem outstanding_report {exited : ProcessId × Int} (waits : exited ∈ world.exited)
    (children : after.children = world.children) (left : after.exited = world.exited.erase exited)
    (events : after.events = world.events ++ [.completed exited.1 exited.2]) :
    after.outstanding pid = world.outstanding pid := by
  have split := (List.perm_cons_erase waits).countP_eq (·.1 = pid)
  rw [outstanding,outstanding,children,left,events,split,List.countP_append,List.countP_cons,List.countP_cons,
    List.countP_nil,ExecEvent.reports]
  omega

/-- An event uses its own report up, and its children are added. -/
theorem outstanding_executed {event : ExecEvent} {events : List ExecEvent} {exec : ExecInternal} {more : List Effect}
    (found : world.events = event :: events) :
    ({ world with events, exec }.begin more).outstanding pid + (if event.reports pid then 1 else 0) =
      world.outstanding pid + ExecInternal.spawned pid more := by
  have children : (more.filterMap Effect.process?).countP (·.pid = pid) = ExecInternal.spawned pid more := by
    rw [List.countP_filterMap,ExecInternal.spawned]
    congr 1
    ext1 effect
    exact process_pid effect pid
  simp only [outstanding,begin,found,List.countP_append,List.countP_cons,children]
  omega

structure Accounted (world : World) : Prop where
  gated : ∀ line ∈ world.lines, ∀ job ∈ line.jobs, world.exec.machine.Gated job.id line.directory.id
  taken : ∀ line ∈ world.lines, ExecInternal.Taken world.exec.openHandles line.cwd →
    ∀ job ∈ line.jobs, job.id ∈ world.exec.machine.finished
  outstanding : ∀ pid, world.outstanding pid = ExecInternal.active world.exec.machine pid
  edited : ExecInternal.Edited world.exec

theorem routed_reports {order : OrderedMap ProcessId Condition} {message : RemoteRequest} {event : ExecEvent}
    (routed : routeRequest order message = .ok event) (pid : ProcessId) : event.reports pid = false := by
  cases message with
  | beginCommand blockFor process command =>
    obtain ⟨_,_,last⟩ := Outcome.bind_ok.mp routed
    obtain rfl := Except.ok.inj last
    rfl
  | beginRemote | endRemote | listDirectory => cases routed
  | _ =>
    obtain rfl := Except.ok.inj routed
    rfl

namespace Accounted

theorem start : Accounted (new info) where
  gated := by simp [new]
  taken := by simp [new]
  outstanding pid := rfl
  edited := by
    intro editId entry found
    cases found

private theorem kept (accounted : Accounted world) (lines : after.lines = world.lines) (exec : after.exec = world.exec)
    (same : ∀ pid, after.outstanding pid = world.outstanding pid) : Accounted after where
  gated := by
    rw [lines,exec]
    exact accounted.gated
  taken := by
    rw [lines,exec]
    exact accounted.taken
  outstanding pid := by rw [same,exec,accounted.outstanding]
  edited := exec ▸ accounted.edited

private theorem begins (accounted : Accounted world) (traced : Traced world) {line : Line}
    {frontend : Endpoint StackedRemotes} (begins : Shell.Begins line world.frontend frontend) :
    Accounted { world with frontend, lines := world.lines ++ [line] } where
  gated := by
    intro other member job listed
    rcases List.mem_append.mp member with old | new
    · exact accounted.gated other old job listed
    · obtain rfl := List.mem_singleton.mp new
      apply Machine.Gated.of_unknown
      intro known
      have drawn := begins.sound.ids other.directory Line.directory_mem
      exact absurd (traced.known _ known) (not_lt.mpr drawn.1)
  taken := by
    intro other member taken job listed
    rcases List.mem_append.mp member with old | new
    · exact accounted.taken other old taken job listed
    · obtain rfl := List.mem_singleton.mp new
      obtain ⟨read,found⟩ := taken
      have drawn := begins.sound.draws Line.draws_cwd
      exact absurd (traced.handles _ (FiniteMap.mem_of_lookup found)) (not_lt.mpr drawn.1)
  outstanding := accounted.outstanding
  edited := accounted.edited

private theorem executed (accounted : Accounted world) (traced : Traced world) {event : ExecEvent}
    {events : List ExecEvent} {exec : ExecInternal} (found : world.events = event :: events)
    (handled : ExecInternal.Handled world.exec event exec) :
    Accounted ({ world with events, exec }.begin (exec.effects.drop world.exec.effects.length)) := by
  have drawn := traced.head found
  have gated : ∀ line ∈ world.lines, ∀ job ∈ line.jobs, exec.machine.Gated job.id line.directory.id := by
    intro line listed job member
    refine handled.gated _ _ (accounted.gated line listed job member) ?_
    intro cmd blockFor same
    obtain rfl := same
    generalize same : line.directory.id = waiter at drawn
    cases drawn with
    | enqueue other job' _ listed' member' blocks =>
      obtain ⟨rfl,rfl⟩ := traced.laid.directory listed listed' member' same.symm
      exact blocks rfl job member
  constructor
  · exact gated
  · intro line listed taken job member
    rcases handled.taken line.cwd taken with old | ⟨input,path,rfl⟩ | ⟨pid,cmd,requested,output,ready⟩
    · exact handled.finished _ (accounted.taken line listed old job member)
    · cases drawn
    · have writer := traced.laid.cwd_writer listed (traced.requested drawn requested) output
      exact (gated line listed job member).ready (writer ▸ ready)
  · intro pid
    refine handled.balance traced.inv accounted.edited (accounted.outstanding pid) ?_ (outstanding_executed found)
    rw [World.outstanding,found,List.countP_cons]
    omega
  · exact handled.edited accounted.edited

theorem moves (accounted : Accounted world) (traced : Traced world) (moves : Moves world move after) :
    Accounted after := by
  cases moves with
  | prompt getCommand line frontend begins => exact accounted.begins traced begins
  | receive terminal response frontend found receives => exact { accounted with }
  | interrupt order frontend unbegun same => exact { accounted with }
  | route order request event found routed =>
    exact accounted.kept rfl rfl fun pid => outstanding_push rfl rfl rfl (routed_reports routed pid)
  | execute os event events exec found handled =>
    exact accounted.executed traced found (ExecInternal.handle_handled traced.inv traced.named handled)
  | write child stream data alive some =>
    obtain ⟨written,unsent,shape⟩ := world.put_shape (outputOf child stream) data
    rw [shape]
    exact { accounted with }
  | consume child size pipe alive reads => exact { accounted with }
  | consumeFile child size => exact accounted
  | exit child exitCode alive =>
    exact accounted.kept rfl rfl fun pid => outstanding_exit alive rfl rfl rfl
  | report exited waits =>
    exact accounted.kept rfl rfl fun pid => outstanding_report waits rfl rfl rfl
  | pour writer size listed some enough =>
    obtain ⟨written,unsent,shape⟩ := world.put_shape writer.1 (writer.2.take size)
    rw [shape]
    exact { accounted with }
  | close writer listed => exact { accounted with }
  | forward reader size pipe listed reads some enough =>
    exact accounted.kept rfl rfl fun pid => outstanding_push rfl rfl rfl rfl
  | eof reader pipe listed reads empty closed =>
    exact accounted.kept rfl rfl fun pid => outstanding_push rfl rfl rfl rfl

theorem childless (accounted : Accounted world) (traced : Traced world) {child : Process}
    (finished : child.pid ∈ world.exec.machine.finished) : child ∉ world.children := by
  intro alive
  have none := accounted.outstanding child.pid
  rw [ExecInternal.active_finished traced.inv finished] at none
  have some : 0 < world.children.countP (·.pid = child.pid) :=
    List.countP_pos_iff.mpr ⟨child,alive,decide_eq_true rfl⟩
  unfold World.outstanding at none
  omega

end Accounted
end World
end Nak
