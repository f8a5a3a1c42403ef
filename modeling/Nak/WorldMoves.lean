import Nak.World
import Nak.Turns

/-! What each move does, said once. -/
namespace Nak.World
open Library Action
variable {world after : World} {move : Move}

def outputOf (child : Process) : Stream → OutputPipe
  | .stdout => child.stdout
  | .stderr => child.stderr

inductive Moves (world : World) : Move → World → Prop
  | prompt (getCommand line frontend) (begins : Shell.Begins line world.frontend frontend) :
      Moves world (.prompt getCommand) { world with frontend, lines := world.lines ++ [line] }
  | receive (terminal response frontend) (found : world.output[world.received]? = some response)
      (receives : Shell.Receives response world.frontend frontend) :
      Moves world (.receive terminal) { world with frontend, received := world.received + 1 }
  | interrupt (order frontend) (unbegun : Shell.Unbegun world.frontend frontend)
      (same : frontend.handler = world.frontend.handler) : Moves world (.interrupt order) { world with frontend }
  | route (order request event) (found : world.frontend.sent[world.routed]? = some request)
      (routed : routeRequest order request.message = .ok event) :
      Moves world (.route order) { world with routed := world.routed + 1, events := world.events ++ [event] }
  | execute (os event events exec) (found : world.events = event :: events)
      (handled : ExecInternal.handle os event world.exec = .ok exec) :
      Moves world (.execute os) ({ world with events, exec }.begin (exec.effects.drop world.exec.effects.length))
  | write (child stream data) (alive : child ∈ world.children) (some : data ≠ []) :
      Moves world (.write child stream data) (world.put (outputOf child stream) data)
  | consume (child size pipe) (alive : child ∈ world.children) (reads : child.stdin.handle.id? = some pipe) :
      Moves world (.consume child size) (world.dropUnsent pipe size)
  | consumeFile (child size) : Moves world (.consume child size) world
  | exit (child exitCode) (alive : child ∈ world.children) : Moves world (.exit child exitCode) { world with
      children := world.children.erase child
      exited := world.exited ++ [(child.pid,exitCode)] }
  | report (exited) (waits : exited ∈ world.exited) : Moves world (.report exited) { world with
      exited := world.exited.erase exited
      events := world.events ++ [.completed exited.1 exited.2] }
  | pour (writer size) (listed : writer ∈ world.writers) (some : 0 < size) (enough : size ≤ writer.2.length) :
      Moves world (.pour writer size) { world.put writer.1 (writer.2.take size) with
        writers := (writer.1,writer.2.drop size) :: world.writers.erase writer }
  | close (writer) (listed : writer ∈ world.writers) :
      Moves world (.close writer) { world with writers := world.writers.erase writer }
  | forward (reader size pipe) (listed : reader ∈ world.readers) (reads : reader.2.handle.id? = some pipe)
      (some : 0 < size) (enough : size ≤ (world.unsent pipe).length) :
      Moves world (.forward reader size) { world.dropUnsent pipe size with
        events := world.events ++ [.pipeOutput reader.1 ((world.unsent pipe).take size) 0] }
  | eof (reader pipe) (listed : reader ∈ world.readers) (reads : reader.2.handle.id? = some pipe)
      (empty : world.unsent pipe = []) (closed : ¬world.WriteOpen pipe) :
      Moves world (.eof reader) { world with
        readers := world.readers.erase reader
        events := world.events ++ [.pipeClosed reader.1 0] }

theorem turn_ok {terminal : Terminal} {recv : Event} {getCommand : String → Outcome (Except Error Plan)}
    {order : List ProcessId} {result : Turn} (ok : world.turn terminal recv getCommand order = .ok (result,after)) :
    ∃ frontend, Shell.turn ⟨terminal,fun _ => .ok (),.ok recv,getCommand,order⟩ world.frontend =
      .ok (.ok result,frontend) ∧ after = { world with frontend } := by
  obtain ⟨⟨done,frontend⟩,turned,last⟩ := Outcome.bind_ok.mp ok
  cases done with
  | error e => cases last
  | ok turn =>
    obtain ⟨rfl,rfl⟩ := Prod.mk.inj (Except.ok.inj last)
    exact ⟨frontend,turned,rfl⟩

theorem turn_prompt {inputs : Inputs} (atPrompt : world.AtPrompt) :
    Shell.turn inputs world.frontend = Shell.readLine inputs world.frontend := by
  unfold Shell.turn
  rw [get_bind,if_neg (by simp [atPrompt.remote]),if_pos (by simp [atPrompt.processes,atPrompt.eofs])]

theorem not_atPrompt (waits : ¬world.AtPrompt) (ready : ¬world.frontend.handler.waitingForRemote.isSome) :
    ¬(world.frontend.handler.waitingFor.card = 0 ∧ world.frontend.handler.waitingForEof.card = 0) := by
  intro given
  obtain ⟨processes,eofs⟩ := given
  exact waits ⟨by simpa using ready,Finset.card_eq_zero.mp processes,Finset.card_eq_zero.mp eofs⟩

theorem turn_receive {inputs : Inputs} {response : Response} {frontend : Endpoint StackedRemotes} {result : Turn}
    (waits : ¬world.AtPrompt) (recv : inputs.recv = .ok (.remote response))
    (ok : Shell.turn inputs world.frontend = .ok (.ok result,frontend)) :
    Shell.receive inputs response world.frontend = .ok (.ok result,frontend) := by
  unfold Shell.turn at ok
  rw [get_bind,recv] at ok
  split at ok
  · exact ok
  · rename_i ready
    rw [if_neg (not_atPrompt waits ready)] at ok
    exact ok

theorem turn_interrupt {inputs : Inputs} {frontend : Endpoint StackedRemotes} {result : Turn}
    (waits : ¬world.AtPrompt) (recv : inputs.recv = .ok .ctrlC)
    (ok : Shell.turn inputs world.frontend = .ok (.ok result,frontend)) :
    Shell.cancelAll inputs.trans inputs.order world.frontend = .ok (.ok (),frontend) := by
  unfold Shell.turn at ok
  rw [get_bind,recv] at ok
  split at ok
  · cases ok
  · rename_i ready
    rw [if_neg (not_atPrompt waits ready)] at ok
    obtain ⟨_,_,propagated,rest⟩ := bind_ok.mp ok
    obtain ⟨event,rfl⟩ := Prod.mk.inj (Except.ok.inj propagated)
    obtain rfl := Except.ok.inj event
    obtain ⟨_,_,cancelled,last⟩ := bind_ok.mp rest
    obtain ⟨_,rfl⟩ := pure_ok.mp last
    exact cancelled

theorem next_moves (ok : world.next move = .ok after) : Moves world move after := by
  cases move with
  | prompt getCommand =>
    obtain ⟨_,at?,rest⟩ := Outcome.bind_ok.mp ok
    obtain ⟨⟨turn,_⟩,turned,last⟩ := Outcome.bind_ok.mp rest
    obtain ⟨frontend,taken,rfl⟩ := turn_ok turned
    rw [turn_prompt ((Outcome.assert_ok _ _).mp at?)] at taken
    cases turn with
    | begun line =>
      obtain rfl := Except.ok.inj last
      exact .prompt getCommand line frontend (Shell.readLine_begins taken)
    | handled => cases last
    | closed => cases last
  | receive terminal =>
    obtain ⟨_,waits,rest⟩ := Outcome.bind_ok.mp ok
    obtain ⟨response,found,rest⟩ := Outcome.bind_ok.mp rest
    obtain ⟨⟨turn,_⟩,turned,last⟩ := Outcome.bind_ok.mp rest
    obtain ⟨frontend,taken,rfl⟩ := turn_ok turned
    obtain rfl := Except.ok.inj last
    have received := turn_receive ((Outcome.assert_ok _ _).mp waits) rfl taken
    exact .receive terminal response frontend ((Outcome.unwrap_ok _ _).mp found) (Shell.receive_ok received)
  | interrupt order =>
    obtain ⟨_,waits,rest⟩ := Outcome.bind_ok.mp ok
    obtain ⟨⟨turn,_⟩,turned,last⟩ := Outcome.bind_ok.mp rest
    obtain ⟨frontend,taken,rfl⟩ := turn_ok turned
    obtain rfl := Except.ok.inj last
    obtain ⟨unbegun,same⟩ := Shell.cancelAll_ok (turn_interrupt ((Outcome.assert_ok _ _).mp waits).1 rfl taken)
    exact .interrupt order frontend unbegun same
  | route order =>
    obtain ⟨request,found,rest⟩ := Outcome.bind_ok.mp ok
    obtain ⟨_,_,rest⟩ := Outcome.bind_ok.mp rest
    obtain ⟨event,routed,last⟩ := Outcome.bind_ok.mp rest
    obtain rfl := Except.ok.inj last
    exact .route order request event ((Outcome.unwrap_ok _ _).mp found) routed
  | execute os =>
    unfold next at ok
    simp only at ok
    cases found : world.events with
    | nil =>
      rw [found] at ok
      cases ok
    | cons event events =>
      rw [found] at ok
      obtain ⟨exec,handled,last⟩ := Outcome.bind_ok.mp ok
      obtain rfl := Except.ok.inj last
      exact .execute os event events exec found handled
  | write child stream data =>
    obtain ⟨_,guard,last⟩ := Outcome.bind_ok.mp ok
    obtain ⟨alive,some⟩ := (Outcome.assert_ok _ _).mp guard
    have shape := Moves.write child stream data alive some
    cases stream with
    | stdout => exact Except.ok.inj last ▸ shape
    | stderr => exact Except.ok.inj last ▸ shape
  | consume child size =>
    obtain ⟨_,guard,last⟩ := Outcome.bind_ok.mp ok
    have alive := (Outcome.assert_ok _ _).mp guard
    cases reads : child.stdin.handle.id? with
    | some pipe =>
      rw [reads] at last
      exact Except.ok.inj last ▸ .consume child size pipe alive reads
    | none =>
      rw [reads] at last
      exact Except.ok.inj last ▸ .consumeFile child size
  | exit child exitCode =>
    obtain ⟨_,guard,last⟩ := Outcome.bind_ok.mp ok
    exact Except.ok.inj last ▸ .exit child exitCode ((Outcome.assert_ok _ _).mp guard)
  | report exited =>
    obtain ⟨_,guard,last⟩ := Outcome.bind_ok.mp ok
    exact Except.ok.inj last ▸ .report exited ((Outcome.assert_ok _ _).mp guard)
  | pour writer size =>
    obtain ⟨_,guard,last⟩ := Outcome.bind_ok.mp ok
    obtain ⟨listed,some,enough⟩ := (Outcome.assert_ok _ _).mp guard
    exact Except.ok.inj last ▸ .pour writer size listed some enough
  | close writer =>
    obtain ⟨_,guard,last⟩ := Outcome.bind_ok.mp ok
    exact Except.ok.inj last ▸ .close writer ((Outcome.assert_ok _ _).mp guard).1
  | forward reader size =>
    obtain ⟨pipe,reads,rest⟩ := Outcome.bind_ok.mp ok
    obtain ⟨_,guard,last⟩ := Outcome.bind_ok.mp rest
    obtain ⟨listed,some,_,enough⟩ := (Outcome.assert_ok _ _).mp guard
    exact Except.ok.inj last ▸ .forward reader size pipe listed ((Outcome.unwrap_ok _ _).mp reads) some enough
  | eof reader =>
    obtain ⟨pipe,reads,rest⟩ := Outcome.bind_ok.mp ok
    obtain ⟨_,guard,last⟩ := Outcome.bind_ok.mp rest
    obtain ⟨listed,empty,closed⟩ := (Outcome.assert_ok _ _).mp guard
    exact Except.ok.inj last ▸ .eof reader pipe listed ((Outcome.unwrap_ok _ _).mp reads) empty closed

end Nak.World
