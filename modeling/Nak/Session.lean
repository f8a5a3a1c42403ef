import Nak.Turns
import Nak.Library.Transition

/-! Sessions of the loop of the shell with any backend. A session keeps the responses it has
handled, and a backend conforms when it answers only what was begun: each process is reported
once, and a read that is begun carries data until it is closed once. -/
namespace Nak
open Library Action

def RemoteRequest.begins? : RemoteRequest → Option ProcessId
  | .beginCommand _ process _ => some process.id
  | _ => none

def RemoteRequest.reads? : RemoteRequest → Option GenericPipe
  | .pipe ⟨id,.beginRead⟩ => some ⟨id⟩
  | _ => none

def RemoteResponse.reports? : RemoteResponse → Option ProcessId
  | .commandDone id _ => some id
  | _ => none

def RemoteResponse.closes? : RemoteResponse → Option GenericPipe
  | .pipe ⟨id,.closed _⟩ => some ⟨id⟩
  | _ => none

def begunCommands (sent : List Request) : List ProcessId := sent.filterMap fun request => request.message.begins?

def begunReads (sent : List Request) : List GenericPipe := sent.filterMap fun request => request.message.reads?

def reportedCommands (received : List RemoteResponse) : List ProcessId := received.filterMap RemoteResponse.reports?

def closedReads (received : List RemoteResponse) : List GenericPipe := received.filterMap RemoteResponse.closes?

def dataOf (pipe : GenericPipe) (received : List RemoteResponse) : Bytes :=
  carried pipe (received.filterMap RemoteResponse.envelope?)

structure Session where
  endpoint : Endpoint StackedRemotes
  received : List RemoteResponse

namespace Session

def new : Session := ⟨Endpoint.new StackedRemotes.new,[]⟩

/-- The next turn takes an event: it reads no command. -/
def Awaits (session : Session) : Prop :=
  session.endpoint.handler.waitingForRemote.isSome ∨
    ¬(session.endpoint.handler.waitingFor.card = 0 ∧ session.endpoint.handler.waitingForEof.card = 0)

instance (session : Session) : Decidable session.Awaits := inferInstanceAs (Decidable (_ ∨ _))

def takes (session : Session) (inputs : Inputs) : List RemoteResponse :=
  match inputs.recv with
  | .ok (.remote msg) => if session.Awaits then [msg.message] else []
  | _ => []

def Ordered (session : Session) (inputs : Inputs) : Prop :=
  inputs.order.Nodup ∧ inputs.order.toFinset = session.endpoint.handler.waitingFor

instance (session : Session) (inputs : Inputs) : Decidable (session.Ordered inputs) :=
  inferInstanceAs (Decidable (_ ∧ _))

/-- A turn after which the loop goes on. -/
def next (session : Session) (inputs : Inputs) : Outcome Session := do
  Outcome.assert (session.Ordered inputs)
  let (result,endpoint) ← Shell.oneLoop inputs session.endpoint
  match result with
  | .ok true => pure ⟨endpoint,session.received ++ session.takes inputs⟩
  | _ => .error .explicit

def system : System Session Inputs := .ofPartial new next

/-- The process was begun and is not reported yet. -/
def Outstanding (session : Session) (pid : ProcessId) : Prop :=
  pid ∈ begunCommands session.endpoint.sent ∧ pid ∉ reportedCommands session.received

instance (session : Session) (pid : ProcessId) : Decidable (session.Outstanding pid) :=
  inferInstanceAs (Decidable (_ ∧ _))

def Reading (session : Session) (pipe : GenericPipe) : Prop :=
  pipe ∈ begunReads session.endpoint.sent ∧ pipe ∉ closedReads session.received

instance (session : Session) (pipe : GenericPipe) : Decidable (session.Reading pipe) :=
  inferInstanceAs (Decidable (_ ∧ _))

/-- What a backend sends: one `RemoteReady` for the root, and answers to what was begun. -/
def Answers (session : Session) (msg : Response) : Prop :=
  match msg.message with
  | .remoteReady _ => msg.remoteId = Endpoint.root.val ∧ session.received = []
  | .commandDone id _ => session.Outstanding id
  | .directoryListing .. => False
  | .editRequest commandId .. => session.Outstanding commandId
  | .pipe ⟨id,.data ..⟩ => session.Reading ⟨id⟩
  | .pipe ⟨id,.closed _⟩ => session.Reading ⟨id⟩
  | .pipe ⟨_,.beginRead⟩ => False
  | .pipe ⟨_,.read _⟩ => False

instance (session : Session) (msg : Response) : Decidable (session.Answers msg) := by
  obtain ⟨remoteId,message⟩ := msg
  match message with
  | .remoteReady _ => exact inferInstanceAs (Decidable (_ ∧ _))
  | .commandDone id _ => exact inferInstanceAs (Decidable (session.Outstanding id))
  | .directoryListing .. => exact inferInstanceAs (Decidable False)
  | .editRequest commandId .. => exact inferInstanceAs (Decidable (session.Outstanding commandId))
  | .pipe ⟨id,.data ..⟩ => exact inferInstanceAs (Decidable (session.Reading ⟨id⟩))
  | .pipe ⟨id,.closed _⟩ => exact inferInstanceAs (Decidable (session.Reading ⟨id⟩))
  | .pipe ⟨_,.beginRead⟩ => exact inferInstanceAs (Decidable False)
  | .pipe ⟨_,.read _⟩ => exact inferInstanceAs (Decidable False)

/-- The backend conforms: any response the turn takes is an answer. -/
def Conforms (session : Session) (inputs : Inputs) : Prop :=
  match inputs.recv with
  | .ok (.remote msg) => session.Awaits → session.Answers msg
  | _ => True

instance (session : Session) (inputs : Inputs) : Decidable (session.Conforms inputs) := by
  unfold Conforms
  split <;> infer_instance

inductive Turns (session : Session) (inputs : Inputs) : Session → Prop
  | prompt (line : Line) (endpoint) (idle : ¬session.Awaits)
      (read : Shell.readLine inputs session.endpoint = .ok (.ok (.begun line),endpoint)) :
      Turns session inputs ⟨endpoint,session.received⟩
  | message (msg : Response) (endpoint) (awaits : session.Awaits) (given : inputs.recv = .ok (.remote msg))
      (handled : Endpoint.receive (StackedRemotes.handler inputs.terminal inputs.trans) msg session.endpoint =
        .ok (.ok (),endpoint)) :
      Turns session inputs ⟨endpoint,session.received ++ [msg.message]⟩
  | interrupt (endpoint) (awaits : session.Awaits) (given : inputs.recv = .ok .ctrlC)
      (cancelled : Shell.cancelAll inputs.trans inputs.order session.endpoint = .ok (.ok (),endpoint)) :
      Turns session inputs ⟨endpoint,session.received⟩

variable {session after : Session} {inputs : Inputs}

theorem takes_idle (idle : ¬session.Awaits) : session.takes inputs = [] := by
  unfold takes
  split
  · exact if_neg idle
  · rfl

theorem takes_message {msg : Response} (awaits : session.Awaits) (given : inputs.recv = .ok (.remote msg)) :
    session.takes inputs = [msg.message] := by
  rw [takes,given]
  exact if_pos awaits

theorem takes_interrupt (given : inputs.recv = .ok .ctrlC) : session.takes inputs = [] := by
  rw [takes,given]

private theorem message_turns {msg : Response} {turn : Turn} {last : Endpoint StackedRemotes} (awaits : session.Awaits)
    (given : inputs.recv = .ok (.remote msg))
    (handled : Shell.receive inputs msg session.endpoint = .ok (.ok turn,last)) :
    session.Turns inputs ⟨last,session.received ++ session.takes inputs⟩ := by
  obtain ⟨_,_,received,rest⟩ := bind_ok.mp handled
  obtain ⟨_,rfl⟩ := pure_ok.mp rest
  rw [takes_message awaits given]
  exact .message msg _ awaits given received

theorem turn_ok {turn : Turn} {last : Endpoint StackedRemotes} (going : turn ≠ .closed)
    (ok : Shell.turn inputs session.endpoint = .ok (.ok turn,last)) :
    session.Turns inputs ⟨last,session.received ++ session.takes inputs⟩ := by
  unfold Shell.turn at ok
  rw [get_bind] at ok
  split at ok
  · rename_i waiting
    obtain ⟨event,_,recv,rest⟩ := bind_ok.mp ok
    obtain ⟨given,rfl⟩ := Prod.mk.inj (Except.ok.inj recv)
    cases event with
    | remote msg => exact message_turns (Or.inl waiting) given rest
    | ctrlC => cases rest
    | key => cases rest
  · split at ok
    · rename_i started idle
      have idle : ¬session.Awaits := fun awaits => awaits.elim started (absurd idle)
      rw [takes_idle idle,List.append_nil]
      cases turn with
      | closed => exact absurd rfl going
      | begun line => exact .prompt line last idle ok
      | handled =>
        obtain ⟨_,_,_,rest⟩ := bind_ok.mp ok
        obtain ⟨_,_,rest⟩ := lift_bind_ok.mp rest
        obtain ⟨_,_,_,rest⟩ := bind_ok.mp rest
        obtain ⟨line?,_,_,rest⟩ := bind_ok.mp rest
        cases line? with
        | none => cases rest
        | some line => cases rest
    · rename_i busy
      obtain ⟨event,_,recv,rest⟩ := bind_ok.mp ok
      obtain ⟨given,rfl⟩ := Prod.mk.inj (Except.ok.inj recv)
      cases event with
      | remote msg => exact message_turns (Or.inr busy) given rest
      | ctrlC =>
        obtain ⟨_,_,cancelled,rest⟩ := bind_ok.mp rest
        obtain ⟨_,rfl⟩ := pure_ok.mp rest
        rw [takes_interrupt given,List.append_nil]
        exact .interrupt _ (Or.inr busy) given cancelled
      | key => cases rest

theorem oneLoop_ok {last : Endpoint StackedRemotes}
    (ok : Shell.oneLoop inputs session.endpoint = .ok (.ok true,last)) :
    session.Turns inputs ⟨last,session.received ++ session.takes inputs⟩ := by
  obtain ⟨turn,done,taken,rest⟩ := bind_ok.mp ok
  have going : turn ≠ .closed := by
    intro closed
    rw [closed] at rest
    cases rest
  have same : done = last := by
    cases turn with
    | closed => exact absurd rfl going
    | handled => exact (pure_ok.mp rest).2
    | begun line => exact (pure_ok.mp rest).2
  exact same ▸ turn_ok going taken

theorem next_ok (ok : session.next inputs = .ok after) : session.Ordered inputs ∧ session.Turns inputs after := by
  obtain ⟨_,ordered,rest⟩ := Outcome.bind_ok.mp ok
  obtain ⟨⟨result,endpoint⟩,looped,rest₁⟩ := Outcome.bind_ok.mp rest
  refine ⟨(Outcome.assert_ok _ _).mp ordered,?_⟩
  match result, rest₁ with
  | .ok true, rest₁ =>
    obtain rfl := Except.ok.inj rest₁
    exact oneLoop_ok looped

end Session
end Nak
