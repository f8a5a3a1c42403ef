import Nak.Frontend
import Nak.Library.Framing

/-! The transports of both ends: one JSON text and a newline for each message, handed to a
writer that may take less than it is given. What it leaves is never written again. -/
namespace Nak
open Library

structure Accepted (data : Bytes) where
  taken : Nat
  within : taken ≤ data.length
  some : data ≠ [] → 0 < taken

/-- One message and what the calls made to send it answer. -/
structure Sending where
  data : Bytes
  write : Except Error (Accepted data)
  flush : Except Error Unit

/-- What `serde_json::to_string` makes of a value: its texts contain no newline. -/
structure Serializer (α : Type) where
  toString : α → String
  compact : ∀ value, (10 : UInt8) ∉ bytes (toString value)

def newlineText : String := "\n"

def serToEndpoint (json : Serializer Request) (remote : RemoteId) (message : RemoteRequest) : Bytes :=
  bytes (json.toString ⟨remote.val,message⟩ ++ newlineText)

def serToFrontend (json : Serializer Response) (remote : RemoteId) (message : RemoteResponse) : Bytes :=
  bytes (json.toString ⟨remote.val,message⟩ ++ newlineText)

/-- A single `write`, then `flush`; the state is what has reached the other side. -/
def writeOnce (sending : Sending) : Action Error Bytes Unit := do
  let accepted ← .propagate sending.write
  .modify fun received => received ++ sending.data.take accepted.taken
  .propagate sending.flush

namespace PipeTransport

def send (sending : Sending) : Action Error Bytes Unit := writeOnce sending

end PipeTransport

namespace StdoutTransport

def send (sending : Sending) : Action Error Bytes Unit := writeOnce sending

end StdoutTransport

def sendAll (send : Sending → Action Error Bytes Unit) : List Sending → Action Error Bytes Unit
  | [] => pure ()
  | sending :: sendings => do
    send sending
    sendAll send sendings

/-- The writer took the whole message at once. -/
def Sending.Whole (sending : Sending) : Prop :=
  ∃ accepted, sending.write = .ok accepted ∧ accepted.taken = sending.data.length

/-- The other side receives the messages one after the other, and reads them line by line. -/
structure Framed (sendings : List Sending) (received : Bytes) : Prop where
  concatenated : received = (sendings.map Sending.data).flatten
  read : frames 10 received = sendings.map Sending.data

theorem bytes_append (first second : String) : bytes (first ++ second) = bytes first ++ bytes second := by
  simp [bytes]

theorem Serializer.frame {α : Type} (json : Serializer α) (value : α) :
    Frame (10 : UInt8) (bytes (json.toString value ++ newlineText)) := by
  refine ⟨bytes (json.toString value),json.compact value,?_⟩
  rw [bytes_append]
  rfl

/-- How much of its message a send has passed on. -/
def Sending.taken (sending : Sending) : Nat :=
  match sending.write with
  | .ok accepted => accepted.taken
  | .error _ => 0

theorem Sending.taken_within (sending : Sending) : sending.taken ≤ sending.data.length := by
  unfold Sending.taken
  split
  · rename_i accepted _
    exact accepted.within
  · exact Nat.zero_le _

theorem writeOnce_ok {sending : Sending} {received next : Bytes}
    (ok : writeOnce sending received = .ok (.ok (),next)) :
    (∃ accepted, sending.write = .ok accepted) ∧ next = received ++ sending.data.take sending.taken := by
  obtain ⟨accepted,_,wrote,ok⟩ := Action.bind_ok.mp ok
  obtain ⟨shape,rfl⟩ := Prod.mk.inj (Except.ok.inj wrote)
  rw [Action.modify_bind] at ok
  obtain ⟨_,rfl⟩ := Prod.mk.inj (Except.ok.inj ok)
  refine ⟨⟨accepted,shape⟩,?_⟩
  rw [Sending.taken,shape]

theorem sendAll_ok {sendings : List Sending} {received next : Bytes}
    (ok : sendAll writeOnce sendings received = .ok (.ok (),next)) :
    (∀ sending ∈ sendings, ∃ accepted, sending.write = .ok accepted) ∧
      next = received ++ (sendings.map fun sending => sending.data.take sending.taken).flatten := by
  induction sendings generalizing received with
  | nil =>
    obtain ⟨_,rfl⟩ := Action.pure_ok.mp ok
    simp
  | cons sending sendings ih =>
    obtain ⟨_,middle,first,rest⟩ := Action.bind_ok.mp ok
    obtain ⟨accepted,rfl⟩ := writeOnce_ok first
    obtain ⟨others,rfl⟩ := ih rest
    exact ⟨List.forall_mem_cons.mpr ⟨accepted,others⟩,by simp⟩

theorem framed_iff_whole {sendings : List Sending} {received : Bytes}
    (framed : ∀ sending ∈ sendings, Frame (10 : UInt8) sending.data)
    (ok : sendAll writeOnce sendings [] = .ok (.ok (),received)) :
    Framed sendings received ↔ ∀ sending ∈ sendings, sending.Whole := by
  obtain ⟨accepted,rfl⟩ := sendAll_ok ok
  constructor
  · intro given sending member
    obtain ⟨answer,shape⟩ := accepted sending member
    have whole := take_flatten sendings Sending.data Sending.taken (fun other _ => other.taken_within)
      given.concatenated sending member
    rw [Sending.taken,shape] at whole
    exact ⟨answer,shape,whole⟩
  · intro whole
    have same : (sendings.map fun sending => sending.data.take sending.taken) = sendings.map Sending.data := by
      refine List.map_congr_left fun sending member => ?_
      obtain ⟨answer,shape,all⟩ := whole sending member
      rw [Sending.taken,shape]
      exact List.take_of_length_le all.ge
    rw [List.nil_append,same]
    refine ⟨rfl,frames_of_parts _ fun part member => ?_⟩
    obtain ⟨sending,sent,rfl⟩ := List.mem_map.mp member
    exact framed sending sent

/-- On both sides the stream is that of the messages exactly when no write is short. -/
theorem transports_framed_iff (requests : Serializer Request) (responses : Serializer Response) :
    (∀ sendings received,
      (∀ sending ∈ sendings, ∃ remote message, sending.data = serToEndpoint requests remote message) →
      sendAll PipeTransport.send sendings [] = .ok (.ok (),received) →
      (Framed sendings received ↔ ∀ sending ∈ sendings, sending.Whole)) ∧
    ∀ sendings received,
      (∀ sending ∈ sendings, ∃ remote message, sending.data = serToFrontend responses remote message) →
      sendAll StdoutTransport.send sendings [] = .ok (.ok (),received) →
      (Framed sendings received ↔ ∀ sending ∈ sendings, sending.Whole) := by
  constructor
  · intro sendings received messages ok
    refine framed_iff_whole (fun sending member => ?_) ok
    obtain ⟨remote,message,same⟩ := messages sending member
    rw [same]
    exact requests.frame _
  · intro sendings received messages ok
    refine framed_iff_whole (fun sending member => ?_) ok
    obtain ⟨remote,message,same⟩ := messages sending member
    rw [same]
    exact responses.frame _

def endRemoteJson : Serializer Request where
  toString _ := "\x7b\"remote_id\":0,\"message\":\x7b\"EndRemote\":\x7b\"id\":1\x7d\x7d\x7d"
  compact _ := by decide +kernel

def commandDoneJson : Serializer Response where
  toString _ := "\x7b\"remote_id\":0,\"message\":\x7b\"CommandDone\":\x7b\"id\":3,\"exit_code\":0\x7d\x7d\x7d"
  compact _ := by decide +kernel

def endRemoteLine : Bytes := serToEndpoint endRemoteJson Endpoint.root (.endRemote 1)

def sendEndRemote (taken : Nat) (within : taken ≤ endRemoteLine.length) (some : 0 < taken) : Sending where
  data := endRemoteLine
  write := .ok ⟨taken,within,fun _ => some⟩
  flush := .ok ()

def wholeEndRemote : Sending := sendEndRemote 49 (by decide +kernel) (by decide)

def shortEndRemote : Sending := sendEndRemote 1 (by decide +kernel) (by decide)

theorem transports_framed_whole : ∃ received,
    sendAll PipeTransport.send [wholeEndRemote,wholeEndRemote] [] = .ok (.ok (),received) ∧
      Framed [wholeEndRemote,wholeEndRemote] received := by
  refine ⟨_,rfl,((transports_framed_iff endRemoteJson commandDoneJson).1 _ _ ?_ rfl).mpr ?_⟩
  · intro sending member
    obtain rfl : sending = wholeEndRemote := by simpa using member
    exact ⟨Endpoint.root,.endRemote 1,rfl⟩
  · intro sending member
    obtain rfl : sending = wholeEndRemote := by simpa using member
    exact ⟨_,rfl,by decide +kernel⟩

/-- The first write takes one byte of its line, and both sends return `Ok`: the other side
reads one line that is no message. -/
theorem transports_framed_fails : ∃ received,
    sendAll PipeTransport.send [shortEndRemote,wholeEndRemote] [] = .ok (.ok (),received) ∧
      frames 10 received = [bytes "\x7b" ++ endRemoteLine] ∧ ¬Framed [shortEndRemote,wholeEndRemote] received := by
  refine ⟨_,rfl,by decide +kernel,fun framed => ?_⟩
  exact absurd framed.concatenated (by decide +kernel)

end Nak
