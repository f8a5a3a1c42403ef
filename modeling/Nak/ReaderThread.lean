import Nak.BothEnds
import Nak.Library.Loops

/-! The threads that read the lines of a backend: the one of the frontend, which hands each
response to the main loop, and the one a backend starts for a backend of its own, which
relays them. The other end of what they write to outlives them. -/
namespace Nak.ReaderThread
open Library

/-- The rest of the stream, and what the thread has passed on. -/
structure Reader (α : Type) where
  unread : Bytes
  sent : List α

def text? (line : Bytes) : Option String := String.fromUTF8? ⟨line.toArray⟩

/-- The length of the line and its text, or an error for a line that is not UTF-8. The line
is taken from the stream either way. -/
def readLine (unread : Bytes) : Except Error (Nat × String) × Bytes :=
  let (line,rest) := cut 10 unread
  match text? line with
  | some input => (.ok (line.length,input),rest)
  | none => (.error ⟨.other,"stream did not contain valid UTF-8"⟩,rest)

/-- One turn of the loop of a reader thread. `atEnd` is what it does at the end of the
stream; an error of `read_line` is only shown. -/
def turn {α : Type} (atEnd : Reader α → Option (Reader α)) (pass : Response → α)
    (fromStr : String → Except Error Response) (reader : Reader α) : Outcome (Option (Reader α)) :=
  match readLine reader.unread with
  | (.ok (n,input),rest) =>
    if n = 0 then .ok (atEnd { reader with unread := rest })
    else do
      let rpc ← Outcome.unwrap (fromStr input).toOption
      pure (some ⟨rest,reader.sent ++ [pass rpc]⟩)
  | (.error _,rest) => .ok (some { reader with unread := rest })

/-- The thread of `launch_backend`: `continue` at the end of the stream. -/
def launchBackend (fromStr : String → Except Error Response) : Reader Event → Outcome (Option (Reader Event)) :=
  turn some .remote fromStr

/-- The thread of `begin_remote`: `break` at the end of the stream. -/
def beginRemote (id : Nat) (fromStr : String → Except Error Response) :
    Reader Response → Outcome (Option (Reader Response)) :=
  turn (fun _ => none) (fun rpc => { rpc with remoteId := id }) fromStr

section Lines
variable (fromStr : String → Except Error Response)

def response? (line : Bytes) : Option Response := (text? line).bind fun input => (fromStr input).toOption

def rejected (line : Bytes) : Bool := (text? line).isSome && (response? fromStr line).isNone

def responses : List Bytes → List Response
  | [] => []
  | line :: lines =>
    match response? fromStr line with
    | some rpc => rpc :: responses lines
    | none => []

def completeLines (stream : Bytes) : List Bytes := (frames 10 stream).filter fun line => line.getLast? = some 10

/-- The loop is left once it has passed on the responses up to the first line that is none. -/
def Delivers (stream : Bytes) : Prop := ∃ calls last, Leaves (launchBackend fromStr) calls ⟨stream,[]⟩ last ∧
  last.sent = (responses fromStr (completeLines stream)).map .remote

/-- After the responses, and then the lines that are not UTF-8, comes a line that is rejected. -/
def Rejects (lines : List Bytes) : Prop :=
  ∃ line, ((lines.dropWhile fun line => (response? fromStr line).isSome).dropWhile fun line =>
    (text? line).isNone).head? =
    some line ∧ rejected fromStr line

/-- What the thread of the frontend passes on until it is left; `none` when it never is. -/
def passes : List Bytes → Option (List Response)
  | [] => none
  | line :: lines =>
    match text? line with
    | none => passes lines
    | some input =>
      match fromStr input with
      | .ok rpc => (passes lines).map fun more => rpc :: more
      | .error _ => some []

end Lines

variable {fromStr : String → Except Error Response} {line : Bytes} {lines : List Bytes}

section Turns
variable {α : Type} {atEnd : Reader α → Option (Reader α)} {pass : Response → α} {reader : Reader α}

theorem turn_end (ended : reader.unread = []) : turn atEnd pass fromStr reader = .ok (atEnd reader) := by
  have read : readLine [] = (.ok (0,""),[]) := by rfl
  unfold turn
  rw [ended,read]
  simp only [if_true]
  rw [← ended]

theorem turn_line (shape : frames 10 reader.unread = line :: lines) :
    ∃ rest, frames 10 rest = lines ∧ turn atEnd pass fromStr reader =
      match text? line with
      | none => .ok (some ⟨rest,reader.sent⟩)
      | some input =>
        match fromStr input with
        | .ok rpc => .ok (some ⟨rest,reader.sent ++ [pass rpc]⟩)
        | .error _ => .error .unwrap := by
  cases unread : reader.unread with
  | nil => simp [unread,frames] at shape
  | cons byte stream =>
    rw [unread,frames_cut] at shape
    obtain ⟨rfl,rfl⟩ := List.cons.inj shape
    refine ⟨_,rfl,?_⟩
    have some : (cut 10 (byte :: stream)).1.length ≠ 0 := by simpa using cut_ne_nil byte stream
    unfold turn readLine
    rw [unread]
    dsimp only
    cases text : text? (cut 10 (byte :: stream)).1 with
    | none => rfl
    | some input =>
      simp only [if_neg some]
      cases fromStr input <;> rfl

theorem turn_takes {next : Reader α} (shape : frames 10 reader.unread = line :: lines)
    (on : turn atEnd pass fromStr reader = .ok (some next)) : frames 10 next.unread = lines := by
  obtain ⟨rest,left,taken⟩ := @turn_line fromStr line lines _ atEnd pass reader shape
  rw [taken] at on
  cases text : text? line with
  | none =>
    rw [text] at on
    obtain rfl := Option.some.inj (Except.ok.inj on)
    exact left
  | some input =>
    rw [text] at on
    cases read : fromStr input with
    | error error => simp [read] at on
    | ok rpc =>
      simp only [read] at on
      obtain rfl := Option.some.inj (Except.ok.inj on)
      exact left

end Turns

theorem launch_iff {reader : Reader Event} {sent : List Event} :
    (∃ calls last, Leaves (launchBackend fromStr) calls reader last ∧ last.sent = sent) ↔
      ∃ more, passes fromStr (frames 10 reader.unread) = some more ∧ sent = reader.sent ++ more.map .remote := by
  rw [exists_comm]
  simp only [exists_and_right]
  induction shape : frames 10 reader.unread generalizing reader with
  | nil =>
    have stuck : launchBackend fromStr reader = .ok (some reader) := turn_end (frames_eq_nil.mp shape)
    simp [Leaves.stuck stuck,passes]
  | cons line lines ih =>
    obtain ⟨rest,left,taken⟩ := @turn_line fromStr line lines _ some Event.remote reader shape
    rw [passes]
    cases text : text? line with
    | none =>
      rw [text] at taken
      have on : launchBackend fromStr reader = .ok (some ⟨rest,reader.sent⟩) := taken
      have later := @ih ⟨rest,reader.sent⟩ left
      simp only [Leaves.goes_iff on,later]
    | some input =>
      rw [text] at taken
      cases read : fromStr input with
      | error error =>
        simp only [read] at taken ⊢
        have panics : launchBackend fromStr reader = .error .unwrap := taken
        simp [Leaves.panics_iff panics,eq_comm]
      | ok rpc =>
        simp only [read] at taken ⊢
        have on : launchBackend fromStr reader = .ok (some ⟨rest,reader.sent ++ [.remote rpc]⟩) := taken
        have later := @ih ⟨rest,reader.sent ++ [.remote rpc]⟩ left
        simp only [Leaves.goes_iff on,later]
        cases passes fromStr lines <;> simp

theorem passes_nothing : passes fromStr lines = some [] ↔
    ∃ line, (lines.dropWhile fun line => (text? line).isNone).head? = some line ∧ rejected fromStr line := by
  induction lines with
  | nil => simp [passes]
  | cons line lines ih =>
    rw [passes]
    cases text : text? line with
    | none => simpa [text] using ih
    | some input =>
      cases read : fromStr input with
      | error error => simp [text,rejected,response?,read,Except.toOption]
      | ok rpc => simp [text,rejected,response?,read,Except.toOption]

theorem passes_response {rpc : Response} (heard : response? fromStr line = some rpc) :
    passes fromStr (line :: lines) = (passes fromStr lines).map fun more => rpc :: more := by
  obtain ⟨input,text,read⟩ := Option.bind_eq_some_iff.mp heard
  rw [passes,text]
  cases result : fromStr input with
  | error error => simp [result,Except.toOption] at read
  | ok value =>
    obtain rfl : value = rpc := by simpa [result,Except.toOption] using read
    simp only [result]

theorem rejects_response {rpc : Response} (heard : response? fromStr line = some rpc) :
    Rejects fromStr (line :: lines) ↔ Rejects fromStr lines := by
  unfold Rejects
  rw [List.dropWhile_cons_of_pos (by simp [heard])]

theorem passes_iff (ends : ∀ line ∈ lines.dropLast, line.getLast? = some 10) :
    passes fromStr lines = some (responses fromStr (lines.filter fun line => line.getLast? = some 10)) ↔
      Rejects fromStr lines := by
  induction lines with
  | nil => simp [passes,Rejects]
  | cons line lines ih =>
    have lastOnly (incomplete : line.getLast? ≠ some 10) : lines = [] := by
      cases lines with
      | nil => rfl
      | cons second lines => exact absurd (ends line (by simp)) incomplete
    cases heard : response? fromStr line with
    | none =>
      have nothing : responses fromStr ((line :: lines).filter fun line => line.getLast? = some 10) = [] := by
        by_cases complete : line.getLast? = some 10
        · rw [List.filter_cons_of_pos (by simpa using complete),responses,heard]
        · rw [List.filter_cons_of_neg (by simpa using complete),lastOnly complete]
          rfl
      rw [nothing,passes_nothing,Rejects,
        @List.dropWhile_cons_of_neg _ (fun line => (response? fromStr line).isSome) _ _ (by simp [heard])]
    | some rpc =>
      rw [passes_response heard,rejects_response heard]
      by_cases complete : line.getLast? = some 10
      · rw [List.filter_cons_of_pos (by simpa using complete),responses,heard]
        have later := ih fun other member => ends other <| by
          rw [List.dropLast_cons_of_ne_nil (List.ne_nil_of_mem (List.mem_of_mem_dropLast member))]
          exact List.mem_cons_of_mem _ member
        rw [← later]
        cases passes fromStr lines <;> simp
      · obtain rfl := lastOnly complete
        simp [passes,Rejects]

/-- Responses alone never end the thread, whether or not the stream does. -/
theorem heard_spins {stream : Bytes} (heard : ∀ line ∈ frames 10 stream, (response? fromStr line).isSome) :
    ¬∃ calls last, Leaves (launchBackend fromStr) calls ⟨stream,[]⟩ last := by
  rintro ⟨calls,last,left⟩
  obtain ⟨more,passed,_⟩ := launch_iff.mp ⟨calls,last,left,rfl⟩
  have never (lines : List Bytes) (heard : ∀ line ∈ lines, (response? fromStr line).isSome) :
    passes fromStr lines = none := by
    induction lines with
    | nil => rfl
    | cons line lines ih =>
      obtain ⟨rpc,found⟩ := Option.isSome_iff_exists.mp (heard line List.mem_cons_self)
      rw [passes_response found,ih fun other member => heard other (List.mem_cons_of_mem _ member)]
      rfl
  simp [never _ heard] at passed

/-- A backend that has written its responses and is gone leaves the thread going on for ever. -/
theorem backend_gone {json : Serializer Response} {same : Response → Response → Prop} {sent : List Response}
    (decodes : ∀ response ∈ sent, Decodes json fromStr same response) :
    ¬∃ calls last, Leaves (launchBackend fromStr) calls ⟨responseStream json sent,[]⟩ last := by
  apply heard_spins
  intro line member
  have parts : frames 10 (responseStream json sent) =
      sent.map fun response => bytes (json.toString response ++ newlineText) := by
    refine frames_of_parts _ fun part listed => ?_
    obtain ⟨response,_,rfl⟩ := List.mem_map.mp listed
    exact json.frame response
  rw [parts] at member
  obtain ⟨response,among,rfl⟩ := List.mem_map.mp member
  obtain ⟨decoded,read,_⟩ := decodes response among
  rw [response?,text?,fromUTF8_bytes,Option.bind_some,read]
  rfl

/-- The thread that breaks at the end of the stream is left after at most one call a line and one more. -/
theorem relay_leaves (id : Nat) (reader : Reader Response) : ∃ calls last,
    calls ≤ (frames 10 reader.unread).length + 1 ∧ Leaves (beginRemote id fromStr) calls reader last := by
  apply Leaves.shrinking fun (reader : Reader Response) => (frames 10 reader.unread).length
  intro reader next on
  cases shape : frames 10 reader.unread with
  | nil =>
    have ends : beginRemote id fromStr reader = .ok none := turn_end (frames_eq_nil.mp shape)
    simp [ends] at on
  | cons line lines =>
    rw [turn_takes shape on]
    simp

/-- The thread has passed on the responses up to the first line that is none when it is left,
exactly where a line is rejected with only lines that are not UTF-8 after these responses. -/
theorem delivers_iff (fromStr : String → Except Error Response) (stream : Bytes) :
    Delivers fromStr stream ↔ Rejects fromStr (frames 10 stream) := by
  unfold Delivers
  rw [← passes_iff (frames_ends stream)]
  constructor
  · rintro ⟨calls,last,left,sent⟩
    obtain ⟨more,passed,same⟩ := launch_iff.mp ⟨calls,last,left,sent⟩
    have injective : Function.Injective Event.remote := fun first second equal => Event.remote.inj equal
    obtain rfl := injective.list_map same
    exact passed
  · intro passed
    exact launch_iff.mpr ⟨_,passed,rfl⟩

def readyText : String := "\x7b\"remote_id\":0,\"message\":\x7b\"RemoteReady\":\x7b\"info\":" ++
  "\x7b\"hostname\":\"nak\",\"username\":\"root\",\"working_dir\":\"/\"\x7d\x7d\x7d\x7d"

def toReady (text : String) : Except Error Response :=
  if text = readyText ++ "\n" then .ok ⟨0,.remoteReady ⟨"nak","root","/"⟩⟩
  else .error ⟨.other,"expected value at line 1 column 1"⟩

/-- A backend that is gone once it has said that it is ready. -/
theorem delivers_fails : ¬Delivers toReady (bytes (readyText ++ "\n")) := by
  rw [Delivers]
  rintro ⟨calls,last,left,_⟩
  exact heard_spins (by decide +kernel) ⟨calls,last,left⟩

end Nak.ReaderThread
