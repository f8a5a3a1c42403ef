import Mathlib.Data.List.Destutter
import Nak.Library.Sinks
import Nak.Piper
import Nak.Recording

/-! The loop of the recorder: what `select` and the clock answer, the two pipes, and the records
that are given to the sink. -/
namespace Nak.Recorder
open Library

structure Instant where
  nanos : Nat
  fits : nanos < 2 ^ 63 * 10 ^ 9
  deriving DecidableEq

namespace Duration

def ofNanos (nanos : Nat) : Duration := ⟨(nanos / 10 ^ 9).toUInt64,(nanos % 10 ^ 9).toUInt32⟩

def total (duration : Duration) : Nat := duration.secs.toNat * 10 ^ 9 + duration.nanos.toNat

theorem total_ofNanos {nanos : Nat} (fits : nanos < 2 ^ 63 * 10 ^ 9) : (ofNanos nanos).total = nanos := by
  have secs : (nanos / 10 ^ 9).toUInt64.toNat = nanos / 10 ^ 9 := by
    rw [Nat.toUInt64_eq,UInt64.toNat_ofNat_of_lt']
    show nanos / 10 ^ 9 < 2 ^ 64
    omega
  have rest : (nanos % 10 ^ 9).toUInt32.toNat = nanos % 10 ^ 9 := by
    rw [Nat.toUInt32_eq,UInt32.toNat_ofNat_of_lt']
    show nanos % 10 ^ 9 < 2 ^ 32
    omega
  rw [total,ofNanos,secs,rest]
  omega

end Duration

/-- Subtraction of instants panics where the first is the earlier one. -/
def Instant.since (now begin : Instant) : Outcome Duration :=
  if begin.nanos ≤ now.nanos then .ok (.ofNanos (now.nanos - begin.nanos)) else .error .explicit

theorem Instant.since_ok {now begin : Instant} {ts : Duration} (known : now.since begin = .ok ts) :
    begin.nanos + ts.total = now.nanos := by
  unfold since at known
  split at known
  · obtain rfl : _ = ts := by simpa using known
    have fits := now.fits
    rw [Duration.total_ofNanos (by omega)]
    omega
  · simp at known

def Recording.new : Recording := ⟨[]⟩

def Recording.accept (recording : Recording) (item : Record) : Outcome Recording := .ok ⟨recording.records ++ [item]⟩

/-- The bytes of a record that were typed, those that were shown, and the attributes. -/
def Event.typed : Event → Bytes
  | .input data => data
  | .output _ => []
  | .config _ => []

def Event.shown : Event → Bytes
  | .input _ => []
  | .output data => data
  | .config _ => []

def Event.configs : Event → List Attrs
  | .input _ => []
  | .output _ => []
  | .config attrs => [attrs]

def typed (records : List Record) : Bytes := records.flatMap fun record => record.event.typed

def shown (records : List Record) : Bytes := records.flatMap fun record => record.event.shown

def configs (records : List Record) : List Attrs := records.flatMap fun record => record.event.configs

@[simp] theorem typed_append (front back : List Record) : typed (front ++ back) = typed front ++ typed back :=
  List.flatMap_append

@[simp] theorem shown_append (front back : List Record) : shown (front ++ back) = shown front ++ shown back :=
  List.flatMap_append

@[simp] theorem configs_append (front back : List Record) : configs (front ++ back) = configs front ++ configs back :=
  List.flatMap_append

/-- The variables of `record`, and what `Instant::now` will answer. -/
structure Locals where
  config : Attrs
  input : Piper
  output : Piper
  clock : List Instant

structure Ready where
  stdin : Bool
  master : Bool
  masterWrite : Bool
  stdoutWrite : Bool
  deriving DecidableEq, Repr

structure Seen where
  attrs : Option Attrs
  ready : Option Ready
  deriving DecidableEq, Repr

inductive Flow where
  | again
  | leaves
  | fails (e : NixError)
  deriving DecidableEq, Repr

namespace Locals

def now (locals : Locals) : Outcome (Instant × Locals) :=
  match locals.clock with
  | [] => .error .exhausted
  | now :: clock => .ok (now,{ locals with clock })

/-- Only a pipe with bytes in its buffer is put into `write_set`. -/
def asked (locals : Locals) (ready : Ready) : Ready :=
  { ready with
    masterWrite := decide (0 < locals.input.buf.length) && ready.masterWrite
    stdoutWrite := decide (0 < locals.output.buf.length) && ready.stdoutWrite }

section
variable (memory : Nat → UInt8) (begin : Instant) {S : Type} (accept : S → Record → Outcome S)

/-- `sink.accept(Record { ts: Instant::now() - begin, event })` -/
def note (event : Event) (locals : Locals) (sink : S) : Outcome (Locals × S) := do
  let (now,locals) ← locals.now
  let ts ← now.since begin
  let sink ← accept sink ⟨ts,event⟩
  pure (locals,sink)

def configure (attrs : Option Attrs) (locals : Locals) (sink : S) : Outcome (Locals × S) := do
  let config ← Outcome.unwrap attrs
  if config ≠ locals.config then do
    let (locals,sink) ← locals.note begin accept (.config config) sink
    pure ({ locals with config },sink)
  else pure (locals,sink)

/-- The end of the input panics, after it was recorded. -/
def pipeInput (locals : Locals) (sink : S) : Outcome ((Flow × Locals) × S) := do
  let (result,input) ← locals.input.pipeSome memory
  match result with
  | .error e => pure ((.fails e,{ locals with input }),sink)
  | .ok r => do
    let (locals,sink) ← { locals with input }.note begin accept (.input r.data) sink
    if r.eof then .error .explicit else pure ((.again,locals),sink)

def pipeOutput (locals : Locals) (sink : S) : Outcome ((Flow × Locals) × S) := do
  let (result,output) ← locals.output.pipeSome memory
  match result with
  | .error e => pure ((.fails e,{ locals with output }),sink)
  | .ok r => do
    let (locals,sink) ← { locals with output }.note begin accept (.output r.data) sink
    pure ((if r.eof then .leaves else .again,locals),sink)

def pipes (ready : Ready) (locals : Locals) (sink : S) : Outcome ((Flow × Locals) × S) := do
  let ((flow,locals),sink) ←
    (if ready.stdin || ready.masterWrite then locals.pipeInput memory begin accept sink
    else pure ((.again,locals),sink))
  if flow = .again ∧ (ready.master || ready.stdoutWrite) then locals.pipeOutput memory begin accept sink
  else pure ((flow,locals),sink)

def turn (seen : Seen) (locals : Locals) (sink : S) : Outcome ((Flow × Locals) × S) := do
  let (locals,sink) ← locals.configure begin accept seen.attrs sink
  let ready ← Outcome.unwrap seen.ready
  locals.pipes memory begin accept (locals.asked ready) sink

/-- So many turns of the loop, or fewer where it ends before. -/
def turns : List Seen → Locals → S → Outcome ((Flow × Locals) × S)
  | [], locals, sink => pure ((.again,locals),sink)
  | seen :: later, locals, sink => do
    let ((flow,locals),sink) ← locals.turn memory begin accept seen sink
    if flow = .again then turns later locals sink else pure ((flow,locals),sink)

end
end Locals

/-- The devices of a recording: the terminal of the user, and the master of the pseudoterminal. -/
structure Devices where
  stdin : Source
  stdout : Destination
  masterOut : Source
  masterIn : Destination

/-- `record`, as far as the loop has come. `Flow.again` is a loop that waits for its next turn. -/
def record (memory : Nat → UInt8) (begin : Instant) {S : Type} (accept : S → Record → Outcome S) (devices : Devices)
    (clock : List Instant) (attrs : Option Attrs) (seen : List Seen) (sink : S) : Outcome ((Flow × Locals) × S) := do
  let config ← Outcome.unwrap attrs
  let ts ← begin.since begin
  let sink ← accept sink ⟨ts,.config config⟩
  Locals.turns memory begin accept seen
    ⟨config,.new devices.stdin devices.masterIn,.new devices.masterOut devices.stdout,clock⟩ sink

namespace Locals
variable {memory : Nat → UInt8} {begin : Instant}

theorem note_uniform (event : Event) (locals : Locals) :
    Feeding.Uniform fun _ accept sink => locals.note begin accept event sink := by
  apply Feeding.bind_uniform
  rintro ⟨now,locals⟩ -
  apply Feeding.bind_uniform
  intro ts _
  exact Feeding.give_uniform _ (Feeding.value_uniform locals)

theorem configure_uniform (attrs : Option Attrs) (locals : Locals) :
    Feeding.Uniform fun _ accept sink => locals.configure begin accept attrs sink := by
  apply Feeding.bind_uniform
  intro config _
  apply Feeding.ite_uniform
  · exact Feeding.andThen_uniform (fun next _ _ sink => .ok ({ next with config },sink))
      (note_uniform (.config config) locals) fun next => Feeding.value_uniform _
  · exact Feeding.value_uniform locals

theorem pipeInput_uniform (locals : Locals) :
    Feeding.Uniform fun _ accept sink => locals.pipeInput memory begin accept sink := by
  apply Feeding.bind_uniform
  rintro ⟨result,input⟩ -
  cases result with
  | error e => exact Feeding.value_uniform (Flow.fails e,{ locals with input })
  | ok r =>
    refine Feeding.andThen_uniform (fun next _ _ sink =>
      if r.eof then .error .explicit else .ok ((Flow.again,next),sink))
      (note_uniform (.input r.data) { locals with input }) fun next => ?_
    apply Feeding.ite_uniform
    · exact Feeding.panic_uniform .explicit
    · exact Feeding.value_uniform (Flow.again,next)

theorem pipeOutput_uniform (locals : Locals) :
    Feeding.Uniform fun _ accept sink => locals.pipeOutput memory begin accept sink := by
  apply Feeding.bind_uniform
  rintro ⟨result,output⟩ -
  cases result with
  | error e => exact Feeding.value_uniform (Flow.fails e,{ locals with output })
  | ok r =>
    exact Feeding.andThen_uniform (fun next _ _ sink => .ok ((if r.eof then Flow.leaves else .again,next),sink))
      (note_uniform (.output r.data) { locals with output }) fun next => Feeding.value_uniform _

theorem pipes_uniform (ready : Ready) (locals : Locals) :
    Feeding.Uniform fun _ accept sink => locals.pipes memory begin accept ready sink := by
  have first : Feeding.Uniform fun _ accept sink =>
      if ready.stdin || ready.masterWrite then locals.pipeInput memory begin accept sink
      else .ok ((Flow.again,locals),sink) :=
    Feeding.ite_uniform (pipeInput_uniform locals) (Feeding.value_uniform _)
  refine Feeding.andThen_uniform (fun next _ accept sink =>
    if next.1 = .again ∧ (ready.master || ready.stdoutWrite) then next.2.pipeOutput memory begin accept sink
    else .ok (next,sink)) first fun next => ?_
  exact Feeding.ite_uniform (pipeOutput_uniform next.2) (Feeding.value_uniform next)

theorem turn_uniform (seen : Seen) (locals : Locals) :
    Feeding.Uniform fun _ accept sink => locals.turn memory begin accept seen sink := by
  refine Feeding.andThen_uniform (fun next _ accept sink => Outcome.unwrap seen.ready >>= fun ready =>
    next.pipes memory begin accept (next.asked ready) sink) (configure_uniform seen.attrs locals) fun next => ?_
  exact Feeding.bind_uniform fun ready _ => pipes_uniform (next.asked ready) next

theorem turns_uniform (seen : List Seen) (locals : Locals) :
    Feeding.Uniform fun _ accept sink => locals.turns memory begin accept seen sink := by
  induction seen generalizing locals with
  | nil => exact Feeding.value_uniform (Flow.again,locals)
  | cons seen later ih =>
    refine Feeding.andThen_uniform (fun next _ accept sink =>
      if next.1 = .again then next.2.turns memory begin accept later sink else .ok (next,sink))
      (turn_uniform seen locals) fun next => ?_
    exact Feeding.ite_uniform (ih next.2) (Feeding.value_uniform next)

end Locals

namespace Piper

theorem writeLoop_accepts {fuel offset : Nat} {chunk : Bytes} {piper next : Piper} {result : Except NixError Bytes}
    (returns : writeLoop fuel chunk offset piper = .ok (result,next)) :
    ∃ sent, next.write.accepted = piper.write.accepted ++ sent ∧ ∀ after, result = .ok after →
      after = chunk ++ sent := by
  induction fuel generalizing chunk offset piper with
  | zero => simp [writeLoop] at returns
  | succ fuel ih =>
    rw [writeLoop] at returns
    split at returns
    · obtain ⟨unsent,sliced,wrote⟩ := Outcome.bind_ok.mp returns
      obtain ⟨-,-,rfl⟩ := slice_ok.mp sliced
      rw [List.take_length] at wrote
      obtain ⟨⟨answer,write⟩,called,goes⟩ := Outcome.bind_ok.mp wrote
      unfold Destination.write at called
      split at called
      · simp at called
      · obtain ⟨rfl,rfl⟩ : _ = answer ∧ _ = write := by simpa using called
        obtain ⟨number,-,breaks⟩ := Outcome.bind_ok.mp goes
        split at breaks
        · obtain ⟨rfl,rfl⟩ : .ok chunk = result ∧ _ = next := by simpa using breaks
          exact ⟨[],by simp,by simp [eq_comm]⟩
        · obtain ⟨rfl,rfl⟩ : .error _ = result ∧ _ = next := by simpa using breaks
          exact ⟨[],by simp,by simp⟩
      · rename_i n answers waiting
        obtain ⟨rfl,rfl⟩ : _ = answer ∧ _ = write := by simpa using called
        dsimp only at goes
        split at goes
        · simp at goes
        · obtain ⟨part,sent,later⟩ := Outcome.bind_ok.mp goes
          obtain ⟨shape,size⟩ := slice_splits sent
          have size : part.length = n := by omega
          rw [shape,← size,List.take_left] at later
          obtain ⟨rest,accepted,known⟩ := ih later
          refine ⟨part ++ rest,by simpa using accepted,?_⟩
          intro after same
          rw [known after same,List.append_assoc]
    · obtain ⟨rfl,rfl⟩ : .ok chunk = result ∧ piper = next := by simpa using returns
      exact ⟨[],by simp,by simp [eq_comm]⟩

theorem pipeLoop_accepts {memory : Nat → UInt8} {fuel : Nat} {chunk : Bytes} {piper next : Piper}
    {result : Except NixError EofData} (returns : pipeLoop memory fuel chunk piper = .ok (result,next)) :
    ∃ sent, next.write.accepted = piper.write.accepted ++ sent ∧
      ∀ r, result = .ok r → r.data = chunk ++ sent ∧ (r.eof = false → next.buf = []) := by
  induction fuel generalizing chunk piper with
  | zero => simp [pipeLoop] at returns
  | succ fuel ih =>
    rw [pipeLoop] at returns
    obtain ⟨⟨written,middle⟩,wrote,goes⟩ := Outcome.bind_ok.mp returns
    obtain ⟨sent,accepted,known⟩ := writeLoop_accepts wrote
    dsimp only at goes
    cases written with
    | error e =>
      obtain ⟨rfl,rfl⟩ : .error e = result ∧ middle = next := by simpa using goes
      exact ⟨sent,accepted,by simp⟩
    | ok after =>
      obtain rfl := known after rfl
      obtain ⟨⟨answer,buf,read⟩,-,goes⟩ := Outcome.bind_ok.mp goes
      dsimp only at goes
      cases answer with
      | error e =>
        obtain ⟨number,-,breaks⟩ := Outcome.bind_ok.mp goes
        split at breaks
        · obtain ⟨rfl,rfl⟩ : .ok _ = result ∧ _ = next := by simpa using breaks
          exact ⟨sent,accepted,by simp⟩
        · obtain ⟨rfl,rfl⟩ : .error _ = result ∧ _ = next := by simpa using breaks
          exact ⟨sent,accepted,by simp⟩
      | ok n =>
        dsimp only at goes
        split at goes
        · obtain ⟨rfl,rfl⟩ : .ok _ = result ∧ _ = next := by simpa using goes
          exact ⟨sent,accepted,by simp⟩
        · obtain ⟨rest,more,last⟩ := ih goes
          refine ⟨sent ++ rest,?_,?_⟩
          · rw [more]
            simp [accepted]
          · intro r same
            rw [(last r same).1,List.append_assoc]
            exact ⟨rfl,(last r same).2⟩

/-- What every call keeps that meets neither an error nor the end of the file. -/
def Kept (memory : Nat → UInt8) (holds : Piper → Prop) : Prop :=
  ∀ piper data next, pipeSome memory piper = .ok (.ok ⟨data,false⟩,next) → holds piper → holds next

theorem idle_kept (memory : Nat → UInt8) : Kept memory fun piper => piper.buf = [] := by
  intro piper data next returns _
  obtain ⟨sent,-,known⟩ := pipeLoop_accepts returns
  exact (known _ rfl).2 rfl

theorem Kept.and {memory : Nat → UInt8} {first second : Piper → Prop} (kept : Kept memory first)
    (kept' : Kept memory second) : Kept memory fun piper => first piper ∧ second piper :=
  fun piper data next returns holds => ⟨kept piper data next returns holds.1,kept' piper data next returns holds.2⟩

end Piper

namespace Locals
variable {memory : Nat → UInt8} {begin : Instant} {S : Type}

/-- The records are stamped with the readings that were used up, and hold what the pipes accepted. -/
structure Makes (begin : Instant) (locals : Locals) (made : List Record) (next : Locals) : Prop where
  typed : next.input.write.accepted = locals.input.write.accepted ++ typed made
  shown : next.output.write.accepted = locals.output.write.accepted ++ shown made
  timed : ∃ readings, locals.clock = readings ++ next.clock ∧
    List.Forall₂ (fun now record => now.since begin = .ok record.ts) readings made

theorem Makes.refl (locals : Locals) : Makes begin locals [] locals where
  typed := by simp [Recorder.typed]
  shown := by simp [Recorder.shown]
  timed := ⟨[],rfl,.nil⟩

theorem Makes.trans {locals middle next : Locals} {made more : List Record} (first : Makes begin locals made middle)
    (second : Makes begin middle more next) : Makes begin locals (made ++ more) next where
  typed := by rw [second.typed,first.typed,typed_append,List.append_assoc]
  shown := by rw [second.shown,first.shown,shown_append,List.append_assoc]
  timed := by
    obtain ⟨readings,before,stamps⟩ := first.timed
    obtain ⟨others,after,marks⟩ := second.timed
    refine ⟨readings ++ others,?_,List.rel_append stamps marks⟩
    rw [before,after,List.append_assoc]

/-- A call of `pipe_some` that fails on one side, where nothing is recorded of it. -/
def Breaks (memory : Nat → UInt8) (e : NixError) (middle next : Locals) : Prop :=
  (middle.input.pipeSome memory = .ok (.error e,next.input) ∧ next.output = middle.output) ∨
    middle.output.pipeSome memory = .ok (.error e,next.output) ∧ next.input = middle.input

/-- How a turn ends: a pipe that fails has accepted bytes that are in no record. -/
structure Ends (memory : Nat → UInt8) (flow : Flow) (middle next : Locals) : Prop where
  typed : middle.input.write.accepted <+: next.input.write.accepted
  shown : middle.output.write.accepted <+: next.output.write.accepted
  config : next.config = middle.config
  whole : (∀ e, flow ≠ .fails e) → next = middle
  broken : ∀ e, flow = .fails e → Breaks memory e middle next

theorem Ends.same {flow : Flow} (whole : ∀ e, flow ≠ .fails e) (locals : Locals) : Ends memory flow locals locals :=
  ⟨List.prefix_rfl,List.prefix_rfl,rfl,fun _ => rfl,fun e fails => absurd fails (whole e)⟩

def Both (holds : Piper → Prop) (locals : Locals) : Prop := holds locals.input ∧ holds locals.output

/-- What the calls keep is still there, but for the side that has met the end of the file: there
it was up to that call. -/
def Carries (memory : Nat → UInt8) (flow : Flow) (locals middle : Locals) : Prop :=
  ∀ holds, Piper.Kept memory holds → Both holds locals → match flow with
    | .leaves => holds middle.input ∧
        ∃ before data, holds before ∧ before.pipeSome memory = .ok (.ok ⟨data,true⟩,middle.output)
    | _ => Both holds middle

theorem Carries.trans {flow : Flow} {locals between middle : Locals} (first : Carries memory .again locals between)
    (second : Carries memory flow between middle) : Carries memory flow locals middle :=
  fun holds kept both => second holds kept (first holds kept both)

theorem note_gives {event : Event} {locals next : Locals} {made : List Record}
    (gives : locals.note begin push event [] = .ok (next,made)) :
    ∃ now clock ts, locals.clock = now :: clock ∧ now.since begin = .ok ts ∧ next = { locals with clock } ∧
      made = [⟨ts,event⟩] := by
  obtain ⟨⟨now,later⟩,read,goes⟩ := Outcome.bind_ok.mp gives
  obtain ⟨ts,known,given⟩ := Outcome.bind_ok.mp goes
  unfold Locals.now at read
  split at read
  · simp at read
  · rename_i first clock waiting
    obtain ⟨rfl,rfl⟩ : first = now ∧ _ = later := by simpa using read
    obtain ⟨rfl,rfl⟩ : _ = next ∧ _ = made := by simpa [push] using given
    exact ⟨first,clock,ts,waiting,known,rfl,rfl⟩

theorem note_timed {event : Event} {locals next : Locals} {made : List Record}
    (gives : locals.note begin push event [] = .ok (next,made)) : ∃ ts, made = [⟨ts,event⟩] ∧
      next.config = locals.config ∧ next.input = locals.input ∧ next.output = locals.output ∧
      ∃ readings, locals.clock = readings ++ next.clock ∧
        List.Forall₂ (fun now record => now.since begin = .ok record.ts) readings made := by
  obtain ⟨now,clock,ts,waiting,known,rfl,rfl⟩ := note_gives gives
  exact ⟨ts,rfl,rfl,rfl,rfl,[now],waiting,.cons known .nil⟩

theorem configure_gives {attrs : Option Attrs} {locals next : Locals} {made : List Record}
    (gives : locals.configure begin push attrs [] = .ok (next,made)) :
    attrs = some next.config ∧ Makes begin locals made next ∧ next.input = locals.input ∧ next.output = locals.output ∧
      locals.config :: configs made = [next.config].destutter' (· ≠ ·) locals.config := by
  obtain ⟨config,read,goes⟩ := Outcome.bind_ok.mp gives
  rw [Outcome.unwrap_ok] at read
  subst read
  split at goes
  · rename_i changed
    obtain ⟨⟨later,given⟩,noted,goes⟩ := Outcome.bind_ok.mp goes
    obtain ⟨rfl,rfl⟩ : _ = next ∧ given = made := by simpa using goes
    obtain ⟨ts,rfl,-,input,output,timed⟩ := note_timed noted
    refine ⟨rfl,⟨?_,?_,timed⟩,input,output,?_⟩
    · simp [input,Recorder.typed,Event.typed]
    · simp [output,Recorder.shown,Event.shown]
    · rw [List.destutter'_singleton,if_pos changed.symm]
      rfl
  · rename_i same
    obtain ⟨rfl,rfl⟩ : locals = next ∧ [] = made := by simpa [eq_comm] using goes
    obtain rfl : config = locals.config := by simpa using same
    refine ⟨rfl,.refl locals,rfl,rfl,?_⟩
    rw [List.destutter'_singleton,if_neg (by simp)]
    rfl

structure Pours (memory : Nat → UInt8) (begin : Instant) (flow : Flow) (locals : Locals) (made : List Record)
    (next : Locals) : Prop where
  makes : ∃ middle, Makes begin locals made middle ∧ Ends memory flow middle next ∧
    Carries memory flow locals middle ∧ middle.config = locals.config
  configs : configs made = []

theorem Pours.nothing (locals : Locals) : Pours memory begin .again locals [] locals :=
  ⟨⟨locals,.refl locals,.same (by simp) locals,fun _ _ both => both,rfl⟩,rfl⟩

theorem Pours.trans {flow : Flow} {locals middle next : Locals} {made more : List Record}
    (first : Pours memory begin .again locals made middle) (second : Pours memory begin flow middle more next) :
    Pours memory begin flow locals (made ++ more) next where
  makes := by
    obtain ⟨between,makes,ends,carries,config⟩ := first.makes
    obtain rfl := ends.whole (by simp)
    obtain ⟨last,others,final,carries',config'⟩ := second.makes
    exact ⟨last,makes.trans others,final,carries.trans carries',config'.trans config⟩
  configs := by rw [configs_append,first.configs,second.configs,List.append_nil]

theorem pipeInput_gives {flow : Flow} {locals next : Locals} {made : List Record}
    (gives : locals.pipeInput memory begin push [] = .ok ((flow,next),made)) :
    Pours memory begin flow locals made next := by
  obtain ⟨⟨result,input⟩,called,goes⟩ := Outcome.bind_ok.mp gives
  obtain ⟨sent,accepted,known⟩ := Piper.pipeLoop_accepts called
  cases result with
  | error e =>
    obtain ⟨⟨rfl,rfl⟩,rfl⟩ : (Flow.fails e = flow ∧ _ = next) ∧ [] = made := by simpa [eq_comm] using goes
    refine ⟨⟨locals,.refl locals,⟨⟨sent,accepted.symm⟩,List.prefix_rfl,rfl,?_,?_⟩,fun _ _ both => both,rfl⟩,rfl⟩
    · intro whole
      exact absurd rfl (whole e)
    · intro e' same
      obtain rfl := Flow.fails.inj same
      exact Or.inl ⟨called,rfl⟩
  | ok r =>
    obtain ⟨⟨later,given⟩,noted,goes⟩ := Outcome.bind_ok.mp goes
    obtain ⟨ts,rfl,config,same,output,timed⟩ := note_timed noted
    dsimp only at goes
    split at goes
    · simp at goes
    · rename_i more
      obtain ⟨⟨rfl,rfl⟩,rfl⟩ : (Flow.again = flow ∧ later = next) ∧ _ = made := by simpa using goes
      have data := (known r rfl).1
      refine ⟨⟨later,⟨?_,?_,timed⟩,.same (by simp) _,?_,config⟩,rfl⟩
      · simp [same,accepted,Recorder.typed,Event.typed,data]
      · simp [output,Recorder.shown,Event.shown]
      · rintro holds kept ⟨before,other⟩
        obtain ⟨data,eof⟩ := r
        obtain rfl : eof = false := by simpa using more
        rw [Both,same,output]
        exact ⟨kept _ _ _ called before,other⟩

theorem pipeOutput_gives {flow : Flow} {locals next : Locals} {made : List Record}
    (gives : locals.pipeOutput memory begin push [] = .ok ((flow,next),made)) :
    Pours memory begin flow locals made next := by
  obtain ⟨⟨result,output⟩,called,goes⟩ := Outcome.bind_ok.mp gives
  obtain ⟨sent,accepted,known⟩ := Piper.pipeLoop_accepts called
  cases result with
  | error e =>
    obtain ⟨⟨rfl,rfl⟩,rfl⟩ : (Flow.fails e = flow ∧ _ = next) ∧ [] = made := by simpa [eq_comm] using goes
    refine ⟨⟨locals,.refl locals,⟨List.prefix_rfl,⟨sent,accepted.symm⟩,rfl,?_,?_⟩,fun _ _ both => both,rfl⟩,rfl⟩
    · intro whole
      exact absurd rfl (whole e)
    · intro e' same
      obtain rfl := Flow.fails.inj same
      exact Or.inr ⟨called,rfl⟩
  | ok r =>
    obtain ⟨⟨later,given⟩,noted,goes⟩ := Outcome.bind_ok.mp goes
    obtain ⟨ts,rfl,config,input,same,timed⟩ := note_timed noted
    obtain ⟨⟨rfl,rfl⟩,rfl⟩ : (_ = flow ∧ later = next) ∧ _ = made := by simpa using goes
    obtain ⟨data,eof⟩ := r
    obtain rfl : data = sent := by simpa using (known _ rfl).1
    refine ⟨⟨later,⟨?_,?_,timed⟩,.same ?_ _,?_,config⟩,rfl⟩
    · simp [input,Recorder.typed,Event.typed]
    · simp [same,accepted,Recorder.shown,Event.shown]
    · cases eof <;> simp
    · rintro holds kept ⟨other,before⟩
      cases eof with
      | true =>
        change holds later.input ∧ ∃ before data, holds before ∧
          before.pipeSome memory = .ok (.ok ⟨data,true⟩,later.output)
        rw [same,input]
        exact ⟨other,_,_,before,called⟩
      | false =>
        change Both holds later
        rw [Both,same,input]
        exact ⟨other,kept _ _ _ called before⟩

theorem pipes_gives {ready : Ready} {flow : Flow} {locals next : Locals} {made : List Record}
    (gives : locals.pipes memory begin push ready [] = .ok ((flow,next),made)) :
    Pours memory begin flow locals made next := by
  obtain ⟨⟨⟨first,middle⟩,front⟩,early,late⟩ := Outcome.bind_ok.mp gives
  have poured : Pours memory begin first locals front middle := by
    split at early
    · exact pipeInput_gives early
    · obtain ⟨⟨rfl,rfl⟩,rfl⟩ : (Flow.again = first ∧ locals = middle) ∧ [] = front := by simpa [eq_comm] using early
      exact .nothing _
  dsimp only at late
  split at late
  · rename_i both
    obtain ⟨rfl,-⟩ := both
    obtain ⟨more,given,rfl⟩ := (pipeOutput_uniform middle).continues.mp late
    exact poured.trans (pipeOutput_gives given)
  · obtain ⟨⟨rfl,rfl⟩,rfl⟩ : (first = flow ∧ middle = next) ∧ front = made := by simpa using late
    exact poured

theorem turn_gives {seen : Seen} {flow : Flow} {locals next : Locals} {made : List Record}
    (gives : locals.turn memory begin push seen [] = .ok ((flow,next),made)) :
    ∃ config middle, seen.attrs = some config ∧ next.config = config ∧ Makes begin locals made middle ∧
      Ends memory flow middle next ∧ Carries memory flow locals middle ∧
      locals.config :: configs made = [config].destutter' (· ≠ ·) locals.config := by
  obtain ⟨⟨first,front⟩,early,late⟩ := Outcome.bind_ok.mp gives
  obtain ⟨ready,-,piped⟩ := Outcome.bind_ok.mp late
  obtain ⟨more,given,rfl⟩ := (pipes_uniform (first.asked ready) first).continues.mp piped
  obtain ⟨read,makes,input,output,changed⟩ := configure_gives early
  obtain ⟨⟨middle,others,ends,carries,config⟩,none⟩ := pipes_gives given
  refine ⟨first.config,middle,read,ends.config.trans config,makes.trans others,ends,?_,?_⟩
  · intro holds kept both
    apply carries holds kept
    rw [Both,input,output]
    exact both
  · rw [configs_append,none,List.append_nil,changed]

theorem destutter_joins {α : Type} [DecidableEq α] {before now : α} {front back later : List α}
    (first : before :: front = [now].destutter' (· ≠ ·) before) (rest : now :: back = later.destutter' (· ≠ ·) now) :
    before :: (front ++ back) = (now :: later).destutter' (· ≠ ·) before := by
  rw [List.destutter'_singleton] at first
  rw [List.destutter'_cons,← rest]
  by_cases changed : before = now
  · subst changed
    obtain rfl : front = [] := by simpa using first
    rw [if_neg (by simp),List.nil_append,rest]
  · obtain rfl : front = [now] := by simpa [changed] using first
    rw [if_pos changed]
    rfl

/-- What so many turns record: the attributes that were read, where they differ from those
before, and what the pipes accepted. -/
structure Recorded (memory : Nat → UInt8) (begin : Instant) (seen : List Seen) (flow : Flow) (locals : Locals)
    (made : List Record)
    (next : Locals) : Prop where
  makes : ∃ middle, Makes begin locals made middle ∧ Ends memory flow middle next ∧ Carries memory flow locals middle
  configs : ∃ read : List Attrs, read.map some <+: seen.map Seen.attrs ∧
    (flow = .again → read.map some = seen.map Seen.attrs) ∧
    locals.config :: configs made = read.destutter' (· ≠ ·) locals.config ∧ next.config = read.getLastD locals.config

/-- The records hold a first part of what went to either side, and all of it where no pipe failed. -/
theorem Recorded.passes {seen : List Seen} {flow : Flow} {locals next : Locals} {made : List Record}
    (recorded : Recorded memory begin seen flow locals made next) :
    (locals.input.write.accepted ++ Recorder.typed made <+: next.input.write.accepted ∧
      locals.output.write.accepted ++ Recorder.shown made <+: next.output.write.accepted) ∧
    ((∀ e, flow ≠ .fails e) →
      next.input.write.accepted = locals.input.write.accepted ++ Recorder.typed made ∧
        next.output.write.accepted = locals.output.write.accepted ++ Recorder.shown made) := by
  obtain ⟨middle,makes,ends,-⟩ := recorded.makes
  rw [← makes.typed,← makes.shown]
  refine ⟨⟨ends.typed,ends.shown⟩,?_⟩
  intro whole
  rw [ends.whole whole]
  exact ⟨rfl,rfl⟩

theorem turns_gives {seen : List Seen} {flow : Flow} {locals next : Locals} {made : List Record}
    (gives : locals.turns memory begin push seen [] = .ok ((flow,next),made)) :
    Recorded memory begin seen flow locals made next := by
  induction seen generalizing locals made with
  | nil =>
    obtain ⟨⟨rfl,rfl⟩,rfl⟩ : (Flow.again = flow ∧ locals = next) ∧ [] = made := by simpa [turns,eq_comm] using gives
    exact ⟨⟨locals,.refl locals,.same (by simp) _,fun _ _ both => both⟩,⟨[],List.nil_prefix,fun _ => rfl,rfl,rfl⟩⟩
  | cons seen later ih =>
    obtain ⟨⟨⟨first,between⟩,front⟩,early,late⟩ := Outcome.bind_ok.mp gives
    obtain ⟨config,middle,answered,same,makes,ends,carries,changed⟩ := turn_gives early
    subst same
    dsimp only at late
    split at late
    · rename_i again
      subst again
      obtain rfl := ends.whole (by simp)
      obtain ⟨more,given,rfl⟩ := (turns_uniform later between).continues.mp late
      obtain ⟨⟨last,others,final,carries'⟩,⟨read,prefixed,all,rest,known⟩⟩ := ih given
      refine ⟨⟨last,makes.trans others,final,carries.trans carries'⟩,⟨between.config :: read,?_,?_,?_,?_⟩⟩
      · rw [List.map_cons,List.map_cons,answered,List.cons_prefix_cons]
        exact ⟨rfl,prefixed⟩
      · intro again
        rw [List.map_cons,List.map_cons,answered,all again]
      · rw [configs_append]
        exact destutter_joins changed rest
      · rw [known,List.getLastD_cons]
    · rename_i ended
      obtain ⟨⟨rfl,rfl⟩,rfl⟩ : (first = flow ∧ between = next) ∧ front = made := by simpa using late
      refine ⟨⟨middle,makes,ends,carries⟩,⟨[between.config],?_,?_,changed,rfl⟩⟩
      · rw [List.map_cons,List.map_cons,answered,List.cons_prefix_cons]
        exact ⟨rfl,List.nil_prefix⟩
      · intro again
        exact absurd again ended

end Locals

theorem Recording.accept_all (front items : List Record) :
    items.foldlM Recording.accept ⟨front⟩ = .ok ⟨front ++ items⟩ := by
  induction items generalizing front with
  | nil => simp
  | cons item items ih => simp [Recording.accept,ih]

/-- What is recorded, up to any turn. -/
theorem record_gives {memory : Nat → UInt8} {begin : Instant} {devices : Devices} {clock : List Instant}
    {attrs : Option Attrs} {seen : List Seen} {flow : Flow} {locals : Locals} {recording : Recording}
    (run : record memory begin Recording.accept devices clock attrs seen .new = .ok ((flow,locals),recording)) :
    ∃ first made, attrs = some first ∧ recording.records = ⟨.ofNanos 0,.config first⟩ :: made ∧
      Locals.Recorded memory begin seen flow
        ⟨first,.new devices.stdin devices.masterIn,.new devices.masterOut devices.stdout,clock⟩ made locals := by
  obtain ⟨config,read,goes⟩ := Outcome.bind_ok.mp run
  rw [Outcome.unwrap_ok] at read
  obtain ⟨ts,stamped,goes⟩ := Outcome.bind_ok.mp goes
  obtain rfl : .ofNanos 0 = ts := by simpa [Instant.since] using stamped
  rw [Recording.accept,Outcome.ok_bind] at goes
  obtain ⟨made,gives,taken⟩ := (Locals.turns_uniform seen _ ..).mp goes
  rw [Recording.accept_all] at taken
  obtain rfl := Except.ok.inj taken
  exact ⟨config,made,read,rfl,Locals.turns_gives gives⟩

/-! The program writes two bytes and changes the attributes, and is typed one byte. -/

def typingDevices : Devices :=
  ⟨⟨[.ok ⟨[108],by decide⟩,.error wouldBlock],[]⟩,⟨[.ok 2],[]⟩,
    ⟨[.ok ⟨[104,105],by decide⟩,.error wouldBlock],[]⟩,⟨[.ok 1],[]⟩⟩

def typingClock : List Instant := [⟨105,by decide⟩,⟨107,by decide⟩,⟨109,by decide⟩]

def cooked : Attrs := ⟨1,2,3,4,[5]⟩

def raw : Attrs := ⟨1,2,3,0,[5]⟩

def typingSeen : List Seen :=
  [⟨some cooked,some ⟨false,true,false,false⟩⟩,⟨some raw,some ⟨true,false,false,false⟩⟩]

def typedOnce : Locals := ⟨raw,⟨[],⟨[],[108]⟩,⟨[],[108]⟩⟩,⟨[],⟨[],[104,105]⟩,⟨[],[104,105]⟩⟩,[]⟩

def typingRecords : List Record :=
  [⟨⟨0,0⟩,.config cooked⟩,⟨⟨0,5⟩,.output [104,105]⟩,⟨⟨0,7⟩,.config raw⟩,⟨⟨0,9⟩,.input [108]⟩]

theorem typing_recorded :
    record (fun _ => 0) ⟨100,by decide⟩ Recording.accept typingDevices typingClock (some cooked) typingSeen .new =
      .ok ((.again,typedOnce),⟨typingRecords⟩) := by rfl

section
variable {memory : Nat → UInt8} {begin : Instant} {devices : Devices} {clock : List Instant} {attrs : Option Attrs}
  {seen : List Seen} {flow : Flow} {locals : Locals} {recording : Recording}

/-- The state that the records are about: that at the end, or that before the call that failed. -/
def Locals.Ended (memory : Nat → UInt8) (flow : Flow) (before locals : Locals) : Prop :=
  match flow with
  | .fails e => Breaks memory e before locals
  | _ => locals = before

theorem Locals.Ends.ended {middle next : Locals} (ends : Ends memory flow middle next) :
    Ended memory flow middle next := by
  cases flow with
  | fails e => exact ends.broken e rfl
  | again => exact ends.whole (by simp)
  | leaves => exact ends.whole (by simp)

/-- In `select` the loop never waits to write. -/
theorem record_reads_only
    (run : record memory begin Recording.accept devices clock attrs seen .new = .ok ((.again,locals),recording))
    (ready : Ready) : locals.asked ready = ⟨ready.stdin,ready.master,false,false⟩ := by
  obtain ⟨first,made,-,-,⟨middle,-,ends,carries⟩,-⟩ := record_gives run
  obtain rfl := ends.whole (by simp)
  obtain ⟨input,output⟩ := carries _ (Piper.idle_kept memory) ⟨rfl,rfl⟩
  simp [Locals.asked,input,output]

theorem record_reads_only_typing : typedOnce.asked ⟨true,true,true,true⟩ = ⟨true,true,false,false⟩ :=
  record_reads_only typing_recorded ⟨true,true,true,true⟩

end

end Nak.Recorder
