import Nak.RecordLoop

/-! Playing a recording: the file is parsed, and its outputs are written again, each not before
the time of its record. -/
namespace Nak.Recorder
open Library

/-- What playing a record costs: the time until the clock is read, the time by which the sleep
is too long, and what `write_all` and `flush` answer. -/
structure Pace (ε : Type) where
  spent : Nat
  overslept : Nat
  write : Except ε Unit

variable {ε : Type}

/-- Sleeps until the time of the record, where that has not come. -/
def Pace.sleep (pace : Pace ε) (elapsed : Nat) (ts : Duration) : Nat :=
  if elapsed + pace.spent < ts.total then ts.total + pace.overslept else elapsed + pace.spent

/-- The loop of `--play`, with the time since `begin` and what was written when. -/
def playLoop : List Record → List (Pace ε) → Nat → List (Nat × Bytes) → Outcome (Except ε Unit × List (Nat × Bytes))
  | [], _, _, written => pure (.ok (),written)
  | _ :: _, [], _, _ => .error .exhausted
  | record :: records, pace :: paces, elapsed, written =>
    let elapsed := pace.sleep elapsed record.ts
    match record.event with
    | .config _ => playLoop records paces elapsed written
    | .input _ => playLoop records paces elapsed written
    | .output data =>
      match pace.write with
      | .error e => pure (.error e,written)
      | .ok _ => playLoop records paces elapsed (written ++ [(elapsed,data)])

def Record.frame (record : Record) : List (Nat × Bytes) :=
  match record.event with
  | .config _ => []
  | .input _ => []
  | .output data => [(record.ts.total,data)]

def frames (records : List Record) : List (Nat × Bytes) := records.flatMap Record.frame

/-- The frames are written in order, each at its time or later, up to the first that fails. -/
def Follows (plan : List (Nat × Bytes)) (result : Except ε Unit) (played : List (Nat × Bytes)) : Prop :=
  ∃ planned, planned <+: plan ∧ (result = .ok () → planned = plan) ∧
    List.Forall₂ (fun planned real => planned.1 ≤ real.1 ∧ planned.2 = real.2) planned played

section
variable {ts : Duration} {records : List Record} {pace : Pace ε} {paces : List (Pace ε)} {elapsed : Nat}
  {written : List (Nat × Bytes)}

theorem playLoop_config (attrs : Attrs) : playLoop (⟨ts,.config attrs⟩ :: records) (pace :: paces) elapsed written =
    playLoop records paces (pace.sleep elapsed ts) written := by rw [playLoop]

theorem playLoop_input (data : Bytes) : playLoop (⟨ts,.input data⟩ :: records) (pace :: paces) elapsed written =
    playLoop records paces (pace.sleep elapsed ts) written := by rw [playLoop]

theorem playLoop_fails {e : ε} (data : Bytes) (answer : pace.write = .error e) :
    playLoop (⟨ts,.output data⟩ :: records) (pace :: paces) elapsed written = .ok (.error e,written) := by
  rw [playLoop]
  simp [answer]

theorem playLoop_shows (data : Bytes) (answer : pace.write = .ok ()) :
    playLoop (⟨ts,.output data⟩ :: records) (pace :: paces) elapsed written =
      playLoop records paces (pace.sleep elapsed ts) (written ++ [(pace.sleep elapsed ts,data)]) := by
  rw [playLoop]
  simp [answer]

end

theorem Pace.sleep_late (pace : Pace ε) (elapsed : Nat) (ts : Duration) : ts.total ≤ pace.sleep elapsed ts := by
  unfold sleep
  split <;> omega

theorem playLoop_follows {records : List Record} {paces : List (Pace ε)} {elapsed : Nat}
    {written final : List (Nat × Bytes)} {result : Except ε Unit}
    (plays : playLoop records paces elapsed written = .ok (result,final)) :
    ∃ played, final = written ++ played ∧ Follows (frames records) result played := by
  induction records generalizing paces elapsed written with
  | nil =>
    obtain ⟨rfl,rfl⟩ : .ok () = result ∧ written = final := by simpa [playLoop] using plays
    exact ⟨[],by simp,[],List.prefix_rfl,fun _ => rfl,.nil⟩
  | cons record records ih =>
    cases paces with
    | nil => simp [playLoop] at plays
    | cons pace paces =>
      obtain ⟨ts,event⟩ := record
      cases event with
      | config attrs =>
        rw [playLoop_config] at plays
        exact ih plays
      | input data =>
        rw [playLoop_input] at plays
        exact ih plays
      | output data =>
        cases answer : pace.write with
        | error e =>
          rw [playLoop_fails data answer] at plays
          obtain ⟨rfl,rfl⟩ : .error e = result ∧ written = final := by simpa using plays
          exact ⟨[],by simp,[],List.nil_prefix,by simp,.nil⟩
        | ok done =>
          rw [playLoop_shows data answer] at plays
          obtain ⟨played,rfl,⟨planned,prefixed,all,late⟩⟩ := ih plays
          refine ⟨(pace.sleep elapsed ts,data) :: played,by simp,(ts.total,data) :: planned,?_,?_,?_⟩
          · exact List.cons_prefix_cons.mpr ⟨rfl,prefixed⟩
          · intro ok
            rw [all ok]
            rfl
          · exact .cons ⟨pace.sleep_late elapsed ts,rfl⟩ late

theorem playLoop_punctual {records : List Record} {paces : List (Pace ε)} {elapsed : Nat}
    {written final : List (Nat × Bytes)} {result : Except ε Unit}
    (punctual : ∀ pace ∈ paces, pace.spent = 0 ∧ pace.overslept = 0)
    (ordered : records.Pairwise fun first second => first.ts.total ≤ second.ts.total)
    (ahead : ∀ record ∈ records, elapsed ≤ record.ts.total)
    (plays : playLoop records paces elapsed written = .ok (result,final)) :
    final <+: written ++ frames records ∧ (result = .ok () → final = written ++ frames records) := by
  induction records generalizing paces elapsed written with
  | nil =>
    obtain ⟨rfl,rfl⟩ : .ok () = result ∧ written = final := by simpa [playLoop] using plays
    simp [frames]
  | cons record records ih =>
    cases paces with
    | nil => simp [playLoop] at plays
    | cons pace paces =>
      obtain ⟨first,later⟩ := List.pairwise_cons.mp ordered
      have now : pace.sleep elapsed record.ts = record.ts.total := by
        obtain ⟨spent,overslept⟩ := punctual pace List.mem_cons_self
        have soon := ahead record List.mem_cons_self
        rw [Pace.sleep,spent,overslept]
        split <;> omega
      have rest (written : List (Nat × Bytes))
        (plays : playLoop records paces record.ts.total written = .ok (result,final)) :
          final <+: written ++ frames records ∧ (result = .ok () → final = written ++ frames records) :=
        ih (fun other member => punctual other (List.mem_cons_of_mem _ member)) later first plays
      obtain ⟨ts,event⟩ := record
      cases event with
      | config attrs =>
        rw [playLoop_config,now] at plays
        exact rest _ plays
      | input data =>
        rw [playLoop_input,now] at plays
        exact rest _ plays
      | output data =>
        cases answer : pace.write with
        | error e =>
          rw [playLoop_fails data answer] at plays
          obtain ⟨rfl,rfl⟩ : .error e = result ∧ written = final := by simpa using plays
          simp
        | ok done =>
          rw [playLoop_shows data answer,now] at plays
          have goes := rest _ plays
          rw [List.append_assoc] at goes
          exact goes

section
variable {memory : Nat → UInt8} {begin : Instant} {devices : Devices} {clock : List Instant} {attrs : Option Attrs}
  {seen : List Seen} {flow : Flow} {locals : Locals} {recording : Recording}

theorem stamps_ordered {readings : List Instant} {made : List Record}
    (stamps : List.Forall₂ (fun now record => now.since begin = .ok record.ts) readings made)
    (sorted : readings.Pairwise fun earlier later => earlier.nanos ≤ later.nanos) :
    made.Pairwise fun first second => first.ts.total ≤ second.ts.total := by
  induction stamps with
  | nil => exact .nil
  | cons known rest ih =>
    obtain ⟨first,later⟩ := List.pairwise_cons.mp sorted
    refine .cons ?_ (ih later)
    intro record member
    obtain ⟨position,bound,rfl⟩ := List.getElem_of_mem member
    have other := (List.forall₂_iff_get.mp rest).2 position (by rw [rest.length_eq]; exact bound) bound
    have before := first _ (List.getElem_mem (by rw [rest.length_eq]; exact bound))
    have now := Instant.since_ok known
    have then_ := Instant.since_ok other
    simp only [List.get_eq_getElem] at then_
    omega

/-- Under a clock that does not go back the records are in the order of their times, and each
frame is played at its time or, with a lag, later. -/
theorem replay_timed
    (run : record memory begin Recording.accept devices clock attrs seen .new = .ok ((flow,locals),recording))
    (steady : (begin :: clock).Pairwise fun earlier later => earlier.nanos ≤ later.nanos) :
    (∃ readings, readings <+: clock ∧
      List.Forall₂ (fun now record => begin.nanos + record.ts.total = now.nanos)
      (begin :: readings) recording.records) ∧
    (recording.records.Pairwise fun first second => first.ts.total ≤ second.ts.total) ∧
    ∀ (paces : List (Pace ε)) (result : Except ε Unit) (played : List (Nat × Bytes)),
      playLoop recording.records paces 0 [] = .ok (result,played) →
        Follows (frames recording.records) result played ∧
        ((∀ pace ∈ paces, pace.spent = 0 ∧ pace.overslept = 0) → played <+: frames recording.records) := by
  obtain ⟨first,made,-,shape,⟨middle,⟨-,-,readings,whole,stamps⟩,-⟩,-,-⟩ := record_gives run
  have sorted : readings.Pairwise fun earlier later => earlier.nanos ≤ later.nanos := by
    dsimp only at whole
    rw [whole] at steady
    exact (List.pairwise_append.mp (List.pairwise_cons.mp steady).2).1
  have zero : (Duration.ofNanos 0).total = 0 := Duration.total_ofNanos (by decide)
  have ordered : recording.records.Pairwise fun first second => first.ts.total ≤ second.ts.total := by
    rw [shape,List.pairwise_cons]
    refine ⟨?_,stamps_ordered stamps sorted⟩
    intro record _
    rw [zero]
    exact Nat.zero_le _
  refine ⟨⟨readings,⟨_,whole.symm⟩,?_⟩,ordered,?_⟩
  · rw [shape]
    refine .cons ?_ (stamps.imp fun _ _ => Instant.since_ok)
    rw [zero,Nat.add_zero]
  intro paces result played plays
  obtain ⟨same,rfl,follows⟩ := playLoop_follows plays
  refine ⟨follows,?_⟩
  intro punctual
  exact (playLoop_punctual punctual ordered (fun _ _ => Nat.zero_le _) plays).1

end

theorem replay_timed_typing :
    (∃ readings, readings <+: typingClock ∧
      List.Forall₂ (fun now record => 100 + record.ts.total = now.nanos) (⟨100,by decide⟩ :: readings) typingRecords) ∧
    (typingRecords.Pairwise fun first second => first.ts.total ≤ second.ts.total) ∧
    ∀ (paces : List (Pace String)) (result : Except String Unit) (played : List (Nat × Bytes)),
      playLoop typingRecords paces 0 [] = .ok (result,played) →
        Follows (frames typingRecords) result played ∧
        ((∀ pace ∈ paces, pace.spent = 0 ∧ pace.overslept = 0) → played <+: frames typingRecords) :=
  replay_timed typing_recorded (by decide)

end Nak.Recorder
