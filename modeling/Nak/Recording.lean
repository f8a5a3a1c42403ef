import Nak.Library.Slices
import Nak.Protocol

/-! The file of a recording: records behind their lengths, as they are written and read back. -/
namespace Nak.Recorder
open Library

structure Duration where
  secs : UInt64
  nanos : UInt32
  deriving DecidableEq, Repr

structure Attrs where
  inputFlags : UInt64
  outputFlags : UInt64
  controlFlags : UInt64
  localFlags : UInt64
  controlChars : Bytes
  deriving DecidableEq, Repr

inductive Event where
  | input (data : Bytes)
  | output (data : Bytes)
  | config (attrs : Attrs)
  deriving DecidableEq, Repr

structure Record where
  ts : Duration
  event : Event
  deriving DecidableEq, Repr

structure DiskRecording where
  file : Bytes
  deriving DecidableEq, Repr

structure Recording where
  records : List Record
  deriving DecidableEq, Repr

section
variable {ε : Type} (serialize : Record → Except ε Bytes) (deserialize : Bytes → Except ε Record)

def asU32 (number : Nat) : Nat := number % 2 ^ 32

def DiskRecording.new (file : Bytes) : DiskRecording := ⟨file⟩

def DiskRecording.accept (recording : DiskRecording) (item : Record) : Outcome DiskRecording := do
  let data ← Outcome.unwrap (serialize item).toOption
  pure ⟨recording.file ++ littleEndian 4 (asU32 data.length) ++ data⟩

def DiskRecording.acceptAll (recording : DiskRecording) (items : List Record) : Outcome DiskRecording :=
  items.foldlM (DiskRecording.accept serialize) recording

def readU32 (data : Bytes) : Outcome Nat := do
  let front ← sliceTo data 4
  pure (fromLittleEndian front)

def parseLoop : Nat → List Record → Bytes → Outcome (Except ε Recording)
  | 0, _, _ => .error .exhausted
  | fuel + 1, records, data =>
    if 4 ≤ data.length then do
      let len ← readU32 data
      let data ← sliceFrom data 4
      let buf ← sliceTo data len
      match deserialize buf with
      | .error e => pure (.error e)
      | .ok r => do
        let data ← sliceFrom data len
        parseLoop fuel (records ++ [r]) data
    else pure (.ok ⟨records⟩)

def Recording.parse (data : Bytes) : Outcome (Except ε Recording) :=
  parseLoop deserialize (data.length + 1) [] data

/-- The bytes are records behind their lengths, and nothing more. -/
inductive Framed : Bytes → List Record → Prop
  | nil : Framed [] []
  | cons {field part rest : Bytes} {record : Record} {records : List Record} (four : field.length = 4)
      (size : fromLittleEndian field = part.length) (reads : deserialize part = .ok record)
      (more : Framed rest records) : Framed (field ++ (part ++ rest)) (record :: records)

/-- Every length that follows whole records is at most the number of bytes behind it. -/
def LengthsFit (data : Bytes) : Prop := ∀ front records field rest,
  data = front ++ (field ++ rest) → Framed deserialize front records → field.length = 4 →
    fromLittleEndian field ≤ rest.length

variable {deserialize}

theorem parseLoop_field {fuel : Nat} {records : List Record} {field rest : Bytes} (four : field.length = 4) :
    parseLoop deserialize (fuel + 1) records (field ++ rest) = (do
      let buf ← sliceTo rest (fromLittleEndian field)
      match deserialize buf with
      | .error e => pure (.error e)
      | .ok r => do
        let data ← sliceFrom rest (fromLittleEndian field)
        parseLoop deserialize fuel (records ++ [r]) data) := by
  have front := sliceTo_append field rest
  have behind := sliceFrom_append field rest
  rw [four] at front behind
  rw [parseLoop,if_pos (by simp [four]),readU32,front,Outcome.ok_bind,Outcome.pure_ok,Outcome.ok_bind,behind,
    Outcome.ok_bind]

theorem parseLoop_record {fuel : Nat} {records : List Record} {field part rest : Bytes} (four : field.length = 4)
    (size : fromLittleEndian field = part.length) :
    parseLoop deserialize (fuel + 1) records (field ++ (part ++ rest)) =
      match deserialize part with
      | .error e => pure (.error e)
      | .ok r => parseLoop deserialize fuel (records ++ [r]) rest := by
  rw [parseLoop_field four,size,sliceTo_append,Outcome.ok_bind,sliceFrom_append]
  cases deserialize part with
  | error e => rfl
  | ok r => rfl

theorem parseLoop_cut {fuel : Nat} {records : List Record} {field rest : Bytes} (four : field.length = 4)
    (cut : rest.length < fromLittleEndian field) :
    parseLoop deserialize (fuel + 1) records (field ++ rest) = .error .bounds := by
  rw [parseLoop_field four,sliceTo_short cut,Outcome.error_bind]

theorem parseLoop_ends {fuel : Nat} {records : List Record} {data : Bytes} (short : data.length < 4) :
    parseLoop deserialize (fuel + 1) records data = .ok (.ok ⟨records⟩) := by
  rw [parseLoop,if_neg (by omega),Outcome.pure_ok]

theorem parseLoop_framed {fuel : Nat} (before : List Record) {records : List Record} {front rest : Bytes}
    (framed : Framed deserialize front records) (enough : (front ++ rest).length < fuel) :
    ∃ left, rest.length < left ∧
      parseLoop deserialize fuel before (front ++ rest) = parseLoop deserialize left (before ++ records) rest := by
  induction framed generalizing fuel before with
  | nil => exact ⟨fuel,by simpa using enough,by simp⟩
  | @cons field part _ record _ four size reads more ih =>
    obtain ⟨fuel,rfl⟩ := Nat.exists_eq_succ_of_ne_zero (Nat.ne_zero_of_lt enough)
    simp only [List.length_append,List.append_assoc] at enough ih ⊢
    obtain ⟨left,turns,goes⟩ := @ih fuel (before ++ [record]) (by omega)
    refine ⟨left,turns,?_⟩
    rw [parseLoop_record four size,reads]
    simpa using goes

theorem LengthsFit.later {field part rest : Bytes} {record : Record}
    (fit : LengthsFit deserialize (field ++ (part ++ rest)))
    (four : field.length = 4) (size : fromLittleEndian field = part.length) (reads : deserialize part = .ok record) :
    LengthsFit deserialize rest := by
  intro front records next behind shape framed
  refine fit _ _ next behind ?_ (.cons four size reads framed)
  rw [shape]
  simp

theorem parseLoop_returns {fuel : Nat} {before : List Record} {data : Bytes} (enough : data.length < fuel)
    (fit : LengthsFit deserialize data) : (parseLoop deserialize fuel before data).Returns := by
  induction fuel generalizing before data with
  | zero => omega
  | succ fuel ih =>
    by_cases short : data.length < 4
    · exact ⟨_,parseLoop_ends short⟩
    · obtain ⟨number,tail,small,rfl⟩ := starts_with_number (Nat.le_of_not_lt short)
      have four := littleEndian_length 4 number
      have within := fit [] [] _ tail rfl .nil four
      obtain ⟨part,rest,rfl,size⟩ : ∃ part rest, tail = part ++ rest ∧
        part.length = fromLittleEndian (littleEndian 4 number) :=
        ⟨_,_,(List.take_append_drop _ tail).symm,List.length_take_of_le within⟩
      rw [parseLoop_record four size.symm]
      cases reads : deserialize part with
      | error e => exact ⟨_,rfl⟩
      | ok record =>
        refine ih ?_ (fit.later four size.symm reads)
        simp only [List.length_append] at enough
        omega

theorem parse_cut {front field rest : Bytes} {records : List Record} (framed : Framed deserialize front records)
    (four : field.length = 4) (large : rest.length < fromLittleEndian field) :
    Recording.parse deserialize (front ++ (field ++ rest)) = .error .bounds := by
  obtain ⟨left,enough,goes⟩ := parseLoop_framed [] framed (Nat.lt_succ_self _)
  obtain ⟨left,rfl⟩ := Nat.exists_eq_succ_of_ne_zero (Nat.ne_zero_of_lt enough)
  rw [Recording.parse,goes,parseLoop_cut four large]

theorem parse_framed {front : Bytes} {records : List Record} (framed : Framed deserialize front records) (rest : Bytes)
    (short : rest.length < 4) : Recording.parse deserialize (front ++ rest) = .ok (.ok ⟨records⟩) := by
  obtain ⟨left,enough,goes⟩ := parseLoop_framed [] framed (Nat.lt_succ_self _)
  obtain ⟨left,rfl⟩ := Nat.exists_eq_succ_of_ne_zero (Nat.ne_zero_of_lt enough)
  rw [Recording.parse,goes,parseLoop_ends short,List.nil_append]

/-- Parsing returns exactly where no length field that it reaches is too large. -/
theorem parse_returns (data : Bytes) :
    (∃ result, Recording.parse deserialize data = .ok result) ↔ LengthsFit deserialize data := by
  constructor
  · rintro ⟨result,returns⟩ front records field rest rfl framed four
    by_contra large
    rw [parse_cut framed four (Nat.lt_of_not_le large)] at returns
    simp at returns
  · exact parseLoop_returns (Nat.lt_succ_self _)

/-- A file that was cut holds some of its records, and then less than a length, or a length
and less than the record behind it. -/
theorem Framed.cut {file : Bytes} {records : List Record} (framed : Framed deserialize file records) (count : Nat) :
    ∃ front whole rest, Framed deserialize front whole ∧ whole <+: records ∧ file.take count = front ++ rest ∧
      (rest.length < 4 ∨
        ∃ field part, rest = field ++ part ∧ field.length = 4 ∧ part.length < fromLittleEndian field) := by
  induction framed generalizing count with
  | nil => exact ⟨[],[],[],.nil,List.prefix_rfl,by simp,.inl (by simp)⟩
  | @cons field part rest record records four size reads more ih =>
    by_cases short : count < 4
    · refine ⟨[],[],_,.nil,List.nil_prefix,rfl,.inl ?_⟩
      rw [List.length_take]
      omega
    · have behind : (field ++ (part ++ rest)).take count = field ++ (part ++ rest).take (count - 4) := by
        rw [List.take_append,four,List.take_of_length_le (by omega)]
      by_cases inside : count - 4 < part.length
      · refine ⟨[],[],_,.nil,List.nil_prefix,behind,.inr ⟨field,_,rfl,four,?_⟩⟩
        rw [List.length_take,size]
        omega
      · obtain ⟨front,whole,left,framed,first,shape,ends⟩ := ih (count - 4 - part.length)
        refine ⟨_,record :: whole,left,.cons four size reads framed,?_,?_,ends⟩
        · rw [List.cons_prefix_cons]
          exact ⟨rfl,first⟩
        · rw [behind,List.take_append,List.take_of_length_le (by omega),shape]
          simp

/-- A cut recording reads as the first of its records, or crashes. -/
theorem parse_take {file : Bytes} {records : List Record} (framed : Framed deserialize file records) (count : Nat) :
    Recording.parse deserialize (file.take count) = .error .bounds ∨
      ∃ whole, whole <+: records ∧ Recording.parse deserialize (file.take count) = .ok (.ok ⟨whole⟩) := by
  obtain ⟨front,whole,rest,framed,first,shape,short | ⟨field,part,rfl,four,large⟩⟩ := framed.cut count
  · rw [shape]
    exact .inr ⟨whole,first,parse_framed framed rest short⟩
  · rw [shape]
    exact .inl (parse_cut framed four large)

/-- The record is written with its whole length, and bincode reads it back. -/
def Storable (serialize : Record → Except ε Bytes) (deserialize : Bytes → Except ε Record) (record : Record) : Prop :=
  ∃ data, serialize record = .ok data ∧ data.length < 2 ^ 32 ∧ deserialize data = .ok record

variable {serialize}

theorem acceptAll_framed {records : List Record} (storable : ∀ record ∈ records, Storable serialize deserialize record)
    (recording : DiskRecording) : ∃ written,
      recording.acceptAll serialize records = .ok ⟨recording.file ++ written⟩ ∧ Framed deserialize written records := by
  induction records generalizing recording with
  | nil => exact ⟨[],by simp [DiskRecording.acceptAll],.nil⟩
  | cons record records ih =>
    obtain ⟨data,serialized,short,reads⟩ := storable record List.mem_cons_self
    have whole : asU32 data.length = data.length := Nat.mod_eq_of_lt short
    have accepted : recording.accept serialize record = .ok ⟨recording.file ++ littleEndian 4 data.length ++ data⟩ := by
      rw [DiskRecording.accept,serialized,Except.toOption,Outcome.unwrap,Outcome.ok_bind,whole,Outcome.pure_ok]
    obtain ⟨written,rest,framed⟩ := ih (fun other member => storable other (List.mem_cons_of_mem _ member))
      ⟨recording.file ++ littleEndian 4 data.length ++ data⟩
    refine ⟨littleEndian 4 data.length ++ (data ++ written),?_,
      .cons (littleEndian_length 4 _) (from_littleEndian short) reads framed⟩
    rw [DiskRecording.acceptAll,List.foldlM_cons,accepted,Outcome.ok_bind]
    simpa [DiskRecording.acceptAll] using rest

/-- The file of a recording reads as the recording, and is the file of no other. -/
theorem recording_reads (serialize : Record → Except ε Bytes) (deserialize : Bytes → Except ε Record)
    (records : List Record) (storable : ∀ record ∈ records, Storable serialize deserialize record) :
    ∃ recording, (DiskRecording.new []).acceptAll serialize records = .ok recording ∧
      Recording.parse deserialize recording.file = .ok (.ok ⟨records⟩) ∧
      ∀ others, (∀ record ∈ others, Storable serialize deserialize record) →
        (DiskRecording.new []).acceptAll serialize others = .ok recording → others = records := by
  obtain ⟨written,accepted,framed⟩ := acceptAll_framed storable (.new [])
  have read := parse_framed framed [] (by simp)
  rw [List.append_nil] at read
  refine ⟨_,accepted,by simpa [DiskRecording.new] using read,?_⟩
  intro others storable' same
  obtain ⟨again,accepted',framed'⟩ := acceptAll_framed storable' (.new [])
  obtain rfl : again = written := by
    rw [accepted'] at same
    simpa [DiskRecording.new] using same
  have read' := parse_framed framed' [] (by simp)
  rw [List.append_nil,read] at read'
  simpa [eq_comm] using read'

end

namespace Bincode

def vector (data : Bytes) : Bytes := littleEndian 8 data.length ++ data

def event : Event → Bytes
  | .input data => littleEndian 4 0 ++ vector data
  | .output data => littleEndian 4 1 ++ vector data
  | .config attrs =>
    littleEndian 4 2 ++ littleEndian 8 attrs.inputFlags.toNat ++ littleEndian 8 attrs.outputFlags.toNat ++
      littleEndian 8 attrs.controlFlags.toNat ++ littleEndian 8 attrs.localFlags.toNat ++ vector attrs.controlChars

def data (record : Record) : Bytes :=
  littleEndian 8 record.ts.secs.toNat ++ littleEndian 4 record.ts.nanos.toNat ++ event record.event

def serialize (record : Record) : Except String Bytes := .ok (data record)

def take (count : Nat) (data : Bytes) : Except String (Bytes × Bytes) :=
  if count ≤ data.length then .ok (data.take count,data.drop count) else .error "failed to fill whole buffer"

def number (width : Nat) (data : Bytes) : Except String (Nat × Bytes) := do
  let (field,data) ← take width data
  pure (fromLittleEndian field,data)

def readVector (data : Bytes) : Except String (Bytes × Bytes) := do
  let (length,data) ← number 8 data
  take length data

def readEvent (data : Bytes) : Except String Event := do
  let (variant,data) ← number 4 data
  if variant = 0 then do
    let (data,_) ← readVector data
    pure (.input data)
  else if variant = 1 then do
    let (data,_) ← readVector data
    pure (.output data)
  else if variant = 2 then do
    let (inputFlags,data) ← number 8 data
    let (outputFlags,data) ← number 8 data
    let (controlFlags,data) ← number 8 data
    let (localFlags,data) ← number 8 data
    let (controlChars,_) ← readVector data
    pure (.config ⟨inputFlags.toUInt64,outputFlags.toUInt64,controlFlags.toUInt64,localFlags.toUInt64,controlChars⟩)
  else .error "invalid value"

/-- `Duration::new`, which carries whole seconds over. That it panics where they overflow is an
error here. -/
def duration (secs nanos : Nat) : Except String Duration :=
  if secs + nanos / 10 ^ 9 < 2 ^ 64 then .ok ⟨(secs + nanos / 10 ^ 9).toUInt64,(nanos % 10 ^ 9).toUInt32⟩
  else .error "overflow in Duration::new"

def deserialize (data : Bytes) : Except String Record := do
  let (secs,data) ← number 8 data
  let (nanos,data) ← number 4 data
  let ts ← duration secs nanos
  let event ← readEvent data
  pure ⟨ts,event⟩

theorem take_append {count : Nat} {front : Bytes} (size : front.length = count) (rest : Bytes) :
    take count (front ++ rest) = .ok (front,rest) := by
  subst size
  simp [take]

theorem number_reads {width value : Nat} (fits : value < 256 ^ width) (rest : Bytes) :
    number width (littleEndian width value ++ rest) = .ok (value,rest) := by
  rw [number,take_append (littleEndian_length width value)]
  simp [bind,Except.bind,pure,Except.pure,from_littleEndian fits]

theorem vector_reads (data : Bytes) (fits : data.length < 256 ^ 8) (rest : Bytes) :
    readVector (vector data ++ rest) = .ok (data,rest) := by
  rw [readVector,vector,List.append_assoc,number_reads fits]
  exact take_append rfl rest

theorem event_reads {item : Event} (fits : (event item).length < 256 ^ 8) : readEvent (event item) = .ok item := by
  cases item with
  | input data =>
    have reads := vector_reads data (by simp [event,vector] at fits; omega) []
    rw [List.append_nil] at reads
    rw [event,readEvent,number_reads (by decide)]
    simp [bind,Except.bind,pure,Except.pure,reads]
  | output data =>
    have reads := vector_reads data (by simp [event,vector] at fits; omega) []
    rw [List.append_nil] at reads
    rw [event,readEvent,number_reads (by decide)]
    simp [bind,Except.bind,pure,Except.pure,reads]
  | config attrs =>
    have reads := vector_reads attrs.controlChars (by simp [event,vector] at fits; omega) []
    rw [List.append_nil] at reads
    simp only [event,readEvent,List.append_assoc]
    rw [number_reads (by decide)]
    have flags (value : UInt64) (rest : Bytes) :
        number 8 (littleEndian 8 value.toNat ++ rest) = .ok (value.toNat,rest) := number_reads value.toNat_lt rest
    simp [bind,Except.bind,pure,Except.pure,flags,reads]

theorem duration_reads {ts : Duration} (below : ts.nanos.toNat < 10 ^ 9) :
    duration ts.secs.toNat ts.nanos.toNat = .ok ts := by
  rw [duration,Nat.div_eq_of_lt below,Nat.mod_eq_of_lt below,Nat.add_zero,if_pos ts.secs.toNat_lt]
  simp

theorem storable {record : Record} (fits : record.ts.nanos.toNat < 10 ^ 9 ∧ (data record).length < 2 ^ 32) :
    Storable serialize deserialize record := by
  obtain ⟨below,short⟩ := fits
  refine ⟨data record,rfl,short,?_⟩
  have fits : (event record.event).length < 256 ^ 8 := by
    simp only [data,List.length_append] at short
    omega
  rw [data,deserialize,List.append_assoc,number_reads (by exact record.ts.secs.toNat_lt)]
  simp only [bind,Except.bind]
  rw [number_reads (by exact record.ts.nanos.toNat_lt)]
  simp [duration_reads below,event_reads fits,pure,Except.pure]

end Bincode

def sample : List Record :=
  [⟨⟨0,0⟩,.config ⟨17664,5,191,35387,[3,28,127]⟩⟩,⟨⟨0,250000000⟩,.output []⟩,⟨⟨1,7⟩,.input [108,115,10]⟩]

theorem sample_reads : ∃ recording, (DiskRecording.new []).acceptAll Bincode.serialize sample = .ok recording ∧
    Recording.parse Bincode.deserialize recording.file = .ok (.ok ⟨sample⟩) ∧
    ∀ others, (∀ record ∈ others, Storable Bincode.serialize Bincode.deserialize record) →
      (DiskRecording.new []).acceptAll Bincode.serialize others = .ok recording → others = sample := by
  apply recording_reads
  intro record member
  apply Bincode.storable
  revert record
  decide +kernel

/-- A recording that was interrupted one byte before the end of its last record. -/
theorem interrupted_crashes : ∃ recording, (DiskRecording.new []).acceptAll Bincode.serialize sample = .ok recording ∧
    Recording.parse Bincode.deserialize recording.file.dropLast = .error .bounds :=
  ⟨⟨_⟩,rfl,by decide +kernel⟩

end Nak.Recorder
