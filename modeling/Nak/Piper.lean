import Nak.Library.Slices
import Nak.Protocol

/-! The two pipes of the recorder: what a file descriptor answers a call, and the loops of
`pipe_some` over one buffer. -/
namespace Nak.Recorder
open Library

inductive Errno where
  | eagain
  | other (number : Int)
  deriving DecidableEq, Repr

inductive NixError where
  | sys (errno : Errno)
  | invalidPath
  | invalidUtf8
  | unsupportedOperation
  deriving DecidableEq, Repr

def errno : NixError → Outcome Errno
  | .sys errno => .ok errno
  | .invalidPath => .error .explicit
  | .invalidUtf8 => .error .explicit
  | .unsupportedOperation => .error .explicit

def wouldBlock : NixError := .sys .eagain

def capacity : Nat := 4096

/-- The descriptor that is read: what its calls will answer, and what they gave so far. An
answer without bytes is the end of the file. -/
structure Source where
  answers : List (Except NixError { data : Bytes // data.length ≤ capacity })
  taken : Bytes

/-- The descriptor that is written: what its calls will answer, and what they accepted so far. -/
structure Destination where
  answers : List (Except NixError Nat)
  accepted : Bytes

/-- The call writes what it read over the start of the buffer. It has not returned where the
answers end. -/
def Source.read (source : Source) (buf : Bytes) : Outcome (Except NixError Nat × Bytes × Source) :=
  match source.answers with
  | [] => .error .exhausted
  | .error e :: answers => .ok (.error e,buf,{ source with answers })
  | .ok data :: answers =>
    .ok (.ok data.val.length,data.val ++ buf.drop data.val.length,⟨answers,source.taken ++ data.val⟩)

def Destination.write (destination : Destination) (data : Bytes) : Outcome (Except NixError Nat × Destination) :=
  match destination.answers with
  | [] => .error .exhausted
  | .error e :: answers => .ok (.error e,{ destination with answers })
  | .ok n :: answers => .ok (.ok n,⟨answers,destination.accepted ++ data.take n⟩)

structure Piper where
  buf : Bytes
  read : Source
  write : Destination

structure EofData where
  data : Bytes
  eof : Bool
  deriving DecidableEq, Repr

namespace Piper

def new (read : Source) (write : Destination) : Piper := ⟨[],read,write⟩

/-- The loop over `offset`. -/
def writeLoop : Nat → Bytes → Nat → Piper → Outcome (Except NixError Bytes × Piper)
  | 0, _, _, _ => .error .exhausted
  | fuel + 1, chunk, offset, piper =>
    if offset < piper.buf.length then do
      let unsent ← sliceFrom piper.buf offset
      let (answer,write) ← piper.write.write unsent
      let piper := { piper with write }
      match answer with
      | .error e => do
        let piper := { piper with buf := unsent }
        let number ← errno e
        if number = .eagain then pure (.ok chunk,piper) else pure (.error e,piper)
      | .ok n =>
        if n = 0 then .error .explicit
        else do
          let sent ← slice piper.buf offset (offset + n)
          writeLoop fuel (chunk ++ sent) (offset + n) piper
    else pure (.ok chunk,piper)

section
variable (memory : Nat → UInt8)

/-- `set_len`. Behind the bytes of the buffer is whatever the memory holds there. -/
def setLen (length : Nat) (buf : Bytes) : Bytes :=
  buf.take length ++ (List.range' buf.length (length - buf.length)).map memory

def pipeLoop : Nat → Bytes → Piper → Outcome (Except NixError EofData × Piper)
  | 0, _, _ => .error .exhausted
  | fuel + 1, chunk, piper => do
    let (written,piper) ← writeLoop (piper.write.answers.length + 1) chunk 0 piper
    match written with
    | .error e => pure (.error e,piper)
    | .ok chunk => do
      let (answer,buf,read) ← piper.read.read (setLen memory capacity piper.buf)
      match answer with
      | .error e => do
        let piper := { piper with buf := [],read }
        let number ← errno e
        if number = .eagain then pure (.ok ⟨chunk,false⟩,piper) else pure (.error e,piper)
      | .ok n =>
        if n = 0 then pure (.ok ⟨chunk,true⟩,{ piper with buf,read })
        else pipeLoop fuel chunk { piper with buf := buf.take n,read }

def pipeSome (piper : Piper) : Outcome (Except NixError EofData × Piper) :=
  pipeLoop memory (piper.read.answers.length + 1) [] piper

/-- Successive calls that return `Ok` before the end of the file, with the data of each. -/
inductive Calls : Piper → List Bytes → Piper → Prop
  | none (piper : Piper) : Calls piper [] piper
  | call {piper next final : Piper} {data : Bytes} {datas : List Bytes}
      (returns : piper.pipeSome memory = .ok (.ok ⟨data,false⟩,next)) (later : Calls next datas final) :
      Calls piper (data :: datas) final

end

/-- Nothing that was read is lost: it was accepted, or it is in the buffer. -/
def Lossless (piper : Piper) : Prop := piper.read.taken = piper.write.accepted ++ piper.buf

/-- At least so many of the bytes that were read are neither accepted nor in the buffer. -/
def Lacks (lost : Nat) (piper : Piper) : Prop :=
  lost + piper.write.accepted.length + piper.buf.length ≤ piper.read.taken.length

/-- What the answers used up by some turns of the loop do to a piper. -/
structure Moves (piper : Piper) (used : List (Except NixError Nat)) (sent : Bytes) (next : Piper) : Prop where
  answers : piper.write.answers = used ++ next.write.answers
  accepted : next.write.accepted = piper.write.accepted ++ sent
  lossless : .error wouldBlock ∉ used → Lossless piper → Lossless next
  lacks : ∀ lost, Lacks lost piper → Lacks lost next
  loses : .error wouldBlock ∈ used → Lacks 0 piper → Lacks 1 next

namespace Moves
variable {piper next last : Piper} {used more : List (Except NixError Nat)} {sent rest : Bytes}

theorem refl (piper : Piper) : Moves piper [] [] piper where
  answers := by simp
  accepted := by simp
  lossless _ held := held
  lacks _ held := held
  loses blocked := by simp at blocked

theorem trans (first : Moves piper used sent next) (second : Moves next more rest last) :
    Moves piper (used ++ more) (sent ++ rest) last where
  answers := by rw [first.answers,second.answers,List.append_assoc]
  accepted := by rw [second.accepted,first.accepted,List.append_assoc]
  lossless clear held := by
    rw [List.mem_append,not_or] at clear
    exact second.lossless clear.2 (first.lossless clear.1 held)
  lacks lost held := second.lacks lost (first.lacks lost held)
  loses blocked held := by
    rcases List.mem_append.mp blocked with early | late
    · exact second.lacks 1 (first.loses early held)
    · exact second.loses late (first.lacks 0 held)

end Moves

theorem errno_eagain {e : NixError} {number : Errno} (known : errno e = .ok number) (again : number = .eagain) :
    e = wouldBlock := by
  subst again
  cases e <;> simp_all [errno,wouldBlock]

theorem writeLoop_cases {fuel offset : Nat} {chunk after : Bytes} {piper next : Piper}
    (returns : writeLoop (fuel + 1) chunk offset piper = .ok (.ok after,next)) :
    (piper.buf.length ≤ offset ∧ after = chunk ∧ next = piper) ∨
    ∃ answers, offset < piper.buf.length ∧
      ((piper.write.answers = .error wouldBlock :: answers ∧ after = chunk ∧
          next = { piper with buf := piper.buf.drop offset,write := ⟨answers,piper.write.accepted⟩ }) ∨
        ∃ n part, piper.write.answers = .ok n :: answers ∧ slice piper.buf offset (offset + n) = .ok part ∧
          writeLoop fuel (chunk ++ part) (offset + n)
            { piper with write := ⟨answers,piper.write.accepted ++ part⟩ } = .ok (.ok after,next)) := by
  rw [writeLoop] at returns
  split at returns
  · rename_i more
    obtain ⟨unsent,sliced,wrote⟩ := Outcome.bind_ok.mp returns
    obtain ⟨-,-,rfl⟩ := slice_ok.mp sliced
    rw [List.take_length] at wrote
    obtain ⟨⟨answer,write⟩,called,goes⟩ := Outcome.bind_ok.mp wrote
    unfold Destination.write at called
    split at called
    · simp at called
    · rename_i e answers waiting
      obtain ⟨rfl,rfl⟩ : _ = answer ∧ _ = write := by simpa using called
      obtain ⟨number,known,breaks⟩ := Outcome.bind_ok.mp goes
      split at breaks
      · rename_i again
        obtain rfl := errno_eagain known again
        obtain ⟨rfl,rfl⟩ : chunk = after ∧ _ = next := by simpa using breaks
        exact .inr ⟨answers,more,.inl ⟨waiting,rfl,rfl⟩⟩
      · simp at breaks
    · rename_i n answers waiting
      obtain ⟨rfl,rfl⟩ : _ = answer ∧ _ = write := by simpa using called
      dsimp only at goes
      split at goes
      · simp at goes
      · obtain ⟨part,sent,later⟩ := Outcome.bind_ok.mp goes
        obtain ⟨shape,size⟩ := slice_splits sent
        have size : part.length = n := by omega
        rw [shape,← size,List.take_left] at later
        rw [← size] at sent waiting
        exact .inr ⟨answers,more,.inr ⟨part.length,part,waiting,sent,later⟩⟩
  · obtain ⟨rfl,rfl⟩ : chunk = after ∧ piper = next := by simpa using returns
    exact .inl ⟨by omega,rfl,rfl⟩

/-- The loop over `offset` sends the rest of the buffer, or blocks with something unsent. -/
theorem writeLoop_sends {fuel offset : Nat} {chunk after : Bytes} {piper next : Piper}
    (within : offset ≤ piper.buf.length)
    (returns : writeLoop fuel chunk offset piper = .ok (.ok after,next)) :
    ∃ used sent, piper.write.answers = used ++ next.write.answers ∧ after = chunk ++ sent ∧
      next.write.accepted = piper.write.accepted ++ sent ∧ next.read = piper.read ∧
      (.error wouldBlock ∉ used → sent = piper.buf.drop offset) ∧
      (.error wouldBlock ∈ used → offset + sent.length < piper.buf.length) := by
  induction fuel generalizing chunk offset piper with
  | zero => simp [writeLoop] at returns
  | succ fuel ih =>
    rcases writeLoop_cases returns with ⟨done,rfl,rfl⟩ |
      ⟨answers,more,⟨waiting,rfl,rfl⟩ | ⟨n,part,waiting,sliced,later⟩⟩
    · refine ⟨[],[],by simp,by simp,by simp,rfl,?_,by simp⟩
      intro
      rw [List.drop_eq_nil_of_le done]
    · exact ⟨[.error wouldBlock],[],by simp [waiting],by simp,by simp,rfl,by simp,by simpa using more⟩
    · obtain ⟨-,fits,-⟩ := slice_ok.mp sliced
      obtain ⟨shape,size⟩ := slice_splits sliced
      obtain ⟨used,sent,same,rfl,accepted,read,clear,blocked⟩ := ih (by exact fits) later
      refine ⟨.ok n :: used,part ++ sent,by simpa [waiting] using same,by simp,by simpa using accepted,read,?_,?_⟩
      · intro none
        rw [shape,clear (by simpa using none)]
      · intro some
        have short : offset + n + sent.length < piper.buf.length := blocked (by simpa using some)
        rw [List.length_append]
        omega

section
variable {memory : Nat → UInt8}

theorem pipeLoop_cases {fuel : Nat} {chunk data : Bytes} {eof : Bool} {piper next : Piper}
    (returns : pipeLoop memory (fuel + 1) chunk piper = .ok (.ok ⟨data,eof⟩,next)) :
    ∃ after middle answers, writeLoop (piper.write.answers.length + 1) chunk 0 piper = .ok (.ok after,middle) ∧
      ((eof = false ∧ middle.read.answers = .error wouldBlock :: answers ∧ data = after ∧
          next = { middle with buf := [],read := ⟨answers,middle.read.taken⟩ }) ∨
        (eof = true ∧ data = after ∧ ∃ buf, next = { middle with buf,read := ⟨answers,middle.read.taken⟩ }) ∨
        ∃ got, middle.read.answers = .ok got :: answers ∧
          pipeLoop memory fuel after
            { middle with buf := got.val,read := ⟨answers,middle.read.taken ++ got.val⟩ } =
              .ok (.ok ⟨data,eof⟩,next)) := by
  rw [pipeLoop] at returns
  obtain ⟨⟨written,middle⟩,wrote,goes⟩ := Outcome.bind_ok.mp returns
  dsimp only at goes
  cases written with
  | error e => simp at goes
  | ok after =>
    obtain ⟨⟨answer,buf,read⟩,called,goes⟩ := Outcome.bind_ok.mp goes
    unfold Source.read at called
    split at called
    · simp at called
    · rename_i e answers waiting
      obtain ⟨rfl,rfl,rfl⟩ : _ = answer ∧ _ = buf ∧ _ = read := by simpa using called
      obtain ⟨number,known,breaks⟩ := Outcome.bind_ok.mp goes
      split at breaks
      · rename_i again
        obtain rfl := errno_eagain known again
        obtain ⟨⟨rfl,rfl⟩,rfl⟩ : (after = data ∧ false = eof) ∧ _ = next := by simpa using breaks
        exact ⟨_,middle,answers,wrote,.inl ⟨rfl,waiting,rfl,rfl⟩⟩
      · simp at breaks
    · rename_i got answers waiting
      obtain ⟨rfl,rfl,rfl⟩ : _ = answer ∧ _ = buf ∧ _ = read := by simpa using called
      dsimp only at goes
      split at goes
      · rename_i none
        rw [List.eq_nil_of_length_eq_zero none,List.append_nil] at goes
        obtain ⟨⟨rfl,rfl⟩,rfl⟩ : (after = data ∧ true = eof) ∧ _ = next := by simpa using goes
        exact ⟨_,middle,answers,wrote,.inr (.inl ⟨rfl,rfl,_,rfl⟩)⟩
      · rw [List.take_left] at goes
        exact ⟨after,middle,answers,wrote,.inr (.inr ⟨got,waiting,goes⟩)⟩

theorem turn_moves {fuel : Nat} {chunk after : Bytes} {piper middle : Piper} (fresh : Bytes)
    (answers : List (Except NixError { data : Bytes // data.length ≤ capacity }))
    (wrote : writeLoop fuel chunk 0 piper = .ok (.ok after,middle)) :
    ∃ used sent, after = chunk ++ sent ∧
      Moves piper used sent { middle with buf := fresh,read := ⟨answers,middle.read.taken ++ fresh⟩ } := by
  obtain ⟨used,sent,same,shape,accepted,read,clear,blocked⟩ := writeLoop_sends (Nat.zero_le _) wrote
  have most : sent.length ≤ piper.buf.length := by
    by_cases some : .error wouldBlock ∈ used
    · have short := blocked some
      omega
    · simp [clear some]
  refine ⟨used,sent,shape,same,accepted,?_,?_,?_⟩
  · intro none held
    unfold Lossless at held ⊢
    simp only [read,accepted,held,clear none,List.drop_zero]
  · intro lost held
    unfold Lacks at held ⊢
    simp only [read,accepted,List.length_append]
    omega
  · intro some held
    have short := blocked some
    unfold Lacks at held ⊢
    simp only [read,accepted,List.length_append]
    omega

theorem pipeLoop_moves {fuel : Nat} {chunk data : Bytes} {piper next : Piper}
    (returns : pipeLoop memory fuel chunk piper = .ok (.ok ⟨data,false⟩,next)) :
    ∃ used sent, data = chunk ++ sent ∧ Moves piper used sent next := by
  induction fuel generalizing chunk piper with
  | zero => simp [pipeLoop] at returns
  | succ fuel ih =>
    obtain ⟨after,middle,answers,wrote,⟨-,waiting,rfl,rfl⟩ | ⟨ended,-⟩ | ⟨got,waiting,later⟩⟩ := pipeLoop_cases returns
    · simpa using turn_moves [] answers wrote
    · cases ended
    · obtain ⟨used,sent,rfl,first⟩ := turn_moves got.val answers wrote
      obtain ⟨more,rest,rfl,second⟩ := ih later
      exact ⟨used ++ more,sent ++ rest,List.append_assoc _ _ _,first.trans second⟩

theorem calls_move {piper final : Piper} {datas : List Bytes} (calls : Calls memory piper datas final) :
    ∃ used, Moves piper used datas.flatten final := by
  induction calls with
  | none piper => exact ⟨[],.refl piper⟩
  | call returns later ih =>
    obtain ⟨used,sent,shape,first⟩ := pipeLoop_moves returns
    obtain ⟨more,second⟩ := ih
    rw [List.nil_append] at shape
    subst shape
    exact ⟨used ++ more,first.trans second⟩

end

/-- The calls keep every byte that was read, and return the bytes that were accepted, exactly
where no write of theirs would have blocked. -/
theorem calls_lossless (memory : Nat → UInt8)
    (reads : List (Except NixError { data : Bytes // data.length ≤ capacity }))
    (used rest : List (Except NixError Nat)) {datas : List Bytes} {final : Piper}
    (calls : Calls memory (new ⟨reads,[]⟩ ⟨used ++ rest,[]⟩) datas final) (left : final.write.answers = rest) :
    (Lossless final ∧ datas.flatten = final.write.accepted) ↔ .error wouldBlock ∉ used := by
  obtain ⟨taken,moves⟩ := calls_move calls
  obtain rfl : used = taken := by
    have same := moves.answers
    rw [left] at same
    exact List.append_cancel_right same
  have accepted : final.write.accepted = datas.flatten := by simpa [new] using moves.accepted
  constructor
  · rintro ⟨held,-⟩ blocked
    have lacking := moves.loses blocked (by simp [Lacks,new])
    have size := congrArg List.length held
    simp only [Lacks,List.length_append] at lacking size
    omega
  · intro clear
    exact ⟨moves.lossless clear (by simp [Lossless,new]),accepted.symm⟩

/-- Two calls with short writes. -/
theorem calls_lossless_short :
    (Lossless ⟨[],⟨[],[104,105,33]⟩,⟨[],[104,105,33]⟩⟩ ∧ [[104,105],[33]].flatten = ([104,105,33] : Bytes)) ↔
      (.error wouldBlock : Except NixError Nat) ∉ [.ok 1,.ok 1,.ok 1] := by
  have first : pipeSome (fun _ => 0) (new ⟨[.ok ⟨[104,105],by decide⟩,.error wouldBlock,.ok ⟨[33],by decide⟩,
      .error wouldBlock],[]⟩ ⟨[.ok 1,.ok 1,.ok 1],[]⟩) =
      .ok (.ok ⟨[104,105],false⟩,⟨[],⟨[.ok ⟨[33],by decide⟩,.error wouldBlock],[104,105]⟩,⟨[.ok 1],[104,105]⟩⟩) := rfl
  have second : pipeSome (fun _ => 0)
      ⟨[],⟨[.ok ⟨[33],by decide⟩,.error wouldBlock],[104,105]⟩,⟨[.ok 1],[104,105]⟩⟩ =
      .ok (.ok ⟨[33],false⟩,⟨[],⟨[],[104,105,33]⟩,⟨[],[104,105,33]⟩⟩) := rfl
  exact calls_lossless _ _ [.ok 1,.ok 1,.ok 1] [] (.call first (.call second (.none _))) rfl

/-- A write that takes one of two bytes and then would block: the other byte is dropped. -/
theorem blocked_write_drops :
    ∃ datas final, Calls (fun _ => 0) (new ⟨[.ok ⟨[104,105],by decide⟩,.error wouldBlock],[]⟩
        ⟨[.ok 1,.error wouldBlock],[]⟩) datas final ∧
      final.read.taken = [104,105] ∧ final.write.accepted = [104] ∧ final.buf = [] ∧ ¬Lossless final :=
  ⟨[[104]],⟨[],⟨[],[104,105]⟩,⟨[],[104]⟩⟩,.call (by rfl) (.none _),rfl,rfl,rfl,by simp [Lossless]⟩

end Piper
end Nak.Recorder
