import Nak.Library.Traced
import Nak.ParserGrammar

/-! The parser once more, noting every slice that it takes and every turn of a loop that goes
on, and telling apart the places where it panics. -/
namespace Nak.ParseTrace
open Library Parse

inductive Loop where
  | skip
  | quote
  | word
  | cmd
  | pipe
  | seq
  deriving DecidableEq, Repr

/-- A slice of the text, or a turn of a loop from one position of the cursor to another. -/
inductive Note where
  | slice (start stop : Nat)
  | turn (loop : Loop) (start stop : Nat)
  deriving DecidableEq, Repr

/-- Where the parser panics. Among the clauses of a pipe it has read the last one before. -/
inductive Site where
  | noQuote
  | unclosedQuote
  | quoteInWord
  | slice
  | pipe (last : Option (RedirectClause Ast)) (byte : UInt8)
  | seq (byte : UInt8)
  | position
  | exhausted

def Site.panic : Site → Panic
  | .noQuote => .assertion
  | .unclosedQuote => .explicit
  | .quoteInWord => .explicit
  | .slice => .bounds
  | .pipe _ byte => unexpected byte
  | .seq byte => unexpected byte
  | .position => .assertion
  | .exhausted => .exhausted

abbrev Run (α : Type) := Traced Note Site α

def turn (loop : Loop) (before after : Consume) : Run Unit := .note (.turn loop before.pos after.pos)

def slice (input : Consume) (start stop : Nat) : Run String := do
  .note (.slice start stop)
  match input.slice start stop with
  | .ok text => pure text
  | .error _ => .fail .slice

def skipLoop : Nat → Consume → Run Consume
  | 0, _ => .fail .exhausted
  | fuel + 1, input =>
    if input.cur = some space then do
      let next := { input with pos := input.pos + 1 }
      turn .skip input next
      skipLoop fuel next
    else pure input

def skipWhitespace (input : Consume) : Run Consume := skipLoop (input.left + 1) input

def quoteLoop : Nat → Consume → Run Consume
  | 0, _ => .fail .exhausted
  | fuel + 1, input =>
    match input.next with
    | (some byte,next) =>
      if byte = quote then pure next
      else do
        turn .quote input next
        quoteLoop fuel next
    | (none,_) => .fail .unclosedQuote

def parseQuote (input : Consume) : Run (Word × Consume) := do
  let (first,input) := input.next
  .assert (first = some quote) .noQuote
  let start := input.pos
  let input ← quoteLoop (input.left + 1) input
  let text ← slice input start (input.pos - 1)
  pure (.normal text,input)

def wordLoop : Nat → Consume → Run Consume
  | 0, _ => .fail .exhausted
  | fuel + 1, input =>
    match input.cur with
    | none => pure input
    | some byte =>
      if byte = quote then .fail .quoteInWord
      else if Stops byte then pure input
      else do
        turn .word input input.next.2
        wordLoop fuel input.next.2

def parseWord (input : Consume) : Run (Word × Consume) :=
  if input.cur = some quote then parseQuote input
  else do
    let start := input.pos
    let input ← wordLoop (input.left + 1) input
    let text ← slice input start input.pos
    pure (.normal text,input)

def cmdLoop : Nat → List Word → Consume → Run (List Word × Consume)
  | 0, _, _ => .fail .exhausted
  | fuel + 1, children, input => do
    let skipped ← skipWhitespace input
    if Ends skipped.cur then pure (children,skipped)
    else do
      let (word,next) ← parseWord skipped
      turn .cmd input next
      cmdLoop fuel (children ++ [word]) next

def parseCmd (input : Consume) : Run (Cmd × Consume) := do
  let (word,input) ← parseWord input
  let (words,input) ← cmdLoop (input.left + 1) [word] input
  pure (⟨none,words⟩,input)

def pipeLoop : Nat → List (RedirectClause Ast) → Consume → Run (List (RedirectClause Ast) × Consume)
  | 0, _, _ => .fail .exhausted
  | fuel + 1, children, input => do
    let skipped ← skipWhitespace input
    match skipped.cur with
    | none => pure (children,skipped)
    | some byte =>
      if byte = bar then do
        let operand ← skipWhitespace skipped.next.2
        let (cmd,next) ← parseCmd operand
        turn .pipe input next
        pipeLoop fuel (children ++ [⟨.stdout,.command (.cmd cmd)⟩]) next
      else if byte = greater then do
        let operand ← skipWhitespace skipped.next.2
        let (word,next) ← parseWord operand
        turn .pipe input next
        pipeLoop fuel (children ++ [⟨.stdout,.file word⟩]) next
      else if byte = semicolon then pure (children,skipped)
      else .fail (.pipe children.getLast? byte)

def parsePipe (input : Consume) : Run (Ast × Consume) := do
  let (head,input) ← parseCmd input
  let (children,input) ← pipeLoop (input.left + 1) [] input
  pure (if children.length = 0 then .cmd head else .redirect (.cmd head) children,input)

def seqLoop : Nat → List (SequenceClause Ast) → Consume → Run (List (SequenceClause Ast) × Consume)
  | 0, _, _ => .fail .exhausted
  | fuel + 1, children, input => do
    let skipped ← skipWhitespace input
    match skipped.cur with
    | none => pure (children,skipped)
    | some byte =>
      if byte = semicolon then do
        let operand ← skipWhitespace skipped.next.2
        let (ast,next) ← parsePipe operand
        turn .seq input next
        seqLoop fuel (children ++ [⟨.wait,ast⟩]) next
      else .fail (.seq byte)

def parseSeq (input : Consume) : Run (Ast × Consume) := do
  let (head,input) ← parsePipe input
  let (children,input) ← seqLoop (input.left + 1) [] input
  pure (if children.length = 0 then head else .sequence head children,input)

def parseLine (input : Consume) : Run Ast := do
  let input ← skipWhitespace input
  if input.cur = none then pure .empty
  else do
    let (res,input) ← parseSeq input
    .assert (input.pos = input.text.length) .position
    pure res

def parseInput (input : String) : Run Ast := parseLine ⟨input,bytes input,0⟩

section Erasing
open Traced

theorem erase_turn {α : Type} (loop : Loop) (before after : Consume) (cont : Unit → Run α) :
    (turn loop before after >>= cont).erase Site.panic = (cont ()).erase Site.panic := rfl

theorem erase_slice (input : Consume) (start stop : Nat) :
    (slice input start stop).erase Site.panic = input.slice start stop := by
  unfold slice
  rw [erase_note]
  cases sliced : input.slice start stop with
  | ok text => rfl
  | error panic =>
    unfold Consume.slice at sliced
    split at sliced <;> cases sliced
    rfl

theorem erase_assert {α : Type} (condition : Prop) [Decidable condition] (site : Site) (named : site.panic = .assertion)
    (cont : Unit → Run α) : (Traced.assert condition site >>= cont).erase Site.panic =
      Outcome.assert condition >>= fun done => (cont done).erase Site.panic := by
  rw [erase_bind]
  unfold Traced.assert Outcome.assert
  split
  · rfl
  · rw [erase_fail,named]

theorem skipLoop_erases (fuel : Nat) (input : Consume) :
    (skipLoop fuel input).erase Site.panic = Parse.skipLoop fuel input := by
  induction fuel generalizing input with
  | zero => rfl
  | succ fuel ih =>
    rw [skipLoop,Parse.skipLoop]
    split
    · rw [erase_turn,ih]
    · rfl

theorem skipWhitespace_erases (input : Consume) :
    (skipWhitespace input).erase Site.panic = Parse.skipWhitespace input := skipLoop_erases _ _

theorem quoteLoop_erases (fuel : Nat) (input : Consume) :
    (quoteLoop fuel input).erase Site.panic = Parse.quoteLoop fuel input := by
  induction fuel generalizing input with
  | zero => rfl
  | succ fuel ih =>
    rw [quoteLoop,Parse.quoteLoop]
    cases cur : input.cur with
    | none =>
      rw [next_none cur]
      rfl
    | some byte =>
      rw [next_some cur]
      dsimp only
      split
      · rfl
      · rw [erase_turn,ih]

theorem parseQuote_erases (input : Consume) : (parseQuote input).erase Site.panic = Parse.parseQuote input := by
  unfold parseQuote Parse.parseQuote
  dsimp only
  rw [erase_assert _ _ (by rfl)]
  congr 1
  funext done
  rw [erase_bind,quoteLoop_erases]
  congr 1
  funext next
  rw [erase_bind,erase_slice]
  rfl

theorem wordLoop_erases (fuel : Nat) (input : Consume) :
    (wordLoop fuel input).erase Site.panic = Parse.wordLoop fuel input := by
  induction fuel generalizing input with
  | zero => rfl
  | succ fuel ih =>
    rw [wordLoop,Parse.wordLoop]
    cases input.cur with
    | none => rfl
    | some byte =>
      dsimp only
      split
      · rfl
      · split
        · rfl
        · rw [erase_turn,ih]

theorem parseWord_erases (input : Consume) : (parseWord input).erase Site.panic = Parse.parseWord input := by
  unfold parseWord Parse.parseWord
  split
  · exact parseQuote_erases input
  · dsimp only
    rw [erase_bind,wordLoop_erases]
    congr 1
    funext next
    rw [erase_bind,erase_slice]
    rfl

theorem cmdLoop_erases (fuel : Nat) (children : List Word) (input : Consume) :
    (cmdLoop fuel children input).erase Site.panic = Parse.cmdLoop fuel children input := by
  induction fuel generalizing children input with
  | zero => rfl
  | succ fuel ih =>
    rw [cmdLoop,Parse.cmdLoop,erase_bind,skipWhitespace_erases]
    congr 1
    funext skipped
    split
    · rfl
    · rw [erase_bind,parseWord_erases]
      congr 1
      funext read
      obtain ⟨word,next⟩ := read
      exact (erase_turn _ _ _ _).trans (ih _ _)

theorem parseCmd_erases (input : Consume) : (parseCmd input).erase Site.panic = Parse.parseCmd input := by
  unfold parseCmd Parse.parseCmd
  rw [erase_bind,parseWord_erases]
  congr 1
  funext read
  obtain ⟨word,input⟩ := read
  dsimp only
  rw [erase_bind,cmdLoop_erases]
  rfl

theorem pipeLoop_erases (fuel : Nat) (children : List (RedirectClause Ast)) (input : Consume) :
    (pipeLoop fuel children input).erase Site.panic = Parse.pipeLoop fuel children input := by
  induction fuel generalizing children input with
  | zero => rfl
  | succ fuel ih =>
    rw [pipeLoop,Parse.pipeLoop,erase_bind,skipWhitespace_erases]
    congr 1
    funext skipped
    cases skipped.cur with
    | none => rfl
    | some byte =>
      dsimp only
      split
      · rw [erase_bind,skipWhitespace_erases]
        congr 1
        funext operand
        rw [erase_bind,parseCmd_erases]
        congr 1
        funext read
        obtain ⟨cmd,next⟩ := read
        exact (erase_turn _ _ _ _).trans (ih _ _)
      · split
        · rw [erase_bind,skipWhitespace_erases]
          congr 1
          funext operand
          rw [erase_bind,parseWord_erases]
          congr 1
          funext read
          obtain ⟨word,next⟩ := read
          exact (erase_turn _ _ _ _).trans (ih _ _)
        · split <;> rfl

theorem parsePipe_erases (input : Consume) : (parsePipe input).erase Site.panic = Parse.parsePipe input := by
  unfold parsePipe Parse.parsePipe
  rw [erase_bind,parseCmd_erases]
  congr 1
  funext read
  obtain ⟨head,input⟩ := read
  dsimp only
  rw [erase_bind,pipeLoop_erases]
  rfl

theorem seqLoop_erases (fuel : Nat) (children : List (SequenceClause Ast)) (input : Consume) :
    (seqLoop fuel children input).erase Site.panic = Parse.seqLoop fuel children input := by
  induction fuel generalizing children input with
  | zero => rfl
  | succ fuel ih =>
    rw [seqLoop,Parse.seqLoop,erase_bind,skipWhitespace_erases]
    congr 1
    funext skipped
    cases skipped.cur with
    | none => rfl
    | some byte =>
      dsimp only
      split
      · rw [erase_bind,skipWhitespace_erases]
        congr 1
        funext operand
        rw [erase_bind,parsePipe_erases]
        congr 1
        funext read
        obtain ⟨ast,next⟩ := read
        exact (erase_turn _ _ _ _).trans (ih _ _)
      · rfl

theorem parseSeq_erases (input : Consume) : (parseSeq input).erase Site.panic = Parse.parseSeq input := by
  unfold parseSeq Parse.parseSeq
  rw [erase_bind,parsePipe_erases]
  congr 1
  funext read
  obtain ⟨head,input⟩ := read
  dsimp only
  rw [erase_bind,seqLoop_erases]
  rfl

/-- Without its notes the parser is the parser. -/
theorem parseInput_erases (input : String) : (parseInput input).erase Site.panic = Parse.parseInput input := by
  unfold parseInput Parse.parseInput parseLine Parse.parseLine
  rw [erase_bind,skipWhitespace_erases]
  congr 1
  funext skipped
  split
  · rfl
  · rw [erase_bind,parseSeq_erases]
    congr 1
    funext read
    obtain ⟨res,final⟩ := read
    exact erase_assert _ _ (by rfl) _

end Erasing

/-- A slice lies between characters of the line; a turn moves the cursor forward. -/
def Note.Sound (line : String) : Note → Prop
  | .slice start stop => start ≤ stop ∧ stop ≤ (bytes line).length ∧
      (⟨start⟩ : String.Pos.Raw).IsValid line ∧ (⟨stop⟩ : String.Pos.Raw).IsValid line
  | .turn _ start stop => start < stop

/-- A quote out of place, or the start of a word behind the operand of a redirection. -/
def Site.Expected (site : Site) : Prop :=
  site = .unclosedQuote ∨ site = .quoteInWord ∨
    ∃ operand byte, ¬Stops byte ∧ site = .pipe (some ⟨.stdout,.file operand⟩) byte

abbrev Safe {α : Type} (line : String) (result : α → Prop) (run : Run α) : Prop :=
  run.Meets (Note.Sound line) Site.Expected result

/-- The cursor is in the line, in front of these characters. -/
structure Stands (line : String) (input : Consume) (rest : List Char) : Prop where
  place : At input rest
  chars : input.chars = line

section
open Traced
variable {line : String} {input : Consume} {rest : List Char}

namespace Stands

theorem pos (stands : Stands line input rest) : input.pos + (utf8 rest).length = (bytes line).length := by
  obtain ⟨before,shape,pos⟩ := stands.place.split
  rw [← stands.chars,shape,bytes_ofList,utf8_append,List.length_append,pos]

theorem valid (stands : Stands line input rest) : (⟨input.pos⟩ : String.Pos.Raw).IsValid line := by
  obtain ⟨before,shape,pos⟩ := stands.place.split
  rw [← stands.chars,shape,pos]
  exact valid_between before rest

theorem advance {body after : List Char} (stands : Stands line input (body ++ after)) :
    Stands line { input with pos := input.pos + (utf8 body).length } after := ⟨stands.place.advance,stands.chars⟩

theorem step {mark : Char} {byte : UInt8} (stands : Stands line input (mark :: rest)) (marks : Marks mark byte) :
    Stands line { input with pos := input.pos + 1 } rest := ⟨(stands.place.step marks).2,stands.chars⟩

end Stands

theorem turn_safe {α : Type} {failure : Site → Prop} {result : α → Prop} {loop : Loop} {before after : Consume}
    {cont : Unit → Run α} (forward : before.pos < after.pos)
    (later : (cont ()).Meets (Note.Sound line) failure result) :
    (turn loop before after >>= cont).Meets (Note.Sound line) failure result := Meets.note (by exact forward) later

structure Skips (line : String) (input : Consume) (rest : List Char) (next : Consume) (after : List Char) : Prop where
  stands : Stands line next after
  apart : after.head? ≠ some ' '
  forward : input.pos ≤ next.pos
  stays : rest.head? ≠ some ' ' → after = rest

theorem skipLoop_safe (stands : Stands line input rest) (fuel : Nat) (enough : (utf8 rest).length < fuel) :
    Safe line (fun next => ∃ after, Skips line input rest next after) (skipLoop fuel input) := by
  induction fuel generalizing input rest with
  | zero => exact absurd enough (Nat.not_lt_zero _)
  | succ fuel ih =>
    rw [skipLoop]
    split
    · rename_i cur
      obtain ⟨rest,rfl⟩ := List.head?_eq_some_iff.mp ((stands.place.cur_eq marks_space).mp cur)
      have smaller := size_cons ' ' rest
      refine turn_safe (Nat.lt_succ_self _) ((ih (stands.step marks_space) (by omega)).weaken (fun _ _ held => held) ?_)
      rintro next - ⟨after,skips⟩
      exact ⟨after,skips.stands,skips.apart,Nat.le_of_succ_le skips.forward,fun spaced => absurd rfl spaced⟩
    · rename_i cur
      have apart := fun spaced => cur ((stands.place.cur_eq marks_space).mpr spaced)
      exact Meets.pure ⟨rest,stands,apart,Nat.le_refl _,fun _ => rfl⟩

theorem skipWhitespace_safe (stands : Stands line input rest) :
    Safe line (fun next => ∃ after, Skips line input rest next after) (skipWhitespace input) :=
  skipLoop_safe stands _ (by rw [stands.place.left]; exact Nat.lt_succ_self _)

theorem Skips.past {skipped operand next : Consume} {after more last : List Char}
    (skips : Skips line input rest skipped after)
    (skips' : Skips line { skipped with pos := skipped.pos + 1 } more operand last) (onward : operand.pos ≤ next.pos) :
    input.pos < next.pos :=
  Nat.lt_of_le_of_lt skips.forward (Nat.lt_of_succ_le (Nat.le_trans skips'.forward onward))

theorem quoteLoop_notes (fuel : Nat) (input : Consume) :
    (quoteLoop fuel input).Meets (Note.Sound line) (fun site => site = .unclosedQuote ∨ site = .exhausted)
      fun _ => True := by
  induction fuel generalizing input with
  | zero => exact Meets.fail (.inr rfl)
  | succ fuel ih =>
    rw [quoteLoop]
    cases cur : input.cur with
    | none =>
      rw [next_none cur]
      exact Meets.fail (.inl rfl)
    | some byte =>
      rw [next_some cur]
      dsimp only
      split
      · exact Meets.pure True.intro
      · exact turn_safe (Nat.lt_succ_self _) (ih _)

theorem wordLoop_notes (fuel : Nat) (input : Consume) :
    (wordLoop fuel input).Meets (Note.Sound line) (fun site => site = .quoteInWord ∨ site = .exhausted)
      fun _ => True := by
  induction fuel generalizing input with
  | zero => exact Meets.fail (.inr rfl)
  | succ fuel ih =>
    rw [wordLoop]
    cases cur : input.cur with
    | none => exact Meets.pure True.intro
    | some byte =>
      dsimp only
      split
      · exact Meets.fail (.inl rfl)
      · split
        · exact Meets.pure True.intro
        · rw [next_some cur]
          exact turn_safe (Nat.lt_succ_self _) (ih _)

theorem quoteLoop_safe (stands : Stands line input rest) :
    Safe line (fun next => ∃ body after, rest = body ++ '"' :: after ∧
      next = { input with pos := input.pos + (utf8 body).length + 1 }) (quoteLoop (input.left + 1) input) := by
  have erased := quoteLoop_erases (input.left + 1) input
  rcases quoteLoop_reads stands.place with ⟨body,after,shape,_,reads⟩ | ⟨_,reads⟩
  · rw [reads] at erased
    refine (quoteLoop_notes _ _).weaken ?_ ?_
    · intro site came _
      cases erase_error erased came
    · intro next came _
      exact ⟨body,after,shape,(Except.ok.inj (erase_ok erased came)).symm⟩
  · rw [reads] at erased
    refine (quoteLoop_notes _ _).weaken ?_ ?_
    · rintro site came (rfl | rfl)
      · exact .inl rfl
      · cases erase_error erased came
    · intro next came _
      cases erase_ok erased came

theorem wordLoop_safe (stands : Stands line input rest) (bare : rest.head? ≠ some '"') :
    Safe line (fun next => ∃ body after, rest = body ++ after ∧ (∀ char ∈ body, Grammar.Plain char) ∧
      Grammar.Delimited after ∧ next = { input with pos := input.pos + (utf8 body).length })
        (wordLoop (input.left + 1) input) := by
  have erased := wordLoop_erases (input.left + 1) input
  obtain ⟨body,after,shape,plain,⟨delimited,reads⟩ | ⟨_,_,reads⟩⟩ := wordLoop_reads stands.place bare
  · rw [reads] at erased
    refine (wordLoop_notes _ _).weaken ?_ ?_
    · intro site came _
      cases erase_error erased came
    · intro next came _
      exact ⟨body,after,shape,plain,delimited,(Except.ok.inj (erase_ok erased came)).symm⟩
  · rw [reads] at erased
    refine (wordLoop_notes _ _).weaken ?_ ?_
    · rintro site came (rfl | rfl)
      · exact .inr (.inl rfl)
      · cases erase_error erased came
    · intro next came _
      cases erase_ok erased came

theorem slice_safe {body after : List Char} (stands : Stands line input (body ++ after)) (pos : Nat) :
    Safe line (fun text => text = .ofList body)
      (slice { input with pos } input.pos (input.pos + (utf8 body).length)) := by
  have last := stands.advance
  have within : input.pos + (utf8 body).length ≤ (bytes line).length := by
    rw [← last.pos]
    exact Nat.le_add_right _ _
  unfold slice
  refine Meets.note ⟨Nat.le_add_right _ _,within,stands.valid,last.valid⟩ ?_
  rw [stands.place.slice pos]
  exact Meets.pure rfl

/-- What is in front of the cursor after a word: it moves, unless no word begins there. -/
structure Reads (line : String) (input : Consume) (rest : List Char) (next : Consume) (after : List Char) : Prop where
  stands : Stands line next after
  forward : input.pos ≤ next.pos
  moves : ¬Starts rest → input.pos < next.pos
  stays : Starts rest → after = rest

theorem plain_starts {char : Char} (plain : Grammar.Plain char) : ¬Starts (char :: rest) := by
  obtain ⟨_,_,other⟩ := plain
  rintro (none | same | same | same)
  · cases none
  · cases same
    cases other
  · cases same
    cases other
  · cases same
    cases other

theorem parseQuote_safe (stands : Stands line input ('"' :: rest)) :
    Safe line (fun read => ∃ after, Reads line input ('"' :: rest) read.2 after) (parseQuote input) := by
  obtain ⟨cur,-⟩ := stands.place.step marks_quote
  have inside := stands.step marks_quote
  unfold parseQuote
  rw [next_some cur]
  dsimp only
  rw [assert_bind rfl]
  refine Meets.bind (quoteLoop_safe inside) ?_
  rintro next ⟨body,after,rfl,rfl⟩
  dsimp only
  rw [Nat.add_sub_cancel]
  refine Meets.bind (slice_safe inside _) fun text _ => Meets.pure ?_
  refine ⟨after,inside.advance.step marks_quote,?_,?_,?_⟩
  · dsimp only
    omega
  · intro _
    dsimp only
    omega
  · rintro (none | same | same | same)
    · cases none
    · cases same
    · cases same
    · cases same

theorem parseWord_safe (stands : Stands line input rest) (apart : rest.head? ≠ some ' ') :
    Safe line (fun read => ∃ after, Reads line input rest read.2 after) (parseWord input) := by
  unfold parseWord
  by_cases quoted : rest.head? = some '"'
  · obtain ⟨rest,rfl⟩ := List.head?_eq_some_iff.mp quoted
    rw [if_pos (stands.place.step marks_quote).1]
    exact parseQuote_safe stands
  · rw [if_neg fun cur => quoted ((stands.place.cur_eq marks_quote).mp cur)]
    refine Meets.bind (wordLoop_safe stands quoted) ?_
    rintro next ⟨body,after,rfl,plain,delimited,rfl⟩
    refine Meets.bind (slice_safe stands _) fun text _ => Meets.pure ⟨after,stands.advance,?_,?_,?_⟩
    · exact Nat.le_add_right _ _
    · intro word
      cases body with
      | nil => exact absurd (delimited_starts delimited apart) word
      | cons char body =>
        have size := size_cons char body
        dsimp only
        omega
    · intro starts
      cases body with
      | nil => rfl
      | cons char body => exact absurd starts (plain_starts (plain char List.mem_cons_self))

def Ended (line : String) (input : Consume) (next : Consume) : Prop :=
  ∃ after, Stands line next after ∧ Starts after ∧ input.pos ≤ next.pos

theorem Stands.fewer {next : Consume} {after : List Char} (stands : Stands line input rest)
    (later : Stands line next after)
    (forward : input.pos < next.pos) : (utf8 after).length < (utf8 rest).length := by
  have whole := stands.pos
  have part := later.pos
  omega

theorem Stands.enough (stands : Stands line input rest) : (utf8 rest).length < input.left + 1 := by
  rw [stands.place.left]
  exact Nat.lt_succ_self _

theorem cmdLoop_safe (fuel : Nat) (children : List Word) (stands : Stands line input rest)
    (enough : (utf8 rest).length < fuel) :
    Safe line (fun read => Ended line input read.2) (cmdLoop fuel children input) := by
  induction fuel generalizing children input rest with
  | zero => exact absurd enough (Nat.not_lt_zero _)
  | succ fuel ih =>
    rw [cmdLoop]
    refine Meets.bind (skipWhitespace_safe stands) ?_
    rintro skipped ⟨after,skips⟩
    split
    · rename_i ends
      exact Meets.pure ⟨after,skips.stands,(ends_iff skips.stands.place).mp ends,skips.forward⟩
    · rename_i goes
      refine Meets.bind (parseWord_safe skips.stands skips.apart) ?_
      rintro ⟨word,next⟩ ⟨more,reads⟩
      have moved := reads.moves fun starts => goes ((ends_iff skips.stands.place).mpr starts)
      have forward := Nat.lt_of_le_of_lt skips.forward moved
      have fewer := stands.fewer reads.stands forward
      refine turn_safe forward ((ih _ reads.stands (by omega)).weaken (fun _ _ held => held) ?_)
      rintro read - ⟨last,placed,starts,onward⟩
      exact ⟨last,placed,starts,Nat.le_trans (Nat.le_of_lt forward) onward⟩

theorem parseCmd_safe (stands : Stands line input rest) (apart : rest.head? ≠ some ' ') :
    Safe line (fun read => Ended line input read.2) (parseCmd input) := by
  unfold parseCmd
  refine Meets.bind (parseWord_safe stands apart) ?_
  rintro ⟨word,next⟩ ⟨after,reads⟩
  refine Meets.bind (cmdLoop_safe _ _ reads.stands reads.stands.enough) ?_
  rintro ⟨words,final⟩ ⟨last,placed,starts,onward⟩
  exact Meets.pure ⟨last,placed,starts,Nat.le_trans reads.forward onward⟩

/-- Where the loop over the clauses stands: a command ends there, or it follows the operand
of a redirection. -/
def Follows (children : List (RedirectClause Ast)) (rest : List Char) : Prop :=
  Starts rest ∨ ∃ word, children.getLast? = some ⟨.stdout,.file word⟩

def Closed (line : String) (input : Consume) (next : Consume) : Prop :=
  ∃ after, Stands line next after ∧ (after = [] ∨ after.head? = some ';') ∧ input.pos ≤ next.pos

theorem Closed.later {before next : Consume} (closed : Closed line input next) (forward : before.pos ≤ input.pos) :
    Closed line before next := by
  obtain ⟨after,placed,ends,onward⟩ := closed
  exact ⟨after,placed,ends,Nat.le_trans forward onward⟩

theorem starts_apart (starts : Starts rest) : rest.head? ≠ some ' ' := by
  intro spaced
  rw [Starts,spaced] at starts
  rcases starts with none | same | same | same
  · cases none
  · cases same
  · cases same
  · cases same

/-- A byte that no arm takes begins a word, and only the operand of a redirection has one behind it. -/
theorem unclaimed_expected {children : List (RedirectClause Ast)} {skipped : Consume} {after : List Char} {byte : UInt8}
    (follows : Follows children rest) (skips : Skips line input rest skipped after) (cur : skipped.cur = some byte)
    (piped : byte ≠ bar) (redirected : byte ≠ greater) (sequenced : byte ≠ semicolon) :
    Site.Expected (.pipe children.getLast? byte) := by
  have word : ¬Starts after := by
    intro starts
    rcases (ends_iff skips.stands.place).mpr starts with none | same | same | same
    · simp [cur] at none
    · exact sequenced (Option.some.inj (cur.symm.trans same))
    · exact piped (Option.some.inj (cur.symm.trans same))
    · exact redirected (Option.some.inj (cur.symm.trans same))
  rcases follows with starts | ⟨operand,last⟩
  · rw [skips.stays (starts_apart starts)] at word
    exact absurd starts word
  · rw [last]
    refine .inr (.inr ⟨operand,byte,?_,rfl⟩)
    rintro (rfl | rfl | rfl | rfl)
    · exact skips.apart ((skips.stands.place.cur_eq marks_space).mp cur)
    · exact sequenced rfl
    · exact piped rfl
    · exact redirected rfl

theorem pipeLoop_safe (fuel : Nat) (children : List (RedirectClause Ast)) (stands : Stands line input rest)
    (follows : Follows children rest) (enough : (utf8 rest).length < fuel) :
    Safe line (fun read => Closed line input read.2) (pipeLoop fuel children input) := by
  induction fuel generalizing children input rest with
  | zero => exact absurd enough (Nat.not_lt_zero _)
  | succ fuel ih =>
    rw [pipeLoop]
    refine Meets.bind (skipWhitespace_safe stands) ?_
    rintro skipped ⟨after,skips⟩
    cases cur : skipped.cur with
    | none =>
      exact Meets.pure ⟨after,skips.stands,.inl ((skips.stands.place.cur_none).mp cur),skips.forward⟩
    | some byte =>
      dsimp only
      rw [next_some cur]
      by_cases piped : byte = bar
      · subst piped
        rw [if_pos rfl]
        obtain ⟨after,rfl⟩ := List.head?_eq_some_iff.mp ((skips.stands.place.cur_eq marks_bar).mp cur)
        refine Meets.bind (skipWhitespace_safe (skips.stands.step marks_bar)) ?_
        rintro operand ⟨more,skips'⟩
        refine Meets.bind (parseCmd_safe skips'.stands skips'.apart) ?_
        rintro ⟨cmd,next⟩ ⟨last,placed,starts,onward⟩
        have forward := skips.past skips' onward
        have fewer := stands.fewer placed forward
        refine turn_safe forward ((ih _ placed (.inl starts) (by omega)).weaken (fun _ _ held => held) ?_)
        exact fun read _ closed => closed.later (Nat.le_of_lt forward)
      · rw [if_neg piped]
        by_cases redirected : byte = greater
        · subst redirected
          rw [if_pos rfl]
          obtain ⟨after,rfl⟩ := List.head?_eq_some_iff.mp ((skips.stands.place.cur_eq marks_greater).mp cur)
          refine Meets.bind (skipWhitespace_safe (skips.stands.step marks_greater)) ?_
          rintro operand ⟨more,skips'⟩
          refine Meets.bind (parseWord_safe skips'.stands skips'.apart) ?_
          rintro ⟨word,next⟩ ⟨last,reads⟩
          have forward := skips.past skips' reads.forward
          have fewer := stands.fewer reads.stands forward
          refine turn_safe forward ((ih _ reads.stands (.inr ⟨word,List.getLast?_concat⟩) (by omega)).weaken
            (fun _ _ held => held) ?_)
          exact fun read _ closed => closed.later (Nat.le_of_lt forward)
        · rw [if_neg redirected]
          by_cases sequenced : byte = semicolon
          · subst sequenced
            rw [if_pos rfl]
            exact Meets.pure ⟨after,skips.stands,.inr ((skips.stands.place.cur_eq marks_semicolon).mp cur),
              skips.forward⟩
          · rw [if_neg sequenced]
            exact Meets.fail (unclaimed_expected follows skips cur piped redirected sequenced)

theorem parsePipe_safe (stands : Stands line input rest) (apart : rest.head? ≠ some ' ') :
    Safe line (fun read => Closed line input read.2) (parsePipe input) := by
  unfold parsePipe
  refine Meets.bind (parseCmd_safe stands apart) ?_
  rintro ⟨head,next⟩ ⟨after,placed,starts,onward⟩
  refine Meets.bind (pipeLoop_safe _ _ placed (.inl starts) placed.enough) ?_
  rintro ⟨children,final⟩ closed
  exact Meets.pure (closed.later onward)

theorem seqLoop_safe (fuel : Nat) (children : List (SequenceClause Ast)) (stands : Stands line input rest)
    (ends : rest = [] ∨ rest.head? = some ';') (enough : (utf8 rest).length < fuel) :
    Safe line (fun read => Stands line read.2 []) (seqLoop fuel children input) := by
  induction fuel generalizing children input rest with
  | zero => exact absurd enough (Nat.not_lt_zero _)
  | succ fuel ih =>
    have starts : Starts rest := ends.elim (fun none => .inl (by rw [none]; rfl)) fun same => .inr (.inl same)
    rw [seqLoop]
    refine Meets.bind (skipWhitespace_safe stands) ?_
    rintro skipped ⟨after,skips⟩
    obtain rfl := skips.stays (starts_apart starts)
    rcases ends with rfl | first
    · rw [(skips.stands.place.cur_none).mpr rfl]
      exact Meets.pure skips.stands
    · obtain ⟨rest,rfl⟩ := List.head?_eq_some_iff.mp first
      have cur := (skips.stands.place.step marks_semicolon).1
      rw [cur]
      dsimp only
      rw [if_pos rfl,next_some cur]
      refine Meets.bind (skipWhitespace_safe (skips.stands.step marks_semicolon)) ?_
      rintro operand ⟨more,skips'⟩
      refine Meets.bind (parsePipe_safe skips'.stands skips'.apart) ?_
      rintro ⟨ast,next⟩ ⟨last,placed,ends,onward⟩
      have forward := skips.past skips' onward
      have fewer := stands.fewer placed forward
      exact turn_safe forward (ih _ placed ends (by omega))

theorem parseSeq_safe (stands : Stands line input rest) (apart : rest.head? ≠ some ' ') :
    Safe line (fun read => Stands line read.2 []) (parseSeq input) := by
  unfold parseSeq
  refine Meets.bind (parsePipe_safe stands apart) ?_
  rintro ⟨head,next⟩ ⟨after,placed,ends,-⟩
  refine Meets.bind (seqLoop_safe _ _ placed ends placed.enough) ?_
  rintro ⟨children,final⟩ ended
  exact Meets.pure ended

theorem parseInput_safe (line : String) : Safe line (fun _ => True) (parseInput line) := by
  unfold parseInput parseLine
  refine Meets.bind (skipWhitespace_safe ⟨At.start line,rfl⟩) ?_
  rintro input ⟨rest,skips⟩
  split
  · exact Meets.pure True.intro
  · refine Meets.bind (parseSeq_safe skips.stands skips.apart) ?_
    rintro ⟨res,final⟩ ended
    have whole : final.pos = final.text.length := by
      rw [ended.place.text,ended.chars,← ended.pos]
      rfl
    dsimp only
    rw [assert_bind whole]
    exact Meets.pure True.intro

/-- The parser slices every line between its characters, moves forward in every turn that goes
on, and panics for a quote out of place or a word behind the operand of a redirection only. -/
theorem parsing_sound (line : String) :
    (parseInput line).erase Site.panic = Parse.parseInput line ∧
      (∀ start stop, .slice start stop ∈ (parseInput line).log → start ≤ stop ∧ stop ≤ (bytes line).length ∧
        (⟨start⟩ : String.Pos.Raw).IsValid line ∧ (⟨stop⟩ : String.Pos.Raw).IsValid line) ∧
      (∀ loop start stop, .turn loop start stop ∈ (parseInput line).log → start < stop) ∧
      ∀ site, (parseInput line).outcome = .error site → site = .unclosedQuote ∨ site = .quoteInWord ∨
        ∃ operand byte, ¬Stops byte ∧ site = .pipe (some ⟨.stdout,.file operand⟩) byte := by
  have safe := parseInput_safe line
  exact ⟨parseInput_erases line,fun _ _ listed => safe.notes _ listed,fun _ _ _ listed => safe.notes _ listed,
    safe.fails⟩

end
end Nak.ParseTrace
