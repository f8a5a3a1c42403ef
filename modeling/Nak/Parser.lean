import Nak.Grammar
import Nak.Library.Outcome
import Nak.Library.Utf8
import Nak.Protocol

/-! Parsing a command line: nested loops over the bytes of the input that share one cursor. -/
namespace Nak.Parse
open Library

structure Consume where
  chars : String
  text : Bytes
  pos : Nat

def space : UInt8 := 32
def quote : UInt8 := 34
def semicolon : UInt8 := 59
def bar : UInt8 := 124
def greater : UInt8 := 62

namespace Consume

def cur (input : Consume) : Option UInt8 := input.text[input.pos]?

def next (input : Consume) : Option UInt8 × Consume :=
  match input.cur with
  | some byte => (some byte,{ input with pos := input.pos + 1 })
  | none => (none,input)

/-- How many bytes are left, and so how often a loop that consumes can go round. -/
def left (input : Consume) : Nat := input.text.length - input.pos

/-- `chars[begin..end]` as a string of its own: both ends have to lie between characters. -/
def slice (input : Consume) (start stop : Nat) : Outcome String :=
  if within : start ≤ stop ∧ (⟨start⟩ : String.Pos.Raw).IsValid input.chars ∧
      (⟨stop⟩ : String.Pos.Raw).IsValid input.chars then
    .ok (input.chars.extract ⟨⟨start⟩,within.2.1⟩ ⟨⟨stop⟩,within.2.2⟩)
  else .error .bounds

end Consume

def skipLoop : Nat → Consume → Outcome Consume
  | 0, _ => .error .exhausted
  | fuel + 1, input =>
    if input.cur = some space then skipLoop fuel { input with pos := input.pos + 1 } else pure input

def skipWhitespace (input : Consume) : Outcome Consume := skipLoop (input.left + 1) input

def quoteLoop : Nat → Consume → Outcome Consume
  | 0, _ => .error .exhausted
  | fuel + 1, input =>
    match input.next with
    | (some byte,input) => if byte = quote then pure input else quoteLoop fuel input
    | (none,_) => .error .explicit

def parseQuote (input : Consume) : Outcome (Word × Consume) := do
  let (first,input) := input.next
  Outcome.assert (first = some quote)
  let start := input.pos
  let input ← quoteLoop (input.left + 1) input
  let text ← input.slice start (input.pos - 1)
  pure (.normal text,input)

def Stops (byte : UInt8) : Prop := byte = space ∨ byte = semicolon ∨ byte = bar ∨ byte = greater

instance (byte : UInt8) : Decidable (Stops byte) := inferInstanceAs (Decidable (_ ∨ _ ∨ _ ∨ _))

def wordLoop : Nat → Consume → Outcome Consume
  | 0, _ => .error .exhausted
  | fuel + 1, input =>
    match input.cur with
    | none => pure input
    | some byte =>
      if byte = quote then .error .explicit
      else if Stops byte then pure input
      else wordLoop fuel input.next.2

def parseWord (input : Consume) : Outcome (Word × Consume) :=
  if input.cur = some quote then parseQuote input
  else do
    let start := input.pos
    let input ← wordLoop (input.left + 1) input
    let text ← input.slice start input.pos
    pure (.normal text,input)

def Ends (cur : Option UInt8) : Prop :=
  cur = none ∨ cur = some semicolon ∨ cur = some bar ∨ cur = some greater

instance (cur : Option UInt8) : Decidable (Ends cur) := inferInstanceAs (Decidable (_ ∨ _ ∨ _ ∨ _))

def cmdLoop : Nat → List Word → Consume → Outcome (List Word × Consume)
  | 0, _, _ => .error .exhausted
  | fuel + 1, children, input => do
    let input ← skipWhitespace input
    if Ends input.cur then pure (children,input)
    else do
      let (word,input) ← parseWord input
      cmdLoop fuel (children ++ [word]) input

def parseCmd (input : Consume) : Outcome (Cmd × Consume) := do
  let (word,input) ← parseWord input
  let (words,input) ← cmdLoop (input.left + 1) [word] input
  pure (⟨none,words⟩,input)

/-- `panic!("{}", ch)` -/
def unexpected (byte : UInt8) : Panic := .expect (toString byte)

def pipeLoop : Nat → List (RedirectClause Ast) → Consume → Outcome (List (RedirectClause Ast) × Consume)
  | 0, _, _ => .error .exhausted
  | fuel + 1, children, input => do
    let input ← skipWhitespace input
    match input.cur with
    | none => pure (children,input)
    | some byte =>
      if byte = bar then do
        let input ← skipWhitespace input.next.2
        let (cmd,input) ← parseCmd input
        pipeLoop fuel (children ++ [⟨.stdout,.command (.cmd cmd)⟩]) input
      else if byte = greater then do
        let input ← skipWhitespace input.next.2
        let (word,input) ← parseWord input
        pipeLoop fuel (children ++ [⟨.stdout,.file word⟩]) input
      else if byte = semicolon then pure (children,input)
      else .error (unexpected byte)

def parsePipe (input : Consume) : Outcome (Ast × Consume) := do
  let (head,input) ← parseCmd input
  let (children,input) ← pipeLoop (input.left + 1) [] input
  pure (if children.length = 0 then .cmd head else .redirect (.cmd head) children,input)

def seqLoop : Nat → List (SequenceClause Ast) → Consume → Outcome (List (SequenceClause Ast) × Consume)
  | 0, _, _ => .error .exhausted
  | fuel + 1, children, input => do
    let input ← skipWhitespace input
    match input.cur with
    | none => pure (children,input)
    | some byte =>
      if byte = semicolon then do
        let input ← skipWhitespace input.next.2
        let (ast,input) ← parsePipe input
        seqLoop fuel (children ++ [⟨.wait,ast⟩]) input
      else .error (unexpected byte)

def parseSeq (input : Consume) : Outcome (Ast × Consume) := do
  let (head,input) ← parsePipe input
  let (children,input) ← seqLoop (input.left + 1) [] input
  pure (if children.length = 0 then head else .sequence head children,input)

def parseLine (input : Consume) : Outcome Ast := do
  let input ← skipWhitespace input
  if input.cur = none then pure .empty
  else do
    let (res,input) ← parseSeq input
    Outcome.assert (input.pos = input.text.length)
    pure res

def parseInput (input : String) : Outcome Ast := parseLine ⟨input,bytes input,0⟩

end Nak.Parse
