/-! What a command line is read as, and its grammar apart from how it is parsed: first its
tokens, then what the tokens of each segment between two `;` say. -/
namespace Nak.Parse

inductive Stream where
  | stdout
  | stderr
  deriving DecidableEq, Repr

inductive Word where
  | normal (text : String)
  deriving DecidableEq, Repr

def Word.expandString : Word → String
  | .normal text => text

inductive SequenceType where
  | wait
  | and
  | or
  deriving DecidableEq, Repr

structure Cmd where
  remote : Option String
  words : List Word
  deriving DecidableEq, Repr

inductive Target (α : Type) where
  | file (path : Word)
  | command (ast : α)

structure SequenceClause (α : Type) where
  kind : SequenceType
  ast : α

structure RedirectClause (α : Type) where
  stream : Stream
  target : Target α

inductive Ast where
  | empty
  | cmd (cmd : Cmd)
  | sequence (head : Ast) (clauses : List (SequenceClause Ast))
  | redirect (head : Ast) (clauses : List (RedirectClause Ast))

end Nak.Parse

namespace Nak.Grammar
open Parse

inductive Token where
  | word (text : String)
  | semicolon
  | pipe
  | redirect
  deriving DecidableEq, Repr

def operator (char : Char) : Option Token :=
  if char = ';' then some .semicolon
  else if char = '|' then some .pipe
  else if char = '>' then some .redirect
  else none

/-- Where the lexer is: the characters of the word it is in come first. -/
inductive Mode where
  | between
  | quoted (text : List Char)
  | bare (text : List Char)

def lexFrom : Mode → List Char → Option (List Token)
  | .between, [] => some []
  | .quoted _, [] => none
  | .bare text, [] => some [.word (.ofList text)]
  | .between, char :: rest =>
    if char = ' ' then lexFrom .between rest
    else if char = '"' then lexFrom (.quoted []) rest
    else match operator char with
      | some token => (lexFrom .between rest).map (token :: ·)
      | none => lexFrom (.bare [char]) rest
  | .quoted text, char :: rest =>
    if char = '"' then (lexFrom .between rest).map (.word (.ofList text) :: ·)
    else lexFrom (.quoted (text ++ [char])) rest
  | .bare text, char :: rest =>
    if char = ' ' then (lexFrom .between rest).map (.word (.ofList text) :: ·)
    else if char = '"' then none
    else match operator char with
      | some token => (lexFrom .between rest).map fun tokens => .word (.ofList text) :: token :: tokens
      | none => lexFrom (.bare (text ++ [char])) rest

def lex (chars : List Char) : Option (List Token) := lexFrom .between chars

/-- A command of no words is one of the empty word. -/
def command (words : List String) : Cmd :=
  ⟨none,(if words = [] then [""] else words).map .normal⟩

structure Pipeline where
  head : Cmd
  targets : List (Target Cmd)

def clause : Target Cmd → RedirectClause Ast
  | .file path => ⟨.stdout,.file path⟩
  | .command cmd => ⟨.stdout,.command (.cmd cmd)⟩

/-- A redirect exactly when there are clauses. -/
def Pipeline.ast (pipeline : Pipeline) : Ast :=
  if pipeline.targets = [] then .cmd pipeline.head
  else .redirect (.cmd pipeline.head) (pipeline.targets.map clause)

/-- What the tokens from some place of a segment on say: the words up to the next clause,
and the clauses. -/
structure Segment where
  words : List String
  targets : List (Target Cmd)

/-- The operand of `>` is the only word before the next clause. -/
def extend (segment : Segment) : Token → Option Segment
  | .word text => some { segment with words := text :: segment.words }
  | .pipe => some ⟨[],.command (command segment.words) :: segment.targets⟩
  | .redirect =>
    match segment.words with
    | [] => some ⟨[],.file (.normal "") :: segment.targets⟩
    | [path] => some ⟨[],.file (.normal path) :: segment.targets⟩
    | _ => none
  | .semicolon => none

def readSegment : List Token → Option Segment
  | [] => some ⟨[],[]⟩
  | token :: tokens => do extend (← readSegment tokens) token

def Segment.pipeline (segment : Segment) : Pipeline := ⟨command segment.words,segment.targets⟩

def line : List Segment → Ast
  | [] => .empty
  | [segment] => segment.pipeline.ast
  | segment :: segments => .sequence segment.pipeline.ast (segments.map fun later => ⟨.wait,later.pipeline.ast⟩)

def readSegments (tokens : List Token) : Option (List Segment) := (tokens.splitOn .semicolon).mapM readSegment

/-- What a command line is to be read as. -/
def reference (input : String) : Option Ast := do
  let tokens ← lex input.toList
  if tokens = [] then pure .empty
  else do pure (line (← readSegments tokens))

end Nak.Grammar
