import Nak.ParserGrammar

/-! Command lines written out. A tree of the shape that the parser makes is read back as it
was, whatever is in its words but for quotes. -/
namespace Nak.Parse
open Library Grammar

def inQuotes (word : Word) : List Char := '"' :: (word.expandString.toList ++ ['"'])

def printCmd (cmd : Cmd) : List Char := [' '].intercalate (cmd.words.map inQuotes)

def between (pad : Nat) (operator : Char) : List Char := .replicate pad ' ' ++ operator :: .replicate pad ' '

mutual

def print (pad : Nat) : Ast → List Char
  | .empty => []
  | .cmd cmd => printCmd cmd
  | .sequence head clauses => print pad head ++ printSequence pad clauses
  | .redirect head clauses => print pad head ++ printRedirects pad clauses

def printSequence (pad : Nat) : List (SequenceClause Ast) → List Char
  | [] => []
  | clause :: clauses => printStep pad clause ++ printSequence pad clauses

def printStep (pad : Nat) : SequenceClause Ast → List Char
  | ⟨_,ast⟩ => between pad ';' ++ print pad ast

def printRedirects (pad : Nat) : List (RedirectClause Ast) → List Char
  | [] => []
  | clause :: clauses => printRedirect pad clause ++ printRedirects pad clauses

def printRedirect (pad : Nat) : RedirectClause Ast → List Char
  | ⟨_,target⟩ => printTarget pad target

def printTarget (pad : Nat) : Target Ast → List Char
  | .file path => between pad '>' ++ inQuotes path
  | .command ast => between pad '|' ++ print pad ast

end

def Clear (word : Word) : Prop := '"' ∉ word.expandString.toList

instance (word : Word) : Decidable (Clear word) := inferInstanceAs (Decidable (¬_))

structure Typeable (cmd : Cmd) : Prop where
  remote : cmd.remote = none
  some : cmd.words ≠ []
  clear : ∀ word ∈ cmd.words, Clear word

def TypeableTarget : Target Cmd → Prop
  | .file path => Clear path
  | .command cmd => Typeable cmd

structure TypeablePipeline (pipeline : Pipeline) : Prop where
  head : Typeable pipeline.head
  targets : ∀ target ∈ pipeline.targets, TypeableTarget target

/-- Nothing, a pipeline, or pipelines one after the other, without quotes in the words. -/
inductive TypeableLine : Ast → Prop
  | empty : TypeableLine .empty
  | pipeline (pipeline : Pipeline) (typeable : TypeablePipeline pipeline) : TypeableLine pipeline.ast
  | sequence (head : Pipeline) (others : List Pipeline) (some : others ≠ []) (first : TypeablePipeline head)
      (typeable : ∀ pipeline ∈ others, TypeablePipeline pipeline) :
      TypeableLine (.sequence head.ast (others.map fun pipeline => ⟨.wait,pipeline.ast⟩))

variable {pad : Nat} {rest : List Char}

theorem reading_spaces (pad : Nat) (rest : List Char) : reading (.replicate pad ' ' ++ rest) = reading rest := by
  induction pad with
  | zero => rfl
  | succ pad ih =>
    rw [List.replicate_succ,List.cons_append,reading_space,ih]

theorem reading_between {char : Char} {token : Token} (found : operator char = some token) (inside : token ≠ .semicolon)
    (pad : Nat) (rest : List Char) : reading (between pad char ++ rest) = (reading rest).bind (onHead token) := by
  rw [between,List.append_assoc,reading_spaces,List.cons_append,reading_operator found inside,reading_spaces]

theorem reading_inQuotes {word : Word} (clear : Clear word) (rest : List Char) :
    reading (inQuotes word ++ rest) = (reading rest).map (addWords [word.expandString]) := by
  have read := reading_quoted clear rest
  rw [String.ofList_toList] at read
  rw [← read,inQuotes]
  simp

theorem reading_cmd {words : List Word} (clear : ∀ word ∈ words, Clear word) (rest : List Char) :
    reading ([' '].intercalate (words.map inQuotes) ++ rest) =
      (reading rest).map (addWords (words.map Word.expandString)) := by
  induction words with
  | nil => simp
  | cons word words ih =>
    obtain ⟨first,others⟩ := List.forall_mem_cons.mp clear
    cases words with
    | nil => simpa using reading_inQuotes first rest
    | cons next words =>
      rw [List.map_cons,List.map_cons,List.intercalate_cons_cons,List.append_assoc,List.append_assoc,
        reading_inQuotes first,List.singleton_append,reading_space]
      have read := ih others
      rw [List.map_cons] at read
      rw [read,Option.map_map]
      refine congrArg (Option.map · (reading rest)) (funext fun segments => ?_)
      exact (addWords_append [word.expandString] _ segments).symm

theorem command_words {cmd : Cmd} (typeable : Typeable cmd) : command (cmd.words.map Word.expandString) = cmd := by
  have same : (cmd.words.map Word.expandString).map Word.normal = cmd.words := by
    rw [List.map_map]
    exact List.map_id'' (fun word => by cases word; rfl) _
  obtain ⟨remote,words⟩ := cmd
  obtain rfl : remote = none := typeable.remote
  rw [command,if_neg (by simpa using typeable.some),same]

theorem reading_targets {targets : List (Target Cmd)} (typeable : ∀ target ∈ targets, TypeableTarget target)
    {more : List Segment} (reads : reading rest = some (⟨[],[]⟩ :: more)) :
    reading (printRedirects pad (targets.map clause) ++ rest) = some (⟨[],targets⟩ :: more) := by
  induction targets with
  | nil => rwa [List.map_nil,printRedirects]
  | cons target targets ih =>
    obtain ⟨first,others⟩ := List.forall_mem_cons.mp typeable
    rw [List.map_cons,printRedirects,List.append_assoc]
    cases target with
    | file path =>
      rw [clause,printRedirect,printTarget,List.append_assoc,reading_between rfl (by simp),reading_inQuotes first,
        ih others]
      rfl
    | command cmd =>
      rw [clause,printRedirect,printTarget,print,List.append_assoc,reading_between rfl (by simp),printCmd,
        reading_cmd first.clear,ih others]
      simp [addWords,onHead,extend,command_words first]

def segmentOf (pipeline : Pipeline) : Segment := ⟨pipeline.head.words.map Word.expandString,pipeline.targets⟩

theorem segmentOf_pipeline {pipeline : Pipeline} (typeable : TypeablePipeline pipeline) :
    (segmentOf pipeline).pipeline = pipeline := by
  rw [Segment.pipeline,segmentOf,command_words typeable.head]

theorem print_pipeline (pad : Nat) (pipeline : Pipeline) :
    print pad pipeline.ast = printCmd pipeline.head ++ printRedirects pad (pipeline.targets.map clause) := by
  obtain ⟨head,targets⟩ := pipeline
  cases targets with
  | nil => simp [Pipeline.ast,print,printRedirects]
  | cons target targets => rw [Pipeline.ast,if_neg (by simp),print,print]

theorem reading_pipeline {pipeline : Pipeline} (typeable : TypeablePipeline pipeline) {more : List Segment}
    (reads : reading rest = some (⟨[],[]⟩ :: more)) :
    reading (print pad pipeline.ast ++ rest) = some (segmentOf pipeline :: more) := by
  rw [print_pipeline,List.append_assoc,printCmd,reading_cmd typeable.head.clear,reading_targets typeable.targets reads]
  simp [addWords,segmentOf]

theorem reading_sequence {others : List Pipeline} (typeable : ∀ pipeline ∈ others, TypeablePipeline pipeline) :
    reading (printSequence pad (others.map fun pipeline => ⟨.wait,pipeline.ast⟩)) =
      some (⟨[],[]⟩ :: others.map segmentOf) := by
  induction others with
  | nil => rw [List.map_nil,printSequence,reading_nil,List.map_nil]
  | cons pipeline others ih =>
    obtain ⟨first,later⟩ := List.forall_mem_cons.mp typeable
    rw [List.map_cons,printSequence,printStep,between,List.append_assoc,List.append_assoc,reading_spaces,
      List.cons_append,reading_semicolon,reading_spaces,reading_pipeline first (ih later)]
    rfl

theorem reference_of_reading {chars : List Char} {segment : Segment} {segments : List Segment}
    (reads : reading chars = some (segment :: segments)) (words : segment.words ≠ []) :
    reference (.ofList chars) = some (line (segment :: segments)) := by
  obtain ⟨tokens,lexed,read⟩ := Option.bind_eq_some_iff.mp reads
  have some : tokens ≠ [] := by
    rintro rfl
    cases read
    exact words rfl
  simp [reference,lexed,some,read]

theorem reference_printed {ast : Ast} (typeable : TypeableLine ast) :
    reference (.ofList (print pad ast)) = some ast := by
  have words {pipeline : Pipeline} (typeable : TypeablePipeline pipeline) : (segmentOf pipeline).words ≠ [] := by
    simpa [segmentOf] using typeable.head.some
  cases typeable with
  | empty =>
    rw [print]
    rfl
  | pipeline pipeline typeable =>
    have reads := @reading_pipeline pad [] pipeline typeable [] rfl
    rw [List.append_nil] at reads
    rw [reference_of_reading reads (words typeable),line,segmentOf_pipeline typeable]
  | sequence head others some first typeable =>
    rw [print,reference_of_reading (reading_pipeline first (reading_sequence typeable)) (words first)]
    have same : ∀ pipeline ∈ others, (segmentOf pipeline).pipeline = pipeline :=
      fun pipeline among => segmentOf_pipeline (typeable pipeline among)
    cases others with
    | nil => exact absurd rfl some
    | cons next others =>
      rw [List.map_cons,line,segmentOf_pipeline first]
      · rw [← List.map_cons,List.map_map]
        refine congrArg (fun clauses => Option.some (Ast.sequence head.ast clauses))
          (List.map_congr_left fun pipeline among => ?_)
        rw [Function.comp_apply,same pipeline among]
      · simp

/-- Every tree of the parser's shape whose words hold no quotes can be typed. -/
theorem parseInput_print {ast : Ast} (typeable : TypeableLine ast) (pad : Nat) :
    parseInput (.ofList (print pad ast)) = .ok ast :=
  parsed_of_reference (reference_printed typeable)

/-- `"a b" ""|"c">"ä;";"d"` -/
theorem parseInput_print_operators : parseInput "\"a b\" \"\"|\"c\">\"ä;\";\"d\"" = .ok (.sequence
    (.redirect (.cmd ⟨none,[.normal "a b",.normal ""]⟩)
      [⟨.stdout,.command (.cmd ⟨none,[.normal "c"]⟩)⟩,⟨.stdout,.file (.normal "ä;")⟩])
    [⟨.wait,.cmd ⟨none,[.normal "d"]⟩⟩]) := by
  refine @parseInput_print _ (.sequence
    ⟨⟨none,[.normal "a b",.normal ""]⟩,[.command ⟨none,[.normal "c"]⟩,.file (.normal "ä;")]⟩
    [⟨⟨none,[.normal "d"]⟩,[]⟩] (by simp) ⟨⟨rfl,by simp,by decide⟩,?_⟩ ?_) 0
  · simp only [List.forall_mem_cons,List.not_mem_nil,false_implies,implies_true,and_true]
    exact ⟨⟨rfl,by simp,by decide⟩,(by decide : Clear _)⟩
  · simp only [List.forall_mem_cons,List.not_mem_nil,false_implies,implies_true,and_true]
    exact ⟨⟨rfl,by simp,by decide⟩,by simp⟩

end Nak.Parse
