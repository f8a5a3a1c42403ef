import Nak.ParserGrammar

/-! The empty words of a tree: those of the line, and one for every command and every operand
that the line leaves out. -/
namespace Nak.Parse
open Library Grammar

mutual

def texts : Ast → List String
  | .empty => []
  | .cmd cmd => cmd.words.map Word.expandString
  | .sequence head clauses => texts head ++ textsSequence clauses
  | .redirect head clauses => texts head ++ textsRedirects clauses

def textsSequence : List (SequenceClause Ast) → List String
  | [] => []
  | clause :: clauses => textsStep clause ++ textsSequence clauses

def textsStep : SequenceClause Ast → List String
  | ⟨_,ast⟩ => texts ast

def textsRedirects : List (RedirectClause Ast) → List String
  | [] => []
  | clause :: clauses => textsRedirect clause ++ textsRedirects clauses

def textsRedirect : RedirectClause Ast → List String
  | ⟨_,target⟩ => textsTarget target

def textsTarget : Target Ast → List String
  | .file path => [path.expandString]
  | .command ast => texts ast

end

def blanks (texts : List String) : Nat := texts.countP (· = "")

def groups : List Token → List (List String)
  | [] => [[]]
  | .word text :: tokens => (groups tokens).modifyHead (text :: ·)
  | _ :: tokens => [] :: groups tokens

theorem groups_word (text : String) (tokens : List Token) :
    groups (.word text :: tokens) = (groups tokens).modifyHead (text :: ·) := rfl

theorem groups_operator {token : Token} (apart : ∀ text, token ≠ .word text) (tokens : List Token) :
    groups (token :: tokens) = [] :: groups tokens := by
  cases token with
  | word text => exact absurd rfl (apart text)
  | _ => rfl

theorem groups_ne_nil (tokens : List Token) : groups tokens ≠ [] := by
  induction tokens with
  | nil => exact List.cons_ne_nil _ _
  | cons token tokens ih =>
    cases token with
    | word text =>
      rw [groups_word]
      simpa [List.modifyHead_eq_nil_iff] using ih
    | _ =>
      rw [groups_operator (by simp)]
      exact List.cons_ne_nil _ _

/-- A command or an operand has no words. -/
def Gap (tokens : List Token) : Prop := tokens ≠ [] ∧ [] ∈ groups tokens

def filled (words : List String) : List String := if words = [] then [""] else words

def targetTexts : Target Cmd → List String
  | .file path => [path.expandString]
  | .command cmd => cmd.words.map Word.expandString

def segmentTexts (segment : Segment) : List String := filled segment.words ++ segment.targets.flatMap targetTexts

theorem command_texts (words : List String) : (command words).words.map Word.expandString = filled words := by
  rw [command,List.map_map]
  exact List.map_id'' (fun _ => rfl) _

theorem texts_pipeline (segment : Segment) : texts segment.pipeline.ast = segmentTexts segment := by
  obtain ⟨words,targets⟩ := segment
  have clauses : textsRedirects (targets.map clause) = targets.flatMap targetTexts := by
    induction targets with
    | nil => rw [List.map_nil,textsRedirects,List.flatMap_nil]
    | cons target targets ih =>
      rw [List.map_cons,textsRedirects,List.flatMap_cons,ih]
      cases target with
      | file path => rw [clause,textsRedirect,textsTarget,targetTexts]
      | command cmd => rw [clause,textsRedirect,textsTarget,texts,targetTexts]
  rw [segmentTexts,Segment.pipeline,Pipeline.ast]
  split
  · rename_i none
    obtain rfl : targets = [] := none
    rw [texts,command_texts,List.flatMap_nil,List.append_nil]
  · rw [texts,texts,command_texts,clauses]

theorem texts_line (segments : List Segment) : texts (line segments) = segments.flatMap segmentTexts := by
  match segments with
  | [] => rw [line,texts,List.flatMap_nil]
  | [segment] => rw [line,texts_pipeline,List.flatMap_singleton]
  | segment :: next :: segments =>
    have others (segments : List Segment) :
        textsSequence (segments.map fun later => ⟨.wait,later.pipeline.ast⟩) = segments.flatMap segmentTexts := by
      induction segments with
      | nil => rw [List.map_nil,textsSequence,List.flatMap_nil]
      | cons segment segments ih =>
        rw [List.map_cons,textsSequence,textsStep,texts_pipeline,ih,List.flatMap_cons]
    rw [line,texts,texts_pipeline,others,List.flatMap_cons]
    · simp
    · exact List.cons_ne_nil _ _

/-- The words of the segments are those of the groups, and the first group is the first
segment's command. -/
theorem readSegments_texts {tokens : List Token} {segments : List Segment}
    (read : readSegments tokens = some segments) :
    segments.flatMap segmentTexts = (groups tokens).flatMap filled ∧
      (groups tokens).head? = segments.head?.map Segment.words := by
  induction tokens generalizing segments with
  | nil =>
    cases read
    exact ⟨rfl,rfl⟩
  | cons token tokens ih =>
    by_cases ends : token = .semicolon
    · subst ends
      rw [readSegments_semicolon] at read
      obtain ⟨segments,before,rfl⟩ := Option.map_eq_some_iff.mp read
      exact ⟨congrArg ("" :: ·) (ih before).1,rfl⟩
    · rw [readSegments_onHead ends] at read
      obtain ⟨_ | ⟨⟨words,targets⟩,more⟩,before,put⟩ := Option.bind_eq_some_iff.mp read
      · cases put
      · obtain ⟨next,extended,rfl⟩ := Option.map_eq_some_iff.mp put
        obtain ⟨same,first⟩ := ih before
        cases grouped : groups tokens with
        | nil => simp [grouped] at first
        | cons group rest =>
          rw [grouped] at same first
          obtain rfl : group = words := by simpa using first
          cases token with
          | semicolon => exact absurd rfl ends
          | word text =>
            cases extended
            rw [groups_word,grouped]
            refine ⟨?_,rfl⟩
            cases group with
            | nil => simpa [segmentTexts,filled] using same
            | cons other group => simpa [segmentTexts,filled] using same
          | pipe =>
            cases extended
            rw [groups_operator (by simp),grouped]
            refine ⟨?_,rfl⟩
            rw [@List.flatMap_cons _ _ [],← same]
            simp [segmentTexts,filled,targetTexts,command_texts]
          | redirect =>
            rw [groups_operator (by simp),grouped,@List.flatMap_cons _ _ [],← same]
            simp only [extend] at extended
            split at extended
            · cases extended
              exact ⟨rfl,rfl⟩
            · cases extended
              exact ⟨rfl,rfl⟩
            · cases extended

theorem blanks_filled (groups : List (List String)) :
    blanks (groups.flatMap filled) = blanks groups.flatten + groups.countP (· = []) := by
  induction groups with
  | nil => rfl
  | cons group groups ih =>
    rw [List.flatMap_cons,List.flatten_cons,blanks,blanks,List.countP_append,List.countP_append,List.countP_cons]
    change _ + blanks _ = _ + blanks _ + _
    rw [ih]
    cases group with
    | nil => simp [filled]; omega
    | cons text group => simp [filled]; omega

theorem blanks_groups (tokens : List Token) : blanks (groups tokens).flatten = tokens.countP (· = .word "") := by
  induction tokens with
  | nil => rfl
  | cons token tokens ih =>
    cases token with
    | word text =>
      rw [groups_word]
      cases grouped : groups tokens with
      | nil => exact absurd grouped (groups_ne_nil tokens)
      | cons group rest =>
        rw [grouped] at ih
        rw [List.modifyHead_cons,List.flatten_cons,List.cons_append,blanks,List.countP_cons,List.countP_cons,← ih]
        simp [blanks]
    | _ => rw [groups_operator (by simp),List.flatten_cons,List.nil_append,ih,List.countP_cons_of_neg (by simp)]

/-- The tree has as many empty words as the line exactly when no command and no operand is
left out. -/
theorem blanks_iff {input : String} {ast : Ast} (parsed : parseInput input = .ok ast) :
    ∃ tokens, lex input.toList = some tokens ∧
      (blanks (texts ast) = tokens.countP (· = .word "") ↔ ¬Gap tokens) := by
  obtain ⟨tokens,lexed,read⟩ := Option.bind_eq_some_iff.mp (reference_of_parsed parsed)
  refine ⟨tokens,lexed,?_⟩
  split at read
  · cases read
    rename_i none
    subst none
    simp [texts,Gap,blanks]
  · rename_i some
    obtain ⟨segments,split,made⟩ := Option.bind_eq_some_iff.mp read
    obtain rfl := Option.some.inj made
    rw [texts_line,(readSegments_texts split).1,blanks_filled,blanks_groups,Gap]
    have absent : (groups tokens).countP (· = []) = 0 ↔ [] ∉ groups tokens := by
      rw [List.countP_eq_zero]
      exact ⟨fun full among => full [] among (decide_eq_true rfl),
        fun full group among none => full (of_decide_eq_true none ▸ among)⟩
    rw [Nat.add_eq_left,absent,not_and]
    exact ⟨fun full _ => full,fun full => full some⟩

/-- `a "" > b; c` leaves nothing out. -/
theorem blanks_iff_full : ∃ tokens, lex "a \"\" > b; c".toList = some tokens ∧
    blanks (texts (.sequence (.redirect (.cmd ⟨none,[.normal "a",.normal ""]⟩) [⟨.stdout,.file (.normal "b")⟩])
      [⟨.wait,.cmd ⟨none,[.normal "c"]⟩⟩])) = tokens.countP (· = .word "") := by
  obtain ⟨tokens,lexed,same⟩ := @blanks_iff "a \"\" > b; c" _ (parsed_of_reference rfl)
  refine ⟨tokens,lexed,same.mpr ?_⟩
  rintro ⟨-,gap⟩
  cases lexed
  revert gap
  decide

/-- Nothing comes after the `;` of `a;`, and it is read as a command of the empty word. -/
theorem blanks_fails : ∃ tokens, lex "a;".toList = some tokens ∧ tokens.countP (· = .word "") = 0 ∧
    parseInput "a;" = .ok (.sequence (.cmd ⟨none,[.normal "a"]⟩) [⟨.wait,.cmd ⟨none,[.normal ""]⟩⟩]) ∧
    blanks (texts (.sequence (.cmd ⟨none,[.normal "a"]⟩) [⟨.wait,.cmd ⟨none,[.normal ""]⟩⟩])) = 1 := by
  refine ⟨[.word "a",.semicolon],rfl,rfl,parsed_of_reference rfl,?_⟩
  simp [texts,textsSequence,textsStep,blanks,Word.expandString]

end Nak.Parse
