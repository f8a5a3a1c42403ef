import Mathlib.Data.List.Basic
import Nak.Grammar

/-! How the grammar reads what is left of a line: one rule for each thing that can come first. -/
namespace Nak.Grammar
open Parse

/-- What the segments on are, from some place of the line that is not inside a word. -/
def reading (chars : List Char) : Option (List Segment) := do readSegments (← lex chars)

def onHead (token : Token) : List Segment → Option (List Segment)
  | [] => none
  | segment :: more => (extend segment token).map (· :: more)

def addWords (words : List String) (segments : List Segment) : List Segment :=
  segments.modifyHead fun segment => { segment with words := words ++ segment.words }

@[simp] theorem addWords_nil : addWords [] = id := by
  funext segments
  cases segments <;> rfl

theorem addWords_append (first second : List String) (segments : List Segment) :
    addWords (first ++ second) segments = addWords first (addWords second segments) := by
  cases segments with
  | nil => rfl
  | cons segment more => simp [addWords]

theorem readSegments_semicolon (tokens : List Token) :
    readSegments (.semicolon :: tokens) = (readSegments tokens).map (⟨[],[]⟩ :: ·) := by
  unfold readSegments
  rw [List.splitOn_cons_eq_if_modifyHead,if_pos (by simp),List.mapM_cons]
  cases (tokens.splitOn .semicolon).mapM readSegment <;> rfl

theorem readSegments_onHead {token : Token} (inside : token ≠ .semicolon) (tokens : List Token) :
    readSegments (token :: tokens) = (readSegments tokens).bind (onHead token) := by
  unfold readSegments
  rw [List.splitOn_cons_eq_if_modifyHead,if_neg (by simpa using inside)]
  cases split : tokens.splitOn .semicolon with
  | nil => exact absurd split (List.splitOn_ne_nil _ _)
  | cons first more =>
    simp only [List.modifyHead_cons,List.mapM_cons,readSegment]
    cases readSegment first with
    | none => rfl
    | some segment =>
      cases more.mapM readSegment with
      | none => cases extended : extend segment token <;> simp [extended]
      | some segments => cases extended : extend segment token <;> simp [onHead,extended]

theorem onHead_word (text : String) (segments : List Segment) (some : segments ≠ []) :
    onHead (.word text) segments = .some (addWords [text] segments) := by
  cases segments with
  | nil => exact absurd rfl some
  | cons segment more => rfl

theorem readSegments_ne_nil {tokens : List Token} {segments : List Segment}
    (read : readSegments tokens = some segments) : segments ≠ [] := by
  intro none
  subst none
  unfold readSegments at read
  cases split : tokens.splitOn .semicolon with
  | nil => exact absurd split (List.splitOn_ne_nil _ _)
  | cons first more =>
    rw [split,List.mapM_cons] at read
    cases parsed : readSegment first with
    | none => simp [parsed] at read
    | some segment => cases others : more.mapM readSegment <;> simp [parsed,others] at read

theorem readSegments_word (text : String) (tokens : List Token) :
    readSegments (.word text :: tokens) = (readSegments tokens).map (addWords [text]) := by
  rw [readSegments_onHead (by simp)]
  cases read : readSegments tokens with
  | none => rfl
  | some segments => exact onHead_word text segments (readSegments_ne_nil read)

/-- A character that goes on with a bare word. -/
def Plain (char : Char) : Prop := char ≠ ' ' ∧ char ≠ '"' ∧ operator char = none

instance (char : Char) : Decidable (Plain char) := inferInstanceAs (Decidable (_ ∧ _ ∧ _))

theorem operator_apart {char : Char} {token : Token} (found : operator char = some token) :
    char ≠ ' ' ∧ char ≠ '"' := by
  constructor <;> (intro same; subst same; cases found)

theorem operator_token {char : Char} {token : Token} (found : operator char = some token) :
    token = .semicolon ∧ char = ';' ∨ token = .pipe ∧ char = '|' ∨ token = .redirect ∧ char = '>' := by
  unfold operator at found
  split at found
  · exact Or.inl ⟨(Option.some.inj found).symm,‹_›⟩
  · split at found
    · exact Or.inr (Or.inl ⟨(Option.some.inj found).symm,‹_›⟩)
    · split at found
      · exact Or.inr (Or.inr ⟨(Option.some.inj found).symm,‹_›⟩)
      · cases found

theorem reading_nil : reading [] = some [⟨[],[]⟩] := rfl

theorem reading_space (rest : List Char) : reading (' ' :: rest) = reading rest := rfl

theorem lex_operator {char : Char} {token : Token} (found : operator char = some token) (rest : List Char) :
    lex (char :: rest) = (lex rest).map (token :: ·) := by
  obtain ⟨first,second⟩ := operator_apart found
  simp only [lex,lexFrom,if_neg first,if_neg second,found]

theorem reading_operator {char : Char} {token : Token} (found : operator char = some token)
    (inside : token ≠ .semicolon) (rest : List Char) :
    reading (char :: rest) = (reading rest).bind (onHead token) := by
  unfold reading
  rw [lex_operator found]
  cases lex rest with
  | none => rfl
  | some tokens => exact readSegments_onHead inside tokens

theorem reading_pipe (rest : List Char) : reading ('|' :: rest) = (reading rest).bind (onHead .pipe) :=
  reading_operator rfl (by simp) rest

theorem reading_redirect (rest : List Char) : reading ('>' :: rest) = (reading rest).bind (onHead .redirect) :=
  reading_operator rfl (by simp) rest

theorem reading_semicolon (rest : List Char) : reading (';' :: rest) = (reading rest).map (⟨[],[]⟩ :: ·) := by
  unfold reading
  rw [lex_operator rfl]
  cases lex rest with
  | none => rfl
  | some tokens => exact readSegments_semicolon tokens

theorem reading_ne_nil {chars : List Char} {segments : List Segment} (read : reading chars = some segments) :
    segments ≠ [] := by
  unfold reading at read
  cases lexed : lex chars with
  | none => simp [lexed] at read
  | some tokens => exact readSegments_ne_nil (by simpa [lexed] using read)

private theorem reading_lexed {chars rest : List Char} {text : String}
    (lexed : lex chars = (lex rest).map (.word text :: ·)) : reading chars = (reading rest).map (addWords [text]) := by
  unfold reading
  rw [lexed]
  cases lex rest with
  | none => rfl
  | some tokens => exact readSegments_word text tokens

private theorem lexFrom_quoted {body : List Char} (clear : '"' ∉ body) (text rest : List Char) :
    lexFrom (.quoted text) (body ++ rest) = lexFrom (.quoted (text ++ body)) rest := by
  induction body generalizing text with
  | nil => simp
  | cons char body ih =>
    obtain ⟨apart,clear⟩ := List.ne_and_not_mem_of_not_mem_cons clear
    rw [List.cons_append,lexFrom,if_neg (Ne.symm apart),ih clear]
    simp

private theorem lexFrom_bare {body : List Char} (plain : ∀ char ∈ body, Plain char) (text rest : List Char) :
    lexFrom (.bare text) (body ++ rest) = lexFrom (.bare (text ++ body)) rest := by
  induction body generalizing text with
  | nil => simp
  | cons char body ih =>
    obtain ⟨⟨first,second,other⟩,plain⟩ := List.forall_mem_cons.mp plain
    simp only [List.cons_append,lexFrom,if_neg first,if_neg second,other]
    rw [ih plain]
    simp

theorem reading_quoted {body : List Char} (clear : '"' ∉ body) (rest : List Char) :
    reading ('"' :: (body ++ '"' :: rest)) = (reading rest).map (addWords [.ofList body]) := by
  refine reading_lexed ?_
  change lexFrom (.quoted []) (body ++ '"' :: rest) = _
  rw [lexFrom_quoted clear]
  rfl

theorem reading_unclosed {body : List Char} (clear : '"' ∉ body) : reading ('"' :: body) = none := by
  have lexed : lex ('"' :: body) = none := by
    change lexFrom (.quoted []) body = none
    rw [← List.append_nil body,lexFrom_quoted clear]
    rfl
  rw [reading,lexed]
  rfl

private theorem lex_plain {char : Char} (plain : Plain char) (rest : List Char) :
    lex (char :: rest) = lexFrom (.bare [char]) rest := by
  obtain ⟨first,second,other⟩ := plain
  simp only [lex,lexFrom,if_neg first,if_neg second,other]

/-- What a bare word runs up to. -/
def Delimited (rest : List Char) : Prop := ∀ char ∈ rest.head?, char = ' ' ∨ operator char ≠ none

theorem reading_bare {char : Char} {body rest : List Char} (plain : ∀ one ∈ char :: body, Plain one)
    (delimited : Delimited rest) :
    reading (char :: (body ++ rest)) = (reading rest).map (addWords [.ofList (char :: body)]) := by
  refine reading_lexed ?_
  obtain ⟨first,others⟩ := List.forall_mem_cons.mp plain
  rw [lex_plain first,lexFrom_bare others]
  cases rest with
  | nil => rfl
  | cons next rest =>
    rcases delimited next rfl with rfl | found
    · rfl
    · obtain ⟨token,found⟩ := Option.ne_none_iff_exists'.mp found
      obtain ⟨space,quote⟩ := operator_apart found
      rw [lex_operator found]
      simp only [lexFrom,if_neg space,if_neg quote,found,Option.map_map]
      rfl

theorem reading_broken {char : Char} {body rest : List Char} (plain : ∀ one ∈ char :: body, Plain one) :
    reading (char :: (body ++ '"' :: rest)) = none := by
  obtain ⟨first,others⟩ := List.forall_mem_cons.mp plain
  have lexed : lex (char :: (body ++ '"' :: rest)) = none := by
    rw [lex_plain first,lexFrom_bare others]
    rfl
  rw [reading,lexed]
  rfl

/-- The first segment begins with a clause, or is at its end. -/
def Free (segments : List Segment) : Prop := ∀ segment ∈ segments.head?, segment.words = []

theorem free_onHead {token : Token} (clause : token = .pipe ∨ token = .redirect) {segments next : List Segment}
    (put : onHead token segments = some next) : Free next := by
  cases segments with
  | nil => cases put
  | cons segment more =>
    obtain ⟨extended,made,rfl⟩ := Option.map_eq_some_iff.mp put
    rintro _ ⟨⟩
    rcases clause with rfl | rfl
    · cases made
      rfl
    · simp only [extend] at made
      split at made
      all_goals cases made
      all_goals rfl

/-- What is put in front of a word of a command makes the operand of `>` one of two words. -/
theorem onHead_crowded {text : String} {segments : List Segment} (crowded : ¬Free segments) :
    onHead .redirect (addWords [text] segments) = none := by
  cases segments with
  | nil => exact absurd (by simp [Free]) crowded
  | cons segment more =>
    obtain ⟨words,targets⟩ := segment
    cases words with
    | nil => exact absurd (by simp [Free]) crowded
    | cons word words => rfl

private theorem lexFrom_ne_nil (mode : Mode) (inside : mode ≠ .between) (chars : List Char) :
    lexFrom mode chars ≠ some [] := by
  induction chars generalizing mode with
  | nil =>
    cases mode with
    | between => exact absurd rfl inside
    | quoted text => simp [lexFrom]
    | bare text => simp [lexFrom]
  | cons char chars ih =>
    cases mode with
    | between => exact absurd rfl inside
    | quoted text =>
      rw [lexFrom]
      split
      · simp
      · exact ih _ (by simp)
    | bare text =>
      rw [lexFrom]
      split
      · simp
      · split
        · simp
        · split
          · simp
          · exact ih _ (by simp)

theorem lex_ne_nil {char : Char} (apart : char ≠ ' ') (rest : List Char) : lex (char :: rest) ≠ some [] := by
  rw [lex,lexFrom,if_neg apart]
  split
  · exact lexFrom_ne_nil _ (by simp) rest
  · split
    · simp
    · exact lexFrom_ne_nil _ (by simp) rest

theorem readSegment_targets {tokens : List Token} {segment : Segment} (read : readSegment tokens = some segment) :
    segment.targets = [] ↔ .pipe ∉ tokens ∧ .redirect ∉ tokens := by
  induction tokens generalizing segment with
  | nil =>
    cases read
    simp
  | cons token tokens ih =>
    obtain ⟨before,found,extended⟩ := Option.bind_eq_some_iff.mp read
    cases token with
    | word text =>
      cases extended
      simpa using ih found
    | semicolon => cases extended
    | pipe =>
      cases extended
      simp
    | redirect =>
      simp only [extend] at extended
      split at extended
      all_goals cases extended
      all_goals simp

theorem readSegment_inside {tokens : List Token} {segment : Segment} (read : readSegment tokens = some segment) :
    .semicolon ∉ tokens := by
  induction tokens generalizing segment with
  | nil => simp
  | cons token tokens ih =>
    obtain ⟨before,found,extended⟩ := Option.bind_eq_some_iff.mp read
    have apart : token ≠ .semicolon := by
      rintro rfl
      cases extended
    simp [ih found,apart.symm]

/-- A line is empty, or one segment, or it has a `;` and is a sequence. -/
theorem reference_cases {input : String} {ast : Ast} (read : reference input = some ast) :
    ∃ tokens, lex input.toList = some tokens ∧ (tokens = [] ∧ ast = .empty ∨
      (tokens ≠ [] ∧ ∃ segment, readSegment tokens = some segment ∧ ast = segment.pipeline.ast) ∨
      .semicolon ∈ tokens ∧ ∃ head clauses, ast = .sequence head clauses) := by
  obtain ⟨tokens,lexed,read⟩ := Option.bind_eq_some_iff.mp read
  refine ⟨tokens,lexed,?_⟩
  split at read
  · exact Or.inl ⟨‹_›,(Option.some.inj read).symm⟩
  · rename_i some
    obtain ⟨segments,parsed,made⟩ := Option.bind_eq_some_iff.mp read
    obtain rfl := Option.some.inj made
    have whole : [Token.semicolon].intercalate (tokens.splitOn .semicolon) = tokens := List.intercalate_splitOn _
    unfold readSegments at parsed
    cases split : tokens.splitOn .semicolon with
    | nil => exact absurd split (List.splitOn_ne_nil _ _)
    | cons first more =>
      rw [split,List.mapM_cons] at parsed
      obtain ⟨segment,head,parsed⟩ := Option.bind_eq_some_iff.mp parsed
      obtain ⟨others,tail,made⟩ := Option.bind_eq_some_iff.mp parsed
      obtain rfl := Option.some.inj made
      rw [split] at whole
      cases more with
      | nil =>
        cases tail
        rw [List.intercalate_singleton] at whole
        exact Or.inr (Or.inl ⟨some,segment,whole ▸ head,rfl⟩)
      | cons other more =>
        obtain ⟨_,_,tail⟩ := Option.bind_eq_some_iff.mp (List.mapM_cons (m := Option) ▸ tail)
        obtain ⟨_,_,made⟩ := Option.bind_eq_some_iff.mp tail
        obtain rfl := Option.some.inj made
        refine Or.inr (Or.inr ⟨?_,_,_,rfl⟩)
        rw [← whole]
        simp

theorem reference_single {input : String} {ast : Ast} (read : reference input = some ast)
    (single : ∀ head clauses, ast ≠ .sequence head clauses) : ∃ tokens, lex input.toList = some tokens ∧
      (tokens = [] ∧ ast = .empty ∨ ∃ segment, readSegment tokens = some segment ∧ ast = segment.pipeline.ast) := by
  obtain ⟨tokens,lexed,cases⟩ := reference_cases read
  refine ⟨tokens,lexed,?_⟩
  rcases cases with empty | ⟨_,segment⟩ | ⟨_,head,clauses,sequence⟩
  · exact Or.inl empty
  · exact Or.inr segment
  · exact absurd sequence (single head clauses)

def Tidy : List (Target Cmd) → Prop
  | [] => True
  | .command _ :: targets => Tidy targets
  | .file _ :: targets => ∀ target ∈ targets, ∃ path, target = .file path

theorem readSegment_files {tokens : List Token} {segment : Segment} (read : readSegment tokens = some segment) :
    (∀ target ∈ segment.targets, ∃ path, target = .file path) ↔ .pipe ∉ tokens := by
  induction tokens generalizing segment with
  | nil =>
    cases read
    simp
  | cons token tokens ih =>
    obtain ⟨before,found,extended⟩ := Option.bind_eq_some_iff.mp read
    cases token with
    | word text =>
      cases extended
      simpa using ih found
    | semicolon => cases extended
    | pipe =>
      cases extended
      simp
    | redirect =>
      simp only [extend] at extended
      split at extended
      all_goals cases extended
      all_goals simpa using ih found

theorem readSegment_tidy {tokens : List Token} {segment : Segment} (read : readSegment tokens = some segment) :
    Tidy segment.targets ↔ ¬[.redirect,.pipe].Sublist tokens := by
  induction tokens generalizing segment with
  | nil =>
    cases read
    simp [Tidy]
  | cons token tokens ih =>
    obtain ⟨before,found,extended⟩ := Option.bind_eq_some_iff.mp read
    cases token with
    | word text =>
      cases extended
      simpa [List.sublist_cons_iff] using ih found
    | semicolon => cases extended
    | pipe =>
      cases extended
      simpa [List.sublist_cons_iff,Tidy] using ih found
    | redirect =>
      have files := readSegment_files found
      rw [List.cons_sublist_cons,List.singleton_sublist,← files]
      simp only [extend] at extended
      split at extended
      all_goals cases extended
      all_goals rfl

/-- The line has a `|` or a `>` outside quotes. -/
def HasClause (input : String) : Prop :=
  ∃ tokens, lex input.toList = some tokens ∧ (.pipe ∈ tokens ∨ .redirect ∈ tokens)

/-- A `>` outside quotes is followed later by a `|` outside quotes. -/
def FileBeforePipe (input : String) : Prop :=
  ∃ tokens, lex input.toList = some tokens ∧ [.redirect,.pipe].Sublist tokens

end Nak.Grammar
