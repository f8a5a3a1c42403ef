import Nak.GrammarRules
import Nak.Parser

/-! The parser accepts exactly the grammar. Between two of its words the cursor stands in
front of a character, and what each function has read is compared with the reading of the
characters in front of the cursor before and after it. -/
namespace Nak.Parse
open Library Grammar

variable {input : Consume} {rest : List Char}

/-- The character is this one byte. -/
def Marks (char : Char) (byte : UInt8) : Prop := Ascii char ∧ char.val.toUInt8 = byte

theorem marks_space : Marks ' ' space := ⟨by decide,rfl⟩
theorem marks_quote : Marks '"' quote := ⟨by decide,rfl⟩
theorem marks_semicolon : Marks ';' semicolon := ⟨by decide,rfl⟩
theorem marks_bar : Marks '|' bar := ⟨by decide,rfl⟩
theorem marks_greater : Marks '>' greater := ⟨by decide,rfl⟩

/-- The cursor is in front of these characters. -/
structure At (input : Consume) (rest : List Char) : Prop where
  text : input.text = bytes input.chars
  split : ∃ before, input.chars = .ofList (before ++ rest) ∧ input.pos = (utf8 before).length

theorem bytes_ofList (chars : List Char) : bytes (.ofList chars) = utf8 chars := toByteArray_ofList chars

namespace At

theorem start (line : String) : At ⟨line,bytes line,0⟩ line.toList := ⟨rfl,[],by simp,rfl⟩

theorem ahead (place : At input rest) : input.text.drop input.pos = utf8 rest := by
  obtain ⟨before,shape,pos⟩ := place.split
  rw [place.text,shape,bytes_ofList,utf8_append,pos,List.drop_left]

theorem left (place : At input rest) : input.left = (utf8 rest).length := by
  rw [Consume.left,← List.length_drop,place.ahead]

theorem advance {body after : List Char} (place : At input (body ++ after)) :
    At { input with pos := input.pos + (utf8 body).length } after := by
  obtain ⟨before,shape,pos⟩ := place.split
  exact ⟨place.text,before ++ body,by simp [shape],by simp [pos]⟩

theorem slice {body after : List Char} (place : At input (body ++ after)) (pos : Nat) :
    ({ input with pos } : Consume).slice input.pos (input.pos + (utf8 body).length) = .ok (.ofList body) := by
  obtain ⟨before,shape,begins⟩ := place.split
  have first : (⟨input.pos⟩ : String.Pos.Raw).IsValid input.chars := by
    rw [shape,begins]
    exact valid_between _ _
  have last : (⟨input.pos + (utf8 body).length⟩ : String.Pos.Raw).IsValid input.chars := by
    rw [shape,begins,← List.length_append,← utf8_append,← List.append_assoc]
    exact valid_between _ _
  refine (dif_pos ⟨Nat.le_add_right _ _,first,last⟩).trans (congrArg Except.ok ?_)
  exact extract_between before body after shape _ _ begins (congrArg (· + _) begins)

theorem cur (place : At input rest) : input.cur = (utf8 rest).head? := by
  rw [← place.ahead,List.head?_drop]
  rfl

theorem cur_none (place : At input rest) : input.cur = none ↔ rest = [] := by
  rw [place.cur]
  cases rest with
  | nil => simp
  | cons char rest => simp

theorem cur_eq (place : At input rest) {mark : Char} {byte : UInt8} (marks : Marks mark byte) :
    input.cur = some byte ↔ rest.head? = some mark := by
  obtain ⟨ascii,rfl⟩ := marks
  rw [place.cur]
  cases rest with
  | nil => simp
  | cons char rest =>
    rw [utf8_cons,List.head?_append_of_ne_nil _ (encode_ne_nil char),List.head?_cons,Option.some.injEq]
    constructor
    · intro first
      exact (mem_encode ascii).mp (List.mem_of_mem_head? first)
    · intro same
      subst same
      rw [encode_ascii ascii]
      rfl

theorem step {mark : Char} {byte : UInt8} (place : At input (mark :: rest)) (marks : Marks mark byte) :
    input.cur = some byte ∧ At { input with pos := input.pos + 1 } rest := by
  refine ⟨(place.cur_eq marks).mpr rfl,?_⟩
  have advanced := @advance input [mark] rest place
  rwa [utf8_cons,utf8_nil,List.append_nil,encode_ascii marks.1] at advanced

end At

theorem next_some {byte : UInt8} (cur : input.cur = some byte) :
    input.next = (some byte,{ input with pos := input.pos + 1 }) := by
  unfold Consume.next
  rw [cur]

theorem next_none (cur : input.cur = none) : input.next = (none,input) := by
  unfold Consume.next
  rw [cur]

theorem size_cons (char : Char) (rest : List Char) : (utf8 rest).length < (utf8 (char :: rest)).length := by
  rw [utf8_cons,List.length_append]
  exact Nat.lt_add_of_pos_left (List.length_pos_of_ne_nil (encode_ne_nil char))

structure Skipped (rest : List Char) (next : Consume) (after : List Char) : Prop where
  place : At next after
  stays : after.head? ≠ some ' '
  same : lex after = lex rest
  size : (utf8 after).length ≤ (utf8 rest).length

theorem Skipped.reading {next : Consume} {after : List Char} (skips : Skipped rest next after) :
    Grammar.reading after = Grammar.reading rest := by
  rw [Grammar.reading,skips.same,Grammar.reading]

theorem skipLoop_stays (place : At input rest) (apart : rest.head? ≠ some ' ') (fuel : Nat) :
    skipLoop (fuel + 1) input = .ok input := by
  rw [skipLoop,if_neg]
  · rfl
  · exact fun cur => apart ((place.cur_eq marks_space).mp cur)

theorem skipLoop_skips (place : At input rest) (fuel : Nat) (enough : (utf8 rest).length < fuel) :
    ∃ next after, skipLoop fuel input = .ok next ∧ Skipped rest next after := by
  induction fuel generalizing input rest with
  | zero => exact absurd enough (Nat.not_lt_zero _)
  | succ fuel ih =>
    by_cases spaced : rest.head? = some ' '
    · obtain ⟨rest,rfl⟩ := List.head?_eq_some_iff.mp spaced
      obtain ⟨cur,next⟩ := place.step marks_space
      have smaller := size_cons ' ' rest
      obtain ⟨final,after,skipped,skips⟩ := ih next (by omega)
      refine ⟨final,after,?_,skips.place,skips.stays,skips.same,by have := skips.size; omega⟩
      rw [skipLoop,if_pos cur,skipped]
    · exact ⟨input,rest,skipLoop_stays place spaced fuel,place,spaced,rfl,Nat.le_refl _⟩

theorem skipWhitespace_skips (place : At input rest) :
    ∃ next after, skipWhitespace input = .ok next ∧ Skipped rest next after :=
  skipLoop_skips place _ (by rw [place.left]; exact Nat.lt_succ_self _)

theorem skipWhitespace_stays (place : At input rest) (apart : rest.head? ≠ some ' ') :
    skipWhitespace input = .ok input := skipLoop_stays place apart _

theorem quoteLoop_clear {text more : Bytes} (clear : quote ∉ text) (ahead : input.text.drop input.pos = text ++ more)
    (fuel : Nat) : quoteLoop (text.length + fuel) input =
      quoteLoop fuel { input with pos := input.pos + text.length } := by
  induction text generalizing input with
  | nil => simp
  | cons byte text ih =>
    obtain ⟨apart,clear⟩ := List.ne_and_not_mem_of_not_mem_cons clear
    have cur : input.cur = some byte := by
      rw [Consume.cur,← List.head?_drop,ahead]
      rfl
    have later : input.text.drop (input.pos + 1) = text ++ more := by
      rw [← List.drop_drop,ahead]
      rfl
    rw [List.length_cons,Nat.add_right_comm,quoteLoop,next_some cur]
    simp only [if_neg (Ne.symm apart)]
    rw [ih clear later,Nat.add_assoc,Nat.add_comm 1]

theorem wordLoop_clear {text more : Bytes} (clear : ∀ byte ∈ text, byte ≠ quote ∧ ¬Stops byte)
    (ahead : input.text.drop input.pos = text ++ more) (fuel : Nat) :
    wordLoop (text.length + fuel) input = wordLoop fuel { input with pos := input.pos + text.length } := by
  induction text generalizing input with
  | nil => simp
  | cons byte text ih =>
    obtain ⟨⟨apart,goes⟩,clear⟩ := List.forall_mem_cons.mp clear
    have cur : input.cur = some byte := by
      rw [Consume.cur,← List.head?_drop,ahead]
      rfl
    have later : input.text.drop (input.pos + 1) = text ++ more := by
      rw [← List.drop_drop,ahead]
      rfl
    rw [List.length_cons,Nat.add_right_comm,wordLoop,cur]
    simp only [if_neg apart,if_neg goes,next_some cur]
    rw [ih clear later,Nat.add_assoc,Nat.add_comm 1]

def Starts (rest : List Char) : Prop :=
  rest.head? = none ∨ rest.head? = some ';' ∨ rest.head? = some '|' ∨ rest.head? = some '>'

theorem ends_iff (place : At input rest) : Ends input.cur ↔ Starts rest := by
  unfold Ends Starts
  rw [place.cur_none,← List.head?_eq_none_iff]
  rw [place.cur_eq marks_semicolon,place.cur_eq marks_bar,place.cur_eq marks_greater]

theorem plain_clear {char : Char} (plain : Plain char) :
    ∀ byte ∈ String.utf8EncodeChar char, byte ≠ quote ∧ ¬Stops byte := by
  obtain ⟨space,quote,other⟩ := plain
  have apart {mark : Char} {byte : UInt8} (marks : Marks mark byte) (different : char ≠ mark) :
      byte ∉ String.utf8EncodeChar char := by
    obtain ⟨ascii,rfl⟩ := marks
    exact fun member => different ((mem_encode ascii).mp member)
  have different (mark : Char) {token : Token} (found : operator mark = some token) : char ≠ mark := by
    intro same
    rw [same,found] at other
    cases other
  intro byte member
  constructor
  · rintro rfl
    exact apart marks_quote quote member
  · intro stops
    rcases stops with rfl | rfl | rfl | rfl
    · exact apart marks_space space member
    · exact apart marks_semicolon (different ';' rfl) member
    · exact apart marks_bar (different '|' rfl) member
    · exact apart marks_greater (different '>' rfl) member

/-- What reading a word can come to. -/
inductive Worded (rest : List Char) (input : Consume) : Outcome (Word × Consume) → Prop
  | missing (starts : Starts rest) : Worded rest input (.ok (.normal "",input))
  | read (text next after) (place : At next after) (smaller : (utf8 after).length < (utf8 rest).length)
      (reads : reading rest = (reading after).map (addWords [text])) : Worded rest input (.ok (.normal text,next))
  | failed (panic) (fuel : panic ≠ .exhausted) (none : reading rest = none) : Worded rest input (.error panic)

/-- The loop of a quoted word runs to the next quote, or there is none. -/
theorem quoteLoop_reads (inside : At input rest) :
    (∃ body after, rest = body ++ '"' :: after ∧ '"' ∉ body ∧
      quoteLoop (input.left + 1) input = .ok { input with pos := input.pos + (utf8 body).length + 1 }) ∨
    ('"' ∉ rest ∧ quoteLoop (input.left + 1) input = .error .explicit) := by
  rw [inside.left]
  by_cases closed : '"' ∈ rest
  · obtain ⟨body,after,rfl,clear⟩ := List.eq_append_cons_of_mem closed
    have ended := inside.advance.step marks_quote
    have looped := quoteLoop_clear (fun member => clear ((mem_utf8 marks_quote.1 body).mp member))
      (inside.ahead.trans (utf8_append _ _)) ((utf8 ('"' :: after)).length + 1)
    refine .inl ⟨body,after,rfl,clear,?_⟩
    rw [utf8_append,List.length_append,Nat.add_assoc,looped,quoteLoop,next_some ended.1]
    exact if_pos rfl
  · have whole : At input (rest ++ []) := by rwa [List.append_nil]
    have looped := quoteLoop_clear (fun member => closed ((mem_utf8 marks_quote.1 rest).mp member))
      (whole.ahead.trans (utf8_append _ _)) 1
    have ended := (whole.advance.cur_none).mpr rfl
    refine .inr ⟨closed,?_⟩
    rw [looped,quoteLoop,next_none ended]

theorem parseQuote_reads (place : At input ('"' :: rest)) : Worded ('"' :: rest) input (parseQuote input) := by
  obtain ⟨cur,inside⟩ := place.step marks_quote
  have size := size_cons '"' rest
  unfold parseQuote
  rw [next_some cur]
  dsimp only
  rw [Outcome.assert_true rfl,Outcome.ok_bind]
  rcases quoteLoop_reads inside with ⟨body,after,rfl,clear,looped⟩ | ⟨closed,looped⟩
  · have ended := inside.advance.step marks_quote
    have sliced := inside.slice (input.pos + 1 + (utf8 body).length + 1)
    dsimp only at sliced
    rw [looped,Outcome.ok_bind,Nat.add_sub_cancel,sliced]
    refine .read _ _ after ended.2 ?_ (reading_quoted clear after)
    have later := size_cons '"' after
    rw [utf8_append,List.length_append] at size
    omega
  · rw [looped]
    exact .failed _ (by simp) (reading_unclosed closed)

theorem bare_word (rest : List Char) : ∃ body after, rest = body ++ after ∧ (∀ char ∈ body, Plain char) ∧
    ∀ char ∈ after.head?, ¬Plain char := by
  refine ⟨rest.takeWhile (Plain ·),rest.dropWhile (Plain ·),List.takeWhile_append_dropWhile.symm,?_,?_⟩
  · intro char member
    simpa using List.all_eq_true.mp List.all_takeWhile char member
  · intro char first
    have stops := List.head?_dropWhile_not (fun char => decide (Plain char)) rest
    rw [Option.mem_def.mp first] at stops
    simpa using stops

theorem starts_operator {char : Char} {token : Token} (found : operator char = some token) (rest : List Char) :
    Starts (char :: rest) := by
  rcases operator_token found with ⟨-,rfl⟩ | ⟨-,rfl⟩ | ⟨-,rfl⟩
  · exact Or.inr (Or.inl rfl)
  · exact Or.inr (Or.inr (Or.inl rfl))
  · exact Or.inr (Or.inr (Or.inr rfl))

theorem delimited_starts (delimited : Delimited rest) (apart : rest.head? ≠ some ' ') : Starts rest := by
  cases rest with
  | nil => exact .inl rfl
  | cons char rest =>
    rcases delimited char rfl with rfl | found
    · exact absurd rfl apart
    · obtain ⟨token,found⟩ := Option.ne_none_iff_exists'.mp found
      exact starts_operator found rest

theorem wordLoop_delimited (place : At input rest) (delimited : Delimited rest) (fuel : Nat) :
    wordLoop (fuel + 1) input = .ok input := by
  have stopping {byte : UInt8} (cur : input.cur = some byte) (apart : byte ≠ quote) (stops : Stops byte) :
      wordLoop (fuel + 1) input = .ok input := by
    rw [wordLoop,cur]
    dsimp only
    rw [if_neg apart,if_pos stops]
    rfl
  cases rest with
  | nil =>
    rw [wordLoop,place.cur_none.mpr rfl]
    rfl
  | cons char rest =>
    rcases delimited char rfl with rfl | found
    · exact stopping (place.step marks_space).1 (by decide) (by decide)
    · obtain ⟨token,found⟩ := Option.ne_none_iff_exists'.mp found
      rcases operator_token found with ⟨-,rfl⟩ | ⟨-,rfl⟩ | ⟨-,rfl⟩
      · exact stopping (place.step marks_semicolon).1 (by decide) (by decide)
      · exact stopping (place.step marks_bar).1 (by decide) (by decide)
      · exact stopping (place.step marks_greater).1 (by decide) (by decide)

theorem wordLoop_reads (place : At input rest) (bare : rest.head? ≠ some '"') :
    ∃ body after, rest = body ++ after ∧ (∀ char ∈ body, Plain char) ∧
      ((Delimited after ∧ wordLoop (input.left + 1) input = .ok { input with pos := input.pos + (utf8 body).length }) ∨
        (body ≠ [] ∧ after.head? = some '"' ∧ wordLoop (input.left + 1) input = .error .explicit)) := by
  obtain ⟨body,after,rfl,plain,stops⟩ := bare_word rest
  have clear : ∀ byte ∈ utf8 body, byte ≠ quote ∧ ¬Stops byte := by
    intro byte member
    obtain ⟨char,listed,among⟩ := List.mem_flatMap.mp member
    exact plain_clear (plain char listed) byte among
  have looped := wordLoop_clear clear (place.ahead.trans (utf8_append _ _)) ((utf8 after).length + 1)
  refine ⟨body,after,rfl,plain,?_⟩
  rw [place.left,utf8_append,List.length_append,Nat.add_assoc,looped]
  by_cases broken : after.head? = some '"'
  · refine .inr ⟨?_,broken,?_⟩
    · rintro rfl
      exact bare broken
    · obtain ⟨after,rfl⟩ := List.head?_eq_some_iff.mp broken
      rw [wordLoop,(place.advance.step marks_quote).1]
      exact if_pos rfl
  · have delimited : Delimited after := by
      intro char first
      by_contra goes
      rw [not_or,not_not] at goes
      exact stops char first ⟨goes.1,fun same => broken (same ▸ first),goes.2⟩
    exact .inl ⟨delimited,wordLoop_delimited place.advance delimited _⟩

theorem parseWord_reads (place : At input rest) (apart : rest.head? ≠ some ' ') :
    Worded rest input (parseWord input) := by
  unfold parseWord
  by_cases quoted : rest.head? = some '"'
  · obtain ⟨rest,rfl⟩ := List.head?_eq_some_iff.mp quoted
    rw [if_pos (place.step marks_quote).1]
    exact parseQuote_reads place
  · rw [if_neg fun cur => quoted ((place.cur_eq marks_quote).mp cur)]
    obtain ⟨body,after,rfl,plain,⟨delimited,looped⟩ | ⟨some,broken,looped⟩⟩ := wordLoop_reads place quoted
    · dsimp only
      rw [looped,Outcome.ok_bind,place.slice,Outcome.ok_bind]
      cases body with
      | nil => exact .missing (delimited_starts delimited apart)
      | cons char body =>
        refine .read _ _ after place.advance ?_ (reading_bare plain delimited)
        have size := size_cons char []
        rw [utf8_append,List.length_append,utf8_cons,List.length_append]
        rw [utf8_cons,List.length_append] at size
        omega
    · dsimp only
      rw [looped]
      obtain ⟨after,rfl⟩ := List.head?_eq_some_iff.mp broken
      cases body with
      | nil => exact absurd rfl some
      | cons char body => exact .failed _ (by simp) (reading_broken plain)

theorem starts_free (starts : Starts rest) {segments : List Segment} (read : reading rest = some segments) :
    Free segments := by
  cases rest with
  | nil =>
    rw [reading_nil] at read
    cases read
    rintro _ ⟨⟩
    rfl
  | cons char rest =>
    rcases starts with same | same | same | same
    · cases same
    · cases same
      rw [reading_semicolon] at read
      obtain ⟨_,_,rfl⟩ := Option.map_eq_some_iff.mp read
      rintro _ ⟨⟩
      rfl
    · cases same
      rw [reading_pipe] at read
      obtain ⟨_,_,put⟩ := Option.bind_eq_some_iff.mp read
      exact free_onHead (Or.inl rfl) put
    · cases same
      rw [reading_redirect] at read
      obtain ⟨_,_,put⟩ := Option.bind_eq_some_iff.mp read
      exact free_onHead (Or.inr rfl) put

inductive Worded.Rest (rest : List Char) (children : List Word) : Outcome (List Word × Consume) → Prop
  | read (words next after) (place : At next after) (starts : Starts after)
      (size : (utf8 after).length ≤ (utf8 rest).length)
      (reads : reading rest = (reading after).map (addWords words)) :
      Rest rest children (.ok (children ++ words.map .normal,next))
  | failed (panic) (fuel : panic ≠ .exhausted) (none : reading rest = none) : Rest rest children (.error panic)

theorem cmdLoop_reads (fuel : Nat) (children : List Word) (place : At input rest)
    (enough : (utf8 rest).length < fuel) : Worded.Rest rest children (cmdLoop fuel children input) := by
  induction fuel generalizing children input rest with
  | zero => exact absurd enough (Nat.not_lt_zero _)
  | succ fuel ih =>
    obtain ⟨next,after,skipped,skips⟩ := skipWhitespace_skips place
    have size := skips.size
    rw [cmdLoop,skipped,Outcome.ok_bind]
    by_cases ends : Ends next.cur
    · rw [if_pos ends,Outcome.pure_ok]
      have read := @Worded.Rest.read rest children [] next after skips.place
        ((ends_iff skips.place).mp ends) size (by simp [skips.reading])
      simpa using read
    · rw [if_neg ends]
      have word := parseWord_reads skips.place skips.stays
      generalize parseWord next = parsed at word
      cases word with
      | missing starts => exact absurd ((ends_iff skips.place).mpr starts) ends
      | failed panic fuel none => exact .failed _ fuel (skips.reading ▸ none)
      | read text later remaining placed smaller reads =>
        have more := ih (children ++ [.normal text]) placed (by omega)
        dsimp only [Outcome.ok_bind]
        generalize cmdLoop fuel (children ++ [.normal text]) later = looped at more
        cases more with
        | failed panic fuel none => exact .failed _ fuel (by rw [← skips.reading,reads,none]; rfl)
        | read words final last placed starts size' reads' =>
          rw [List.append_assoc]
          refine .read (text :: words) final last placed starts (by omega) ?_
          rw [← skips.reading,reads,reads',Option.map_map]
          exact congrArg (Option.map · _) (funext fun _ => (addWords_append [text] words _).symm)

inductive Commanded (rest : List Char) : Outcome (Cmd × Consume) → Prop
  | read (words next after) (place : At next after) (starts : Starts after)
      (size : (utf8 after).length ≤ (utf8 rest).length)
      (reads : reading rest = (reading after).map (addWords words)) : Commanded rest (.ok (command words,next))
  | failed (panic) (fuel : panic ≠ .exhausted) (none : reading rest = none) : Commanded rest (.error panic)

theorem parseCmd_reads (place : At input rest) (apart : rest.head? ≠ some ' ') : Commanded rest (parseCmd input) := by
  have word := parseWord_reads place apart
  unfold parseCmd
  generalize parseWord input = parsed at word
  cases word with
  | missing starts =>
    have stays : cmdLoop (input.left + 1) [.normal ""] input = .ok ([.normal ""],input) := by
      rw [cmdLoop,skipWhitespace_stays place apart,Outcome.ok_bind,if_pos ((ends_iff place).mpr starts)]
      rfl
    dsimp only [Outcome.ok_bind]
    rw [stays]
    exact .read [] input rest place starts (Nat.le_refl _) (by simp)
  | failed panic fuel none => exact .failed _ fuel none
  | read text next after placed smaller reads =>
    have more := cmdLoop_reads (next.left + 1) [.normal text] placed (by rw [placed.left]; exact Nat.lt_succ_self _)
    dsimp only [Outcome.ok_bind]
    generalize cmdLoop (next.left + 1) [.normal text] next = looped at more
    cases more with
    | failed panic fuel none => exact .failed _ fuel (by rw [reads,none]; rfl)
    | read words final last placed starts size reads' =>
      refine .read (text :: words) final last placed starts (by omega) ?_
      rw [reads,reads',Option.map_map]
      exact congrArg (Option.map · _) (funext fun _ => (addWords_append [text] words _).symm)

/-- The end of a segment, and the segments after it. -/
inductive Closes : List Char → Option (List Segment) → Prop
  | nil : Closes [] (some [])
  | semicolon (later) : Closes (';' :: later) (reading later)

theorem closes_reading {more : Option (List Segment)} (closes : Closes rest more) :
    reading rest = more.map (⟨[],[]⟩ :: ·) := by
  cases closes with
  | nil => rfl
  | semicolon rest => exact reading_semicolon rest

inductive Clausal (rest : List Char) (children : List (RedirectClause Ast)) :
    Outcome (List (RedirectClause Ast) × Consume) → Prop
  | read (targets next after more) (place : At next after) (closes : Closes after more)
      (size : (utf8 after).length ≤ (utf8 rest).length) (reads : reading rest = more.map (⟨[],targets⟩ :: ·)) :
      Clausal rest children (.ok (children ++ targets.map clause,next))
  | refused (panic) (fuel : panic ≠ .exhausted) (crowded : ∀ segments, reading rest = some segments → ¬Free segments) :
      Clausal rest children (.error panic)

theorem Clausal.put {target : Target Cmd} {children : List (RedirectClause Ast)} {before : List Char}
    {parsed : Outcome (List (RedirectClause Ast) × Consume)}
    (clausal : Clausal rest (children ++ [clause target]) parsed)
    (size : (utf8 rest).length ≤ (utf8 before).length)
    (reads : ∀ targets (more : Option (List Segment)), reading rest = more.map (⟨[],targets⟩ :: ·) →
      reading before = more.map (⟨[],target :: targets⟩ :: ·))
    (none : (∀ segments, reading rest = some segments → ¬Free segments) → reading before = none) :
    Clausal before children parsed := by
  cases clausal with
  | read targets next after more place closes size' reads' =>
    rw [List.append_assoc]
    exact .read (target :: targets) next after more place closes (by omega) (reads _ _ reads')
  | refused panic fuel crowded =>
    refine .refused panic fuel fun segments read => ?_
    rw [none crowded] at read
    cases read

/-- What the loop over the clauses does from any place with less in front of the cursor. -/
def Loops (fuel : Nat) : Prop := ∀ (children : List (RedirectClause Ast)) (input : Consume) (rest : List Char),
  At input rest → (utf8 rest).length < fuel → Clausal rest children (pipeLoop fuel children input)

theorem Loops.pipe {fuel : Nat} (loops : Loops fuel) (children : List (RedirectClause Ast)) (place : At input rest)
    (enough : (utf8 rest).length < fuel) : Clausal ('|' :: rest) children (do
      let input ← skipWhitespace input
      let (cmd,input) ← parseCmd input
      pipeLoop fuel (children ++ [⟨.stdout,.command (.cmd cmd)⟩]) input) := by
  obtain ⟨next,after,skipped,skips⟩ := skipWhitespace_skips place
  have size := skips.size
  have larger := size_cons '|' rest
  have cmd := parseCmd_reads skips.place skips.stays
  rw [skipped,Outcome.ok_bind]
  generalize parseCmd next = parsed at cmd
  cases cmd with
  | failed panic fuel none =>
    refine .refused panic fuel fun segments read => ?_
    rw [reading_pipe,← skips.reading,none] at read
    cases read
  | read words later last placed starts size' reads =>
    have clausal := loops (children ++ [clause (.command (command words))]) later last placed (by omega)
    refine clausal.put (by omega) (fun targets more shape => ?_) fun crowded => ?_
    · rw [reading_pipe,← skips.reading,reads,shape]
      cases more <;> simp [onHead,extend,addWords]
    · rw [reading_pipe,← skips.reading,reads]
      cases read : reading last with
      | none => rfl
      | some segments => exact absurd (starts_free starts read) (crowded segments read)

theorem Loops.redirect {fuel : Nat} (loops : Loops fuel) (children : List (RedirectClause Ast)) (place : At input rest)
    (enough : (utf8 rest).length < fuel) : Clausal ('>' :: rest) children (do
      let input ← skipWhitespace input
      let (word,input) ← parseWord input
      pipeLoop fuel (children ++ [⟨.stdout,.file word⟩]) input) := by
  obtain ⟨next,after,skipped,skips⟩ := skipWhitespace_skips place
  have size := skips.size
  have larger := size_cons '>' rest
  have word := parseWord_reads skips.place skips.stays
  rw [skipped,Outcome.ok_bind]
  generalize parseWord next = parsed at word
  cases word with
  | failed panic fuel none =>
    refine .refused panic fuel fun segments read => ?_
    rw [reading_redirect,← skips.reading,none] at read
    cases read
  | missing starts =>
    have clausal := loops (children ++ [clause (.file (.normal ""))]) next after skips.place (by omega)
    refine clausal.put (by omega) (fun targets more shape => ?_) fun crowded => ?_
    · rw [reading_redirect,← skips.reading,shape]
      cases more <;> simp [onHead,extend]
    · rw [reading_redirect,← skips.reading]
      cases read : reading after with
      | none => rfl
      | some segments => exact absurd (starts_free starts read) (crowded segments read)
  | read text later last placed smaller reads =>
    have clausal := loops (children ++ [clause (.file (.normal text))]) later last placed (by omega)
    refine clausal.put (by omega) (fun targets more shape => ?_) fun crowded => ?_
    · rw [reading_redirect,← skips.reading,reads,shape]
      cases more <;> simp [onHead,extend,addWords]
    · rw [reading_redirect,← skips.reading,reads]
      cases read : reading last with
      | none => rfl
      | some segments => exact onHead_crowded (crowded segments read)

theorem crowded_word (place : At input rest) (apart : rest.head? ≠ some ' ') (word : ¬Starts rest)
    {segments : List Segment} (read : reading rest = some segments) : ¬Free segments := by
  have words := parseWord_reads place apart
  generalize parseWord input = parsed at words
  cases words with
  | missing starts => exact absurd starts word
  | failed panic fuel none => rw [none] at read; cases read
  | read text next after placed smaller reads =>
    rw [reads] at read
    obtain ⟨segments,found,rfl⟩ := Option.map_eq_some_iff.mp read
    cases segments with
    | nil => exact absurd rfl (reading_ne_nil found)
    | cons segment more => simp [Free,addWords]

theorem pipeLoop_reads (fuel : Nat) : Loops fuel := by
  induction fuel with
  | zero => exact fun _ _ _ _ enough => absurd enough (Nat.not_lt_zero _)
  | succ fuel ih =>
    intro children input rest place enough
    obtain ⟨next,after,skipped,skips⟩ := skipWhitespace_skips place
    have size := skips.size
    suffices clausal : Clausal after children (pipeLoop (fuel + 1) children input) by
      generalize pipeLoop (fuel + 1) children input = parsed at clausal ⊢
      cases clausal with
      | read targets next after more place closes size' reads =>
        exact .read targets next after more place closes (by omega) (skips.reading ▸ reads)
      | refused panic fuel crowded => exact .refused panic fuel (skips.reading ▸ crowded)
    rw [pipeLoop,skipped,Outcome.ok_bind]
    have ended {more : Option (List Segment)} (closes : Closes after more) :
        Clausal after children (.ok (children,next)) := by
      have read := @Clausal.read after children [] next after more skips.place closes (Nat.le_refl _)
        (closes_reading closes)
      simpa using read
    by_cases starts : Starts after
    · rcases starts with none | first | first | first
      · obtain rfl := List.head?_eq_none_iff.mp none
        rw [skips.place.cur_none.mpr rfl]
        exact ended .nil
      · obtain ⟨after,rfl⟩ := List.head?_eq_some_iff.mp first
        rw [(skips.place.step marks_semicolon).1]
        exact ended (.semicolon after)
      · obtain ⟨after,rfl⟩ := List.head?_eq_some_iff.mp first
        obtain ⟨cur,placed⟩ := skips.place.step marks_bar
        have smaller := size_cons '|' after
        rw [cur]
        simp only [if_pos,next_some cur]
        exact ih.pipe children placed (by omega)
      · obtain ⟨after,rfl⟩ := List.head?_eq_some_iff.mp first
        obtain ⟨cur,placed⟩ := skips.place.step marks_greater
        have smaller := size_cons '>' after
        rw [cur]
        simp only [next_some cur]
        exact ih.redirect children placed (by omega)
    · have goes := fun ends => starts ((ends_iff skips.place).mp ends)
      have crowded := fun segments => @crowded_word next after skips.place skips.stays starts segments
      split
      · rename_i none
        exact absurd (Or.inl none) goes
      · rename_i byte cur
        rw [if_neg,if_neg,if_neg]
        · exact .refused _ (by simp [unexpected]) crowded
        · rintro rfl
          exact goes (Or.inr (Or.inl cur))
        · rintro rfl
          exact goes (Or.inr (Or.inr (Or.inr cur)))
        · rintro rfl
          exact goes (Or.inr (Or.inr (Or.inl cur)))

inductive Piped (rest : List Char) : Outcome (Ast × Consume) → Prop
  | read (segment : Segment) (next after more) (place : At next after) (closes : Closes after more)
      (size : (utf8 after).length ≤ (utf8 rest).length) (reads : reading rest = more.map (segment :: ·)) :
      Piped rest (.ok (segment.pipeline.ast,next))
  | failed (panic) (fuel : panic ≠ .exhausted) (none : reading rest = none) : Piped rest (.error panic)

theorem parsePipe_reads (place : At input rest) (apart : rest.head? ≠ some ' ') : Piped rest (parsePipe input) := by
  have cmd := parseCmd_reads place apart
  unfold parsePipe
  generalize parseCmd input = parsed at cmd
  cases cmd with
  | failed panic fuel none => exact .failed _ fuel none
  | read words next after placed starts size reads =>
    have clausal := pipeLoop_reads (next.left + 1) [] next after placed (by rw [placed.left]; exact Nat.lt_succ_self _)
    dsimp only [Outcome.ok_bind]
    generalize pipeLoop (next.left + 1) [] next = looped at clausal
    cases clausal with
    | refused panic fuel crowded =>
      refine .failed _ fuel ?_
      rw [reads]
      cases read : reading after with
      | none => rfl
      | some segments => exact absurd (starts_free starts read) (crowded segments read)
    | read targets final last more placed closes size' reads' =>
      have shape : (if ([] ++ targets.map clause).length = 0 then Ast.cmd (command words)
          else .redirect (.cmd (command words)) ([] ++ targets.map clause)) =
            (⟨words,targets⟩ : Segment).pipeline.ast := by
        cases targets <;> rfl
      dsimp only [Outcome.ok_bind]
      rw [shape]
      refine .read ⟨words,targets⟩ final last more placed closes (by omega) ?_
      rw [reads,reads']
      cases more <;> simp [addWords]

def later (segment : Segment) : SequenceClause Ast := ⟨.wait,segment.pipeline.ast⟩

inductive Sequenced (children : List (SequenceClause Ast)) :
    Option (List Segment) → Outcome (List (SequenceClause Ast) × Consume) → Prop
  | read (segments next) (place : At next []) :
      Sequenced children (some segments) (.ok (children ++ segments.map later,next))
  | failed (panic) (fuel : panic ≠ .exhausted) : Sequenced children none (.error panic)

theorem seqLoop_reads (fuel : Nat) (children : List (SequenceClause Ast)) {more : Option (List Segment)}
    (place : At input rest) (closes : Closes rest more) (enough : (utf8 rest).length < fuel) :
    Sequenced children more (seqLoop fuel children input) := by
  induction fuel generalizing children input rest more with
  | zero => exact absurd enough (Nat.not_lt_zero _)
  | succ fuel ih =>
    cases closes with
    | nil =>
      rw [seqLoop,skipWhitespace_stays place (by simp),Outcome.ok_bind,place.cur_none.mpr rfl]
      have read := @Sequenced.read children [] input place
      simpa using read
    | semicolon rest =>
      obtain ⟨cur,placed⟩ := place.step marks_semicolon
      obtain ⟨next,after,skipped,skips⟩ := skipWhitespace_skips placed
      have size := skips.size
      have smaller := size_cons ';' rest
      have piped := parsePipe_reads skips.place skips.stays
      rw [seqLoop,skipWhitespace_stays place (by simp),Outcome.ok_bind,cur]
      simp only [if_pos,next_some cur,skipped,Outcome.ok_bind]
      generalize parsePipe next = parsed at piped
      cases piped with
      | failed panic fuel none =>
        rw [← skips.reading,none]
        exact .failed _ fuel
      | read segment final last more place closes size' reads =>
        have sequenced := ih (children ++ [later segment]) place closes (by omega)
        rw [← skips.reading,reads]
        dsimp only [Outcome.ok_bind]
        change Sequenced children _ (seqLoop fuel (children ++ [later segment]) final)
        generalize seqLoop fuel (children ++ [later segment]) final = looped at sequenced ⊢
        cases sequenced with
        | failed panic fuel => exact .failed _ fuel
        | read segments finish place =>
          rw [List.append_assoc]
          exact .read (segment :: segments) finish place

theorem parseSeq_reads (place : At input rest) (apart : rest.head? ≠ some ' ') :
    (∃ segments next, parseSeq input = .ok (line segments,next) ∧ At next [] ∧ reading rest = some segments) ∨
      (∃ panic, parseSeq input = .error panic ∧ panic ≠ .exhausted) ∧ reading rest = none := by
  have piped := parsePipe_reads place apart
  unfold parseSeq
  generalize parsePipe input = parsed at piped
  cases piped with
  | failed panic fuel none => exact Or.inr ⟨⟨panic,rfl,fuel⟩,none⟩
  | read segment next after more placed closes size reads =>
    have sequenced := seqLoop_reads (next.left + 1) [] placed closes (by rw [placed.left]; exact Nat.lt_succ_self _)
    dsimp only [Outcome.ok_bind]
    generalize seqLoop (next.left + 1) [] next = looped at sequenced
    cases sequenced with
    | failed panic fuel => exact Or.inr ⟨⟨panic,rfl,fuel⟩,reads⟩
    | read segments final place =>
      refine Or.inl ⟨segment :: segments,final,?_,place,reads⟩
      cases segments <;> rfl

/-- What parsing a line comes to, beside what the grammar says. -/
inductive Lined : Option Ast → Outcome Ast → Prop
  | read (ast : Ast) : Lined (some ast) (.ok ast)
  | failed (panic : Panic) (fuel : panic ≠ .exhausted) : Lined none (.error panic)

theorem parseInput_lined (input : String) : Lined (reference input) (parseInput input) := by
  obtain ⟨next,after,skipped,place,stays,same,-⟩ := skipWhitespace_skips (At.start input)
  unfold parseInput parseLine reference
  rw [skipped,Outcome.ok_bind,← same]
  cases after with
  | nil =>
    rw [if_pos (place.cur_none.mpr rfl)]
    exact .read .empty
  | cons char after =>
    rw [if_neg fun none => List.cons_ne_nil _ _ (place.cur_none.mp none)]
    have apart : char ≠ ' ' := fun same => stays (congrArg some same)
    have some {tokens : List Token} (lexed : lex (char :: after) = .some tokens) : tokens ≠ [] :=
      fun empty => lex_ne_nil apart after (empty ▸ lexed)
    rcases parseSeq_reads place stays with ⟨segments,final,parsed,ended,reads⟩ | ⟨⟨panic,parsed,fuel⟩,none⟩
    · have whole : final.pos = final.text.length := by
        obtain ⟨before,shape,pos⟩ := ended.split
        rw [ended.text,shape,List.append_nil,bytes_ofList,pos]
      rw [parsed,Outcome.ok_bind]
      dsimp only
      rw [Outcome.assert_true whole,Outcome.ok_bind]
      obtain ⟨tokens,lexed,read⟩ := Option.bind_eq_some_iff.mp reads
      simp only [lexed,some lexed,read,if_false,Option.bind_eq_bind,Option.bind_some]
      exact .read _
    · rw [parsed]
      cases lexed : lex (char :: after) with
      | none => exact .failed panic fuel
      | some tokens =>
        have failed : readSegments tokens = .none := by simpa [reading,lexed] using none
        simp only [some lexed,failed,if_false,Option.bind_eq_bind,Option.bind_some,Option.bind_none]
        exact .failed panic fuel

/-- The loops come to an end. -/
theorem parseInput_ends (input : String) : parseInput input ≠ .error .exhausted := by
  have lined := parseInput_lined input
  intro panics
  rw [panics] at lined
  generalize reference input = read at lined
  cases lined with
  | failed _ fuel => exact fuel rfl

theorem parsed_of_reference {input : String} {ast : Ast} (read : reference input = some ast) :
    parseInput input = .ok ast := by
  have lined := parseInput_lined input
  rw [read] at lined
  generalize parseInput input = parsed at lined
  cases lined
  rfl

theorem reference_of_parsed {input : String} {ast : Ast} (parsed : parseInput input = .ok ast) :
    reference input = some ast := by
  have lined := parseInput_lined input
  rw [parsed] at lined
  generalize reference input = read at lined
  cases lined
  rfl

/-- For every line the parser returns exactly when the grammar reads it, and then returns
what the grammar reads. -/
theorem parseInput_iff_reference (input : String) (ast : Ast) :
    parseInput input = .ok ast ↔ reference input = some ast :=
  ⟨reference_of_parsed,parsed_of_reference⟩

end Nak.Parse
