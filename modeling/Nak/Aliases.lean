import Nak.Matching

/-! What the aliases make of a command. -/
namespace Nak
open Library Prefs Matching

variable {rule : Rule} {rules : List Rule} {cmd : List String} {final : Matching}

theorem items_matched {find : List Item} (distinct : (mentions find).Nodup)
    (fires : Matching.items find (.start cmd) = .ok (some final)) : Matched find (.start cmd) final := by
  have tried := items_tried (sound_start cmd) distinct fun id _ => unbound_start cmd id
  rw [fires] at tried
  cases tried
  assumption

/-- An expando that is not the last item, with words left for it. -/
def ReadsAgain (find : List Item) (cmd : List String) : Prop :=
  ∃ place id, find[place]? = some (.expando id) ∧ place + 1 < find.length ∧ place < cmd.length

theorem prefix_append {cmd more : List String} : cmd ++ more <+: cmd ↔ more = [] := by
  constructor
  · intro front
    have := front.length_le
    rw [List.length_append] at this
    exact List.eq_nil_of_length_eq_zero (by omega)
  · rintro rfl
    exact ⟨[],by simp⟩

/-- The words taken by the items of a rule that fires are a beginning of the command exactly
when no expando leaves its first word to an item after it. -/
theorem taken_prefix_iff (distinct : (mentions rule.find).Nodup)
    (fires : Matching.items rule.find (.start cmd) = .ok (some final)) :
    final.binding.instantiate rule.find <+: cmd ↔ ¬ReadsAgain rule.find cmd := by
  have matched := items_matched distinct fires
  rcases plain_or_expando rule.find with plain | ⟨before,id,after,shape,plain⟩
  · have words := (matched.plain distinct plain).1
    rw [ahead_start] at words
    refine iff_of_true ⟨_,words⟩ ?_
    rintro ⟨place,id,found,-⟩
    exact plain id (List.mem_of_getElem? found)
  · rw [shape] at matched distinct ⊢
    obtain ⟨again,none⟩ := matched.expando (sound_start cmd) distinct plain
    rw [ahead_start] at again none
    rw [again,prefix_append,none]
    constructor
    · rintro enough ⟨place,other,found,inside,short⟩
      have beyond : before.length ≤ place := by
        by_contra early
        rw [List.getElem?_append_left (by omega)] at found
        exact plain other (List.mem_of_getElem? found)
      rcases enough with rfl | used
      · simp only [List.length_append,List.length_cons,List.length_nil] at inside
        omega
      · omega
    · intro once
      by_contra left
      rw [not_or,Nat.not_le] at left
      refine once ⟨before.length,id,by simp,?_,left.2⟩
      have := List.length_pos_iff.mpr left.1
      simp only [List.length_append,List.length_cons]
      omega

/-- `g commit`: the literal takes `g`, the expando `commit`. -/
theorem taken_prefix_iff_expando : ∃ final,
    Matching.items [.literal "g",.expando 0] (.start ["g","commit"]) = .ok (some final) ∧
      final.binding.instantiate [.literal "g",.expando 0] <+: ["g","commit"] := by
  refine ⟨_,rfl,(@taken_prefix_iff ⟨[.literal "g",.expando 0],[]⟩ _ _ (by decide) rfl).mpr ?_⟩
  rintro ⟨place,id,found,inside,_⟩
  have inside : place + 1 < 2 := inside
  obtain rfl : place = 0 := by omega
  cases found

/-- The variable takes the word that the expando has already taken. -/
theorem taken_prefix_fails : (mentions [.expando 0,.variable 1]).Nodup ∧ ∃ final,
    Matching.items [.expando 0,.variable 1] (.start ["a"]) = .ok (some final) ∧
      ¬final.binding.instantiate [.expando 0,.variable 1] <+: ["a"] :=
  ⟨by decide,_,rfl,by decide⟩

def Fires (find : List Item) (cmd : List String) : Prop :=
  ∃ final, Matching.items find (.start cmd) = .ok (some final)

/-- What is replaced uses only what the pattern binds, in the same kind. -/
def Rule.Bound (rule : Rule) : Prop := ∀ item ∈ rule.replace, item.mention ≠ none → item ∈ rule.find

/-- The first of them that is chosen, if there is one, is good. -/
def FirstIs {α : Type} (chosen good : α → Prop) : List α → Prop
  | [] => True
  | first :: rest => (chosen first → good first) ∧ (¬chosen first → FirstIs chosen good rest)

/-- The first rule that fires gives the words that its pattern has taken, as often as it
mentions them; without such a rule the command stays. -/
def Contributed : List Rule → List String → List String → Prop
  | [], cmd, words => words = cmd
  | rule :: rules, cmd, words =>
    (∃ final, Matching.items rule.find (.start cmd) = .ok (some final) ∧
      words = final.binding.instantiate rule.replace) ∨
    ¬Fires rule.find cmd ∧ Contributed rules cmd words

theorem mention_unique {items : List Item} (distinct : (mentions items).Nodup) {first second : Item} {id : Nat}
    (among : first ∈ items) (among' : second ∈ items) (mentioned : first.mention = some id)
    (mentioned' : second.mention = some id) : first = second := by
  induction items with
  | nil => simp at among
  | cons item items ih =>
    rw [mentions_cons] at distinct
    obtain ⟨-,others,apart⟩ := List.nodup_append.mp distinct
    have listed {other : Item} (among : other ∈ items) (mentioned : other.mention = some id) : id ∈ mentions items :=
      List.mem_filterMap.mpr ⟨other,among,mentioned⟩
    rcases List.mem_cons.mp among with rfl | later
    · rcases List.mem_cons.mp among' with rfl | later'
      · rfl
      · exact absurd rfl (apart id (Option.mem_toList.mpr mentioned) id (listed later' mentioned'))
    · rcases List.mem_cons.mp among' with rfl | later'
      · exact absurd rfl (apart id (Option.mem_toList.mpr mentioned') id (listed later mentioned))
      · exact ih others later later'

theorem once_iff (distinct : (mentions rule.find).Nodup) (bound : rule.Bound) :
    Once rule.replace ↔ (mentions rule.replace).Nodup := by
  rw [Once,mentions,List.Nodup,List.pairwise_filterMap]
  refine List.Pairwise.iff_of_mem fun {first second} among among' => ?_
  constructor
  · rintro apart id mentioned other mentioned' rfl
    rcases apart with none | different
    · rw [none] at mentioned'
      cases mentioned'
    · refine different (mention_unique distinct ?_ ?_ mentioned' mentioned)
      · exact bound second among' (by simp [mentioned'])
      · exact bound first among (by simp [mentioned])
  · intro apart
    cases mentioned : second.mention with
    | none => exact Or.inl rfl
    | some id =>
      refine Or.inr ?_
      rintro rfl
      exact apart id mentioned id mentioned rfl

theorem construct_once (distinct : (mentions rule.find).Nodup) (bound : rule.Bound)
    (fires : Matching.items rule.find (.start cmd) = .ok (some final)) (words : List String) :
    construct rule.replace final = .ok words ↔
      (mentions rule.replace).Nodup ∧ words = final.binding.instantiate rule.replace := by
  rw [← once_iff distinct bound]
  refine construct_iff (fun item among => ?_) words
  cases mentioned : item.mention with
  | none =>
    cases item with
    | literal word => trivial
    | _ => cases mentioned
  | some id =>
    exact (items_matched distinct fires).bound.1 item (bound item among (by simp [mentioned]))

theorem expandWith_cons (distinct : (mentions rule.find).Nodup) (rules : List Rule) (cmd : List String) :
    (∃ final, Matching.items rule.find (.start cmd) = .ok (some final) ∧
      expandWith (rule :: rules) cmd = construct rule.replace final) ∨
    ¬Fires rule.find cmd ∧ expandWith (rule :: rules) cmd = expandWith rules cmd := by
  have tried := items_tried (sound_start cmd) distinct fun id _ => unbound_start cmd id
  rw [Fires,expandWith]
  generalize Matching.items rule.find (.start cmd) = outcome at tried
  cases tried with
  | took final matched => exact Or.inl ⟨final,rfl,rfl⟩
  | refused never => exact Or.inr ⟨by simp,rfl⟩

/-- Whatever the command, the expansion succeeds, with the words of each mention, exactly
when the first rule that fires mentions no id twice. -/
theorem expand_contributes_iff (distinct : ∀ rule ∈ rules, (mentions rule.find).Nodup)
    (bound : ∀ rule ∈ rules, rule.Bound) (cmd : List String) :
    (∃ words, Prefs.expand ⟨rules⟩ cmd = .ok words ∧ Contributed rules cmd words) ↔
      FirstIs (fun rule => Fires rule.find cmd) (fun rule => (mentions rule.replace).Nodup) rules := by
  change (∃ words, expandWith rules cmd = .ok words ∧ _) ↔ _
  induction rules with
  | nil => simp [expandWith,Contributed,FirstIs]
  | cons rule rules ih =>
    obtain ⟨first,distinct⟩ := List.forall_mem_cons.mp distinct
    obtain ⟨own,bound⟩ := List.forall_mem_cons.mp bound
    rw [FirstIs]
    rcases expandWith_cons first rules cmd with ⟨final,fires,expanded⟩ | ⟨idle,expanded⟩
    · rw [expanded]
      constructor
      · rintro ⟨words,made,-⟩
        exact ⟨fun _ => ((construct_once first own fires words).mp made).1,fun idle => absurd ⟨final,fires⟩ idle⟩
      · rintro ⟨once,-⟩
        exact ⟨_,(construct_once first own fires _).mpr ⟨once ⟨final,fires⟩,rfl⟩,Or.inl ⟨final,fires,rfl⟩⟩
    · rw [expanded]
      refine (exists_congr fun words => and_congr_right fun _ => ?_).trans ((ih distinct bound).trans ?_)
      · exact ⟨fun contributed => contributed.elim (fun ⟨final,fires,_⟩ => absurd ⟨final,fires⟩ idle) And.right,
          fun rest => Or.inr ⟨idle,rest⟩⟩
      · exact ⟨fun rest => ⟨fun fires => absurd fires idle,fun _ => rest⟩,fun whole => whole.2 idle⟩

theorem expand_contributes_iff_variable : ∃ words,
    Prefs.expand ⟨[⟨[.variable 0,.variable 1],[.variable 1,.literal "x",.variable 0]⟩]⟩ ["a","b"] = .ok words ∧
      Contributed [⟨[.variable 0,.variable 1],[.variable 1,.literal "x",.variable 0]⟩] ["a","b"] words := by
  refine (expand_contributes_iff (by decide) ?_ ["a","b"]).mpr ⟨fun _ => by decide,fun _ => trivial⟩
  unfold Rule.Bound
  decide

/-- The second mention of a variable finds that its word is gone. -/
theorem expand_contributes_fails :
    (mentions [.variable 0]).Nodup ∧ Rule.Bound ⟨[.variable 0],[.variable 0,.variable 0]⟩ ∧
    Prefs.expand ⟨[⟨[.variable 0],[.variable 0,.variable 0]⟩]⟩ ["a"] = .error .unwrap := by
  unfold Rule.Bound
  exact ⟨by decide,by decide,rfl⟩

structure Simple (find : List Item) : Prop where
  distinct : (mentions find).Nodup
  last : ExpandoLast find

/-- The output uses what the pattern binds, and each at most once. -/
structure Rule.Linear (rule : Rule) : Prop where
  bound : rule.Bound
  once : (mentions rule.replace).Nodup

/-- Some words for the ids make the pattern the whole command. -/
def Matches (find : List Item) (cmd : List String) : Prop := ∃ binding : Binding, binding.instantiate find = cmd

/-- What a command is to be rewritten to: the first rule whose pattern matches it says so,
and without one it stays. -/
def Rewrites : List Rule → List String → List String → Prop
  | [], cmd, result => result = cmd
  | rule :: rules, cmd, result =>
    (∃ binding : Binding, binding.instantiate rule.find = cmd ∧ result = binding.instantiate rule.replace) ∨
    ¬Matches rule.find cmd ∧ Rewrites rules cmd result

/-- Some words for the ids make the pattern a beginning of the command. -/
def Begins (find : List Item) (cmd : List String) : Prop := ∃ binding : Binding, binding.instantiate find <+: cmd

/-- The pattern leaves nothing of a command that it begins. -/
def Exhausts (find : List Item) (cmd : List String) : Prop :=
  (∃ id, find.getLast? = some (.expando id)) ∨ find.length = cmd.length

variable {find : List Item}

theorem plain_length (plain : Plain find) (binding : Binding) : (binding.instantiate find).length = find.length := by
  induction find with
  | nil => rfl
  | cons item find ih =>
    rw [Binding.instantiate_cons,List.length_append,ih fun id among => plain id (List.mem_cons_of_mem _ among)]
    cases item with
    | expando id => exact absurd List.mem_cons_self (plain id)
    | _ => exact Nat.add_comm _ _

theorem Simple.cases (simple : Simple find) :
    Plain find ∨ ∃ before id, find = before ++ [.expando id] ∧ Plain before := by
  refine (plain_or_expando find).imp_right ?_
  rintro ⟨before,id,after,shape,plain⟩
  obtain rfl := simple.last before id after shape
  exact ⟨before,id,shape,plain⟩

theorem Simple.begins (simple : Simple find) (matched : Matched find (.start cmd) final) :
    ∃ rest, final.binding.instantiate find ++ rest = cmd ∧ (Exhausts find cmd → rest = []) := by
  rcases simple.cases with plain | ⟨before,id,rfl,plain⟩
  · obtain ⟨words,length⟩ := matched.plain simple.distinct plain
    rw [ahead_start] at words length
    refine ⟨final.ahead,words,fun exhausts => ?_⟩
    rcases exhausts with ⟨id,last⟩ | whole
    · exact absurd (List.mem_of_getLast? last) (plain id)
    · exact List.eq_nil_of_length_eq_zero (by omega)
  · have words := (matched.expando (sound_start cmd) simple.distinct plain).1
    rw [ahead_start] at words
    exact ⟨[],by rw [List.append_nil,words]; exact List.append_nil _,fun _ => rfl⟩

theorem fires_iff (simple : Simple find) : Fires find cmd ↔ Begins find cmd := by
  constructor
  · rintro ⟨final,fires⟩
    obtain ⟨rest,words,-⟩ := simple.begins (items_matched simple.distinct fires)
    exact ⟨final.binding,rest,words⟩
  · rintro ⟨binding,rest,words⟩
    obtain ⟨final,matched⟩ := matched_exists simple.last (sound_start cmd) ((ahead_start cmd).trans words.symm)
    have tried := items_tried (sound_start cmd) simple.distinct fun id _ => unbound_start cmd id
    rw [Fires]
    generalize Matching.items find (.start cmd) = outcome at tried
    cases tried with
    | took final _ => exact ⟨final,rfl⟩
    | refused never => exact absurd matched (never final)

theorem matches_iff (simple : Simple find) : Matches find cmd ↔ Begins find cmd ∧ Exhausts find cmd := by
  constructor
  · rintro ⟨binding,rfl⟩
    refine ⟨⟨binding,List.prefix_refl _⟩,?_⟩
    rcases simple.cases with plain | ⟨before,id,rfl,plain⟩
    · exact Or.inr (plain_length plain binding).symm
    · exact Or.inl ⟨id,List.getLast?_concat⟩
  · rintro ⟨begins,exhausts⟩
    obtain ⟨final,fires⟩ := (fires_iff simple).mpr begins
    obtain ⟨rest,words,whole⟩ := simple.begins (items_matched simple.distinct fires)
    rw [whole exhausts,List.append_nil] at words
    exact ⟨final.binding,words⟩

theorem linear_literals (literals : ∀ item ∈ rule.replace, item.mention = none) : rule.Linear where
  bound item among mentioned := absurd (literals item among) mentioned
  once := by
    rw [mentions,List.filterMap_eq_nil_iff.mpr literals]
    exact List.nodup_nil

theorem rewrites_blank {finds : List (List Item)} {cmd : List String}
    (rewrites : Rewrites (finds.map fun find => ⟨find,[.literal ""]⟩) cmd []) : cmd = [] := by
  induction finds with
  | nil => exact Eq.symm rewrites
  | cons find finds ih =>
    rcases rewrites with ⟨binding,-,same⟩ | ⟨-,later⟩
    · cases same
    · exact ih later

/-- Whatever the rules with these patterns put out, the expansion is the first match exactly
when the first pattern that begins the command leaves nothing of it. -/
theorem expand_rewrites_iff {finds : List (List Item)} (simple : ∀ find ∈ finds, Simple find) (cmd : List String) :
    (∀ rules : List Rule, rules.map Rule.find = finds → (∀ rule ∈ rules, rule.Linear) →
      ∃ result, Prefs.expand ⟨rules⟩ cmd = .ok result ∧ Rewrites rules cmd result) ↔
    FirstIs (fun find => Begins find cmd) (fun find => Exhausts find cmd) finds := by
  change (∀ rules, _ → _ → ∃ result, expandWith rules cmd = .ok result ∧ _) ↔ _
  induction finds with
  | nil =>
    refine iff_of_true ?_ trivial
    rintro rules none -
    obtain rfl := List.map_eq_nil_iff.mp none
    exact ⟨cmd,rfl,rfl⟩
  | cons find finds ih =>
    obtain ⟨first,others⟩ := List.forall_mem_cons.mp simple
    rw [FirstIs]
    constructor
    · refine fun holds => ⟨fun begins => ?_,fun idle => (ih others).mp fun rules shape linear => ?_⟩
      · by_contra left
        have unmatched : ¬Matches find cmd := fun matched => left ((matches_iff first).mp matched).2
        let blanks : List Rule := finds.map fun find => ⟨find,[.literal ""]⟩
        have linear : ∀ rule ∈ ⟨find,[]⟩ :: blanks, rule.Linear := by
          refine List.forall_mem_cons.mpr ⟨linear_literals (by simp),fun rule among => ?_⟩
          obtain ⟨find,-,rfl⟩ := List.mem_map.mp among
          exact linear_literals (by simp [Item.mention])
        obtain ⟨result,expanded,rewrites⟩ := holds _ (by simp [blanks,Function.comp_def]) linear
        rcases @expandWith_cons ⟨find,[]⟩ first.distinct blanks cmd with ⟨final,-,same⟩ | ⟨idle,-⟩
        · obtain rfl : [] = result := Except.ok.inj (same.symm.trans expanded)
          rcases rewrites with ⟨binding,matched,-⟩ | ⟨-,later⟩
          · exact unmatched ⟨binding,matched⟩
          · obtain rfl := rewrites_blank later
            obtain ⟨binding,front⟩ := begins
            exact unmatched ⟨binding,List.prefix_nil.mp front⟩
        · exact idle ((fires_iff first).mpr begins)
      · obtain ⟨result,expanded,rewrites⟩ := holds (⟨find,[]⟩ :: rules) (by simp [shape])
          (List.forall_mem_cons.mpr ⟨linear_literals (by simp),linear⟩)
        rcases @expandWith_cons ⟨find,[]⟩ first.distinct rules cmd with ⟨final,fires,-⟩ | ⟨-,same⟩
        · exact absurd ((fires_iff first).mp ⟨final,fires⟩) idle
        · rcases rewrites with ⟨binding,matched,-⟩ | ⟨-,rewrites⟩
          · exact absurd ((matches_iff first).mp ⟨binding,matched⟩).1 idle
          · exact ⟨result,same ▸ expanded,rewrites⟩
    · rintro ⟨exhausts,later⟩ rules shape linear
      obtain ⟨rule,rules,rfl,rfl,rfl⟩ := List.map_eq_cons_iff.mp shape
      obtain ⟨own,linear⟩ := List.forall_mem_cons.mp linear
      rcases expandWith_cons first.distinct rules cmd with ⟨final,fires,expanded⟩ | ⟨idle,expanded⟩
      · obtain ⟨rest,words,whole⟩ := first.begins (items_matched first.distinct fires)
        rw [whole (exhausts ((fires_iff first).mp ⟨final,fires⟩)),List.append_nil] at words
        rw [expanded]
        exact ⟨_,(construct_once first.distinct own.bound fires _).mpr ⟨own.once,rfl⟩,Or.inl ⟨_,words,rfl⟩⟩
      · have idle : ¬Begins rule.find cmd := fun begins => idle ((fires_iff first).mpr begins)
        obtain ⟨result,same,rewrites⟩ := (ih others).mpr (later idle) rules rfl linear
        refine ⟨result,expanded.trans same,Or.inr ⟨fun matched => idle ?_,rewrites⟩⟩
        exact ((matches_iff first).mp matched).1

/-- `g` before a literal and an expando: the first leaves a word of the command, the second
begins it with nothing left. -/
theorem expand_rewrites_iff_git : ∃ result,
    Prefs.expand ⟨[⟨[.literal "g",.literal "s"],[.literal "git",.literal "status"]⟩,
      ⟨[.literal "g",.expando 0],[.literal "git",.expando 0]⟩]⟩ ["g","a","file"] = .ok result ∧
    Rewrites [⟨[.literal "g",.literal "s"],[.literal "git",.literal "status"]⟩,
      ⟨[.literal "g",.expando 0],[.literal "git",.expando 0]⟩] ["g","a","file"] result := by
  have unbegun : ¬Begins [.literal "g",.literal "s"] ["g","a","file"] := by
    rintro ⟨binding,front⟩
    simp [Binding.instantiate,Binding.taken] at front
  have simple : ∀ find ∈ [[Item.literal "g",.literal "s"],[.literal "g",.expando 0]], Simple find := by
    simp only [List.forall_mem_cons,List.not_mem_nil,false_implies,implies_true,and_true]
    exact ⟨⟨by decide,expandoLast_plain (by simp [Plain])⟩,⟨by decide,expandoLast_plain (by simp [Plain])⟩⟩
  refine (expand_rewrites_iff simple ["g","a","file"]).mpr ?_ _ rfl ?_
  · exact ⟨fun begins => absurd begins unbegun,fun _ => ⟨fun _ => Or.inl ⟨0,rfl⟩,fun _ => trivial⟩⟩
  · simp only [List.forall_mem_cons,List.not_mem_nil,false_implies,implies_true,and_true]
    exact ⟨linear_literals (by simp [Item.mention]),⟨by unfold Rule.Bound; decide,by decide⟩⟩

/-- A pattern that begins the command is taken for a match: the word after it is dropped. -/
theorem expand_rewrites_fails : Simple [.literal "ls"] ∧ Rule.Linear ⟨[.literal "ls"],[.literal "ls",.literal "-l"]⟩ ∧
    Prefs.expand ⟨[⟨[.literal "ls"],[.literal "ls",.literal "-l"]⟩]⟩ ["ls","src"] = .ok ["ls","-l"] ∧
    ¬Rewrites [⟨[.literal "ls"],[.literal "ls",.literal "-l"]⟩] ["ls","src"] ["ls","-l"] ∧
    Rewrites [⟨[.literal "ls"],[.literal "ls",.literal "-l"]⟩] ["ls","src"] ["ls","src"] := by
  have unmatched : ¬Matches [.literal "ls"] ["ls","src"] := by
    rintro ⟨binding,words⟩
    cases words
  refine ⟨⟨by decide,?_⟩,linear_literals (by simp [Item.mention]),rfl,?_,Or.inr ⟨unmatched,rfl⟩⟩
  · exact expandoLast_plain (by simp [Plain])
  · rintro (⟨binding,words,-⟩ | ⟨-,same⟩)
    · exact unmatched ⟨binding,words⟩
    · simp [Rewrites] at same

end Nak
