import Mathlib.Data.List.Nodup
import Nak.Prefs

/-! What the items of a pattern take from a command. Each takes what is in front of the
cursor; an expando takes all of it and leaves the word that was looked at. -/
namespace Nak
open Library

def Item.mention : Item → Option Nat
  | .literal _ => none
  | .variable id => some id
  | .expando id => some id

def mentions (items : List Item) : List Nat := items.filterMap Item.mention

/-- The words that the ids stand for. -/
structure Binding where
  word : Nat → String
  words : Nat → List String

namespace Binding

def taken (binding : Binding) : Item → List String
  | .literal word => [word]
  | .variable id => [binding.word id]
  | .expando id => binding.words id

def instantiate (binding : Binding) (items : List Item) : List String := items.flatMap binding.taken

theorem instantiate_cons (binding : Binding) (item : Item) (items : List Item) :
    binding.instantiate (item :: items) = binding.taken item ++ binding.instantiate items := List.flatMap_cons

theorem instantiate_append (binding : Binding) (first second : List Item) :
    binding.instantiate (first ++ second) = binding.instantiate first ++ binding.instantiate second :=
  List.flatMap_append

end Binding

namespace Prefs.Matching

def binding (matching : Matching) : Binding where
  word id := (matching.varMatches.lookup id).getD ""
  words id := (matching.expandoMatches.lookup id).getD []

def ahead (matching : Matching) : List String := matching.next.toList ++ matching.it

/-- The word looked at is missing only at the end. -/
def Sound (matching : Matching) : Prop := matching.next = none → matching.it = []

def Unbound (matching : Matching) (id : Nat) : Prop := id ∉ matching.varMatches ∧ id ∉ matching.expandoMatches

variable {item : Item} {items : List Item} {matching next final : Matching}

@[simp] theorem ahead_start (cmd : List String) : (start cmd).ahead = cmd := by
  cases cmd <;> rfl

theorem sound_start (cmd : List String) : (start cmd).Sound := by
  cases cmd <;> simp [Sound,start]

theorem unbound_start (cmd : List String) (id : Nat) : (start cmd).Unbound id := by
  exact ⟨Finmap.notMem_empty,Finmap.notMem_empty⟩

theorem Sound.advance (matching : Matching) : matching.advance.Sound := by
  unfold Sound Matching.advance
  cases matching.it <;> simp

theorem ahead_advance (matching : Matching) : matching.advance.ahead = matching.it := by
  unfold ahead Matching.advance
  cases matching.it <;> rfl

theorem ahead_next {word : String} (next : matching.next = some word) :
    matching.ahead = word :: matching.advance.ahead := by
  rw [ahead_advance,ahead,next]
  rfl

theorem Sound.next_of_ahead (sound : matching.Sound) {word : String} {rest : List String}
    (ahead : matching.ahead = word :: rest) : matching.next = some word := by
  unfold Matching.ahead at ahead
  cases found : matching.next with
  | none => simp [found,sound found] at ahead
  | some other =>
    rw [found] at ahead
    simpa using (List.cons.inj ahead).1

/-- What one item does to the cursor and to the maps. -/
inductive Stepped : Item → Matching → Matching → Prop
  | literal (matching : Matching) (word : String) (ahead : matching.next = some word) :
      Stepped (.literal word) matching matching.advance
  | bind (matching : Matching) (id : Nat) (word : String) (ahead : matching.next = some word) :
      Stepped (.variable id) matching
        { matching with varMatches := matching.varMatches.insert id word }.advance
  | expando (matching : Matching) (id : Nat) :
      Stepped (.expando id) matching
        { matching with expandoMatches := matching.expandoMatches.insert id matching.ahead, it := [] }

inductive Matched : List Item → Matching → Matching → Prop
  | nil (matching : Matching) : Matched [] matching matching
  | cons {item : Item} {items : List Item} {matching next final : Matching} (step : Stepped item matching next)
      (rest : Matched items next final) :
      Matched (item :: items) matching final

/-- What trying to match comes to: never a panic. -/
inductive Tried (reached : Matching → Prop) : Outcome (Option Matching) → Prop
  | took (next : Matching) (reaches : reached next) : Tried reached (.ok (some next))
  | refused (never : ∀ next, ¬reached next) : Tried reached (.ok none)

theorem assertUnbound_ok {id : Nat} (unbound : matching.Unbound id) : matching.assertUnbound id = .ok () := by
  rw [assertUnbound,Outcome.assert_true unbound.1,Outcome.ok_bind,Outcome.assert_true unbound.2]

theorem item_tried (sound : matching.Sound) (unbound : ∀ id ∈ item.mention, matching.Unbound id) :
    Tried (Stepped item matching) (matching.item item) := by
  cases item with
  | literal word =>
    rw [Matching.item]
    split
    · exact .took _ (.literal _ word ‹_›)
    · refine .refused fun next step => ?_
      cases step with
      | literal _ _ ahead => exact absurd ahead ‹_›
  | «variable» id =>
    rw [Matching.item,assertUnbound_ok (unbound id rfl),Outcome.ok_bind]
    cases found : matching.next with
    | none =>
      refine .refused fun next step => ?_
      cases step with
      | bind _ _ word ahead => simp [found] at ahead
    | some word => exact .took _ (.bind _ id word found)
  | expando id =>
    rw [Matching.item,assertUnbound_ok (unbound id rfl),Outcome.ok_bind]
    have step := Stepped.expando matching id
    unfold ahead at step
    cases found : matching.next with
    | none =>
      rw [found,sound found] at step
      dsimp only
      rw [sound found]
      exact .took _ step
    | some word =>
      rw [found] at step
      exact .took _ step

theorem Stepped.unique {other : Matching} (first : Stepped item matching next) (second : Stepped item matching other) :
    next = other := by
  cases first with
  | literal _ word ahead =>
    cases second
    rfl
  | bind _ id word ahead =>
    cases second with
    | bind _ _ other same =>
      cases ahead.symm.trans same
      rfl
  | expando _ id =>
    cases second
    rfl

theorem Stepped.sound (step : Stepped item matching next) : next.Sound := by
  cases step with
  | literal _ word ahead => exact .advance _
  | bind _ id word ahead => exact .advance _
  | expando _ id => exact fun _ => rfl

theorem Stepped.unbound (step : Stepped item matching next) {id : Nat} (unbound : matching.Unbound id)
    (apart : id ∉ item.mention) : next.Unbound id := by
  cases step with
  | literal _ word ahead => exact unbound
  | bind _ other word ahead =>
    refine ⟨fun member => ?_,unbound.2⟩
    rcases Finmap.mem_insert.mp member with rfl | old
    · exact apart rfl
    · exact unbound.1 old
  | expando _ other =>
    refine ⟨unbound.1,fun member => ?_⟩
    rcases Finmap.mem_insert.mp member with rfl | old
    · exact apart rfl
    · exact unbound.2 old

theorem Matched.sound (matched : Matched items matching final) (sound : matching.Sound) : final.Sound := by
  induction matched with
  | nil matching => exact sound
  | cons step rest ih => exact ih step.sound

theorem mentions_cons (item : Item) (items : List Item) :
    mentions (item :: items) = item.mention.toList ++ mentions items := by
  cases item <;> rfl

theorem items_tried (sound : matching.Sound) (distinct : (mentions items).Nodup)
    (unbound : ∀ id ∈ mentions items, matching.Unbound id) :
    Tried (Matched items matching) (Matching.items items matching) := by
  induction items generalizing matching with
  | nil => exact .took _ (.nil _)
  | cons item items ih =>
    rw [mentions_cons] at distinct unbound
    obtain ⟨-,others,apart⟩ := List.nodup_append.mp distinct
    have tried := item_tried sound fun id mentioned =>
      unbound id (List.mem_append_left _ (Option.mem_toList.mpr mentioned))
    rw [Matching.items]
    generalize matching.item item = outcome at tried
    cases tried with
    | refused never =>
      refine .refused fun final matched => ?_
      cases matched with
      | cons step rest => exact never _ step
    | took next step =>
      have tried := ih step.sound others fun id mentioned =>
        step.unbound (unbound id (List.mem_append_right _ mentioned)) fun same =>
          apart id (Option.mem_toList.mpr same) id mentioned rfl
      rw [Outcome.ok_bind]
      dsimp only
      generalize Matching.items items next = outcome at tried
      cases tried with
      | took final rest => exact .took _ (.cons step rest)
      | refused never =>
        refine .refused fun final matched => ?_
        cases matched with
        | cons other rest => exact never final (step.unique other ▸ rest)

theorem matched_append {first second : List Item} :
    Matched (first ++ second) matching final ↔ ∃ middle, Matched first matching middle ∧
      Matched second middle final := by
  induction first generalizing matching with
  | nil =>
    constructor
    · exact fun matched => ⟨matching,.nil _,matched⟩
    · rintro ⟨middle,⟨⟩,matched⟩
      exact matched
  | cons item first ih =>
    constructor
    · rintro ⟨⟩
      rename_i next step rest
      obtain ⟨middle,front,back⟩ := ih.mp rest
      exact ⟨middle,.cons step front,back⟩
    · rintro ⟨middle,⟨⟩,back⟩
      rename_i next step front
      exact .cons step (ih.mpr ⟨middle,front,back⟩)

theorem Stepped.frame (step : Stepped item matching next) {other : Item}
    (apart : ∀ id ∈ other.mention, id ∉ item.mention) :
    next.binding.taken other = matching.binding.taken other := by
  cases other with
  | literal word => rfl
  | «variable» id =>
    have apart := apart id rfl
    cases step with
    | literal _ _ _ => rfl
    | expando _ _ => rfl
    | bind _ bound word _ =>
      have different : id ≠ bound := fun same => apart (congrArg some same.symm)
      simp [binding,Binding.taken,advance,FiniteMap.lookup_insert_if,different]
  | expando id =>
    have apart := apart id rfl
    cases step with
    | literal _ _ _ => rfl
    | bind _ _ _ _ => rfl
    | expando _ bound =>
      have different : id ≠ bound := fun same => apart (congrArg some same.symm)
      simp [binding,Binding.taken,FiniteMap.lookup_insert_if,different]

theorem Matched.frame (matched : Matched items matching final) {other : Item}
    (apart : ∀ id ∈ other.mention, id ∉ mentions items) : final.binding.taken other = matching.binding.taken other := by
  induction matched with
  | nil matching => rfl
  | @cons item items matching next final step rest ih =>
    rw [mentions_cons] at apart
    rw [ih fun id mentioned among => apart id mentioned (List.mem_append_right _ among)]
    exact step.frame fun id mentioned same =>
      apart id mentioned (List.mem_append_left _ (Option.mem_toList.mpr same))

theorem Stepped.took (step : Stepped item matching next) :
    (∃ word, next.binding.taken item = [word] ∧ matching.next = some word ∧ matching.ahead = word :: next.ahead ∧
      ∀ id, item ≠ .expando id) ∨
    ∃ id, item = .expando id ∧ next.binding.taken item = matching.ahead ∧ next.next = matching.next ∧ next.it = [] := by
  cases step with
  | literal _ word ahead => exact Or.inl ⟨word,rfl,ahead,ahead_next ahead,by simp⟩
  | bind _ id word ahead =>
    refine Or.inl ⟨word,?_,ahead,?_,by simp⟩
    · simp [binding,Binding.taken,advance]
    · rw [ahead_next ahead,ahead_advance,ahead_advance]
  | expando _ id => exact Or.inr ⟨id,rfl,by simp [binding,Binding.taken],rfl,rfl⟩

def Plain (items : List Item) : Prop := ∀ id, .expando id ∉ items

theorem plain_or_expando (items : List Item) :
    Plain items ∨ ∃ before id after, items = before ++ .expando id :: after ∧ Plain before := by
  induction items with
  | nil => exact Or.inl (by simp [Plain])
  | cons item items ih =>
    by_cases first : ∃ id, item = .expando id
    · obtain ⟨id,rfl⟩ := first
      exact Or.inr ⟨[],id,items,rfl,by simp [Plain]⟩
    · rw [not_exists] at first
      have front {rest : List Item} (plain : Plain rest) : Plain (item :: rest) := by
        intro id among
        rcases List.mem_cons.mp among with same | among
        · exact first id same.symm
        · exact plain id among
      rcases ih with plain | ⟨before,id,after,rfl,plain⟩
      · exact Or.inl (front plain)
      · exact Or.inr ⟨item :: before,id,after,rfl,front plain⟩

theorem Matched.taken {item : Item} (distinct : (mentions (item :: items)).Nodup) (rest : Matched items next final) :
    final.binding.taken item = next.binding.taken item := by
  rw [mentions_cons] at distinct
  obtain ⟨-,-,apart⟩ := List.nodup_append.mp distinct
  exact rest.frame fun id mentioned among => apart id (Option.mem_toList.mpr mentioned) id among rfl

theorem Matched.before {before : List Item} (matched : Matched items matching final)
    (apart : ∀ id ∈ mentions before, id ∉ mentions items) :
    final.binding.instantiate before = matching.binding.instantiate before :=
  List.flatMap_congr fun _ among => matched.frame fun id mentioned =>
    apart id (List.mem_filterMap.mpr ⟨_,among,mentioned⟩)

theorem Matched.plain (matched : Matched items matching final) (distinct : (mentions items).Nodup)
    (plain : Plain items) :
    final.binding.instantiate items ++ final.ahead = matching.ahead ∧
      items.length + final.ahead.length = matching.ahead.length := by
  induction matched with
  | nil matching => simp [Binding.instantiate]
  | @cons item items matching next final step rest ih =>
    have kept := rest.taken distinct
    rw [mentions_cons] at distinct
    obtain ⟨words,length⟩ := ih (List.nodup_append.mp distinct).2.1 fun id among =>
      plain id (List.mem_cons_of_mem _ among)
    rcases step.took with ⟨word,took,-,front,-⟩ | ⟨id,rfl,-⟩
    · rw [Binding.instantiate_cons,kept,took,front,List.append_assoc,words]
      simp only [List.length_cons]
      exact ⟨rfl,by omega⟩
    · exact absurd List.mem_cons_self (plain id)

theorem Matched.nothing (matched : Matched items matching final) (distinct : (mentions items).Nodup)
    (none : matching.ahead = []) : final.binding.instantiate items = [] := by
  induction matched with
  | nil matching => rfl
  | @cons item items matching next final step rest ih =>
    have kept := rest.taken distinct
    rw [mentions_cons] at distinct
    rcases step.took with ⟨word,-,-,front,-⟩ | ⟨id,rfl,took,same,drained⟩
    · rw [none] at front
      cases front
    · have still : next.ahead = [] := by
        rw [ahead,same,drained,List.append_nil]
        exact (List.append_eq_nil_iff.mp none).1
      rw [Binding.instantiate_cons,kept,took,none,ih (List.nodup_append.mp distinct).2.1 still]
      rfl

theorem Matched.something (matched : Matched (item :: items) matching final)
    (distinct : (mentions (item :: items)).Nodup) (some : matching.ahead ≠ []) :
    final.binding.instantiate (item :: items) ≠ [] := by
  obtain ⟨⟩ := matched
  rename_i next step rest
  rw [Binding.instantiate_cons,rest.taken distinct]
  rcases step.took with ⟨word,took,-⟩ | ⟨id,rfl,took,-⟩
  · simp [took]
  · simp [took,some]

/-- Up to its first expando a pattern takes all the words, and the items after that take some
of them again unless there are none. -/
theorem Matched.expando {before after : List Item} {id : Nat}
    (sound : matching.Sound) (matched : Matched (before ++ .expando id :: after) matching final)
    (distinct : (mentions (before ++ .expando id :: after)).Nodup) (plain : Plain before) :
    final.binding.instantiate (before ++ .expando id :: after) = matching.ahead ++ final.binding.instantiate after ∧
      (final.binding.instantiate after = [] ↔ after = [] ∨ matching.ahead.length ≤ before.length) := by
  obtain ⟨middle,front,back⟩ := matched_append.mp matched
  have split : mentions (before ++ .expando id :: after) = mentions before ++ mentions (.expando id :: after) :=
    List.filterMap_append
  rw [split] at distinct
  obtain ⟨first,second,apart⟩ := List.nodup_append.mp distinct
  obtain ⟨words,length⟩ := front.plain first plain
  rw [Binding.instantiate_append,back.before fun id among other => apart id among id other rfl]
  obtain ⟨⟩ := back
  rename_i next step rest
  have others : (mentions after).Nodup := by
    rw [mentions_cons] at second
    exact (List.nodup_append.mp second).2.1
  rcases step.took with ⟨word,-,-,-,other⟩ | ⟨_,-,took,same,drained⟩
  · exact absurd rfl (other id)
  · have left : next.ahead = middle.next.toList := by rw [ahead,same,drained,List.append_nil]
    rw [Binding.instantiate_cons,rest.taken second,took,← List.append_assoc,words]
    refine ⟨rfl,fun none => ?_,fun none => ?_⟩
    · by_contra more
      rw [not_or,Nat.not_le] at more
      have some : next.ahead ≠ [] := by
        rw [left]
        intro ended
        have nothing : middle.next = .none := by simpa using ended
        have empty : middle.ahead = [] := by rw [ahead,nothing,front.sound sound nothing]; rfl
        rw [empty,List.length_nil] at length
        omega
      cases after with
      | nil => exact more.1 rfl
      | cons item after => exact rest.something others some none
    · rcases none with rfl | used
      · rfl
      · have empty : middle.ahead = [] := List.eq_nil_of_length_eq_zero (by omega)
        refine rest.nothing others ?_
        rw [left]
        exact (List.append_eq_nil_iff.mp empty).1

def ExpandoLast (items : List Item) : Prop :=
  ∀ before id after, items = before ++ .expando id :: after → after = []

theorem expandoLast_plain (plain : Plain items.dropLast) : ExpandoLast items := by
  rintro before id after rfl
  by_contra more
  refine plain id ?_
  rw [List.dropLast_append_of_ne_nil (by simp),List.dropLast_cons_of_ne_nil more]
  simp

theorem matched_exists (last : ExpandoLast items) (sound : matching.Sound) {binding : Binding} {rest : List String}
    (words : matching.ahead = binding.instantiate items ++ rest) : ∃ final, Matched items matching final := by
  induction items generalizing matching with
  | nil => exact ⟨matching,.nil _⟩
  | cons item items ih =>
    have later : ExpandoLast items := fun before id after shape => last (item :: before) id after (by rw [shape]; rfl)
    have front {next : Matching} {word : String} (step : Stepped item matching next) (left : next.ahead = matching.it)
        (taken : binding.taken item = [word]) : ∃ final, Matched (item :: items) matching final := by
      rw [Binding.instantiate_cons,taken] at words
      rw [ahead,sound.next_of_ahead words] at words
      obtain ⟨final,matched⟩ := ih later step.sound (left.trans (List.cons.inj words).2)
      exact ⟨final,.cons step matched⟩
    cases item with
    | literal word =>
      exact front (.literal _ word (sound.next_of_ahead words)) (ahead_advance _) rfl
    | «variable» id =>
      exact front (.bind _ id _ (sound.next_of_ahead words)) (ahead_advance _) rfl
    | expando id =>
      obtain rfl := last [] id items rfl
      exact ⟨_,.cons (.expando _ id) (.nil _)⟩

def Bound (matching : Matching) : Item → Prop
  | .literal _ => True
  | .variable id => id ∈ matching.varMatches
  | .expando id => id ∈ matching.expandoMatches

theorem Stepped.bound (step : Stepped item matching next) :
    next.Bound item ∧ ∀ other, matching.Bound other → next.Bound other := by
  cases step with
  | literal _ word _ => exact ⟨trivial,fun other => by cases other <;> exact id⟩
  | bind _ id word _ =>
    refine ⟨Finmap.mem_insert.mpr (Or.inl rfl),fun other bound => ?_⟩
    cases other with
    | «variable» other => exact Finmap.mem_insert.mpr (Or.inr bound)
    | _ => exact bound
  | expando _ id =>
    refine ⟨Finmap.mem_insert.mpr (Or.inl rfl),fun other bound => ?_⟩
    cases other with
    | expando other => exact Finmap.mem_insert.mpr (Or.inr bound)
    | _ => exact bound

theorem Matched.bound (matched : Matched items matching final) :
    (∀ item ∈ items, final.Bound item) ∧ ∀ other, matching.Bound other → final.Bound other := by
  induction matched with
  | nil matching => simp
  | cons step rest ih =>
    refine ⟨List.forall_mem_cons.mpr ⟨ih.2 _ step.bound.1,ih.1⟩,fun other bound => ?_⟩
    exact ih.2 _ (step.bound.2 _ bound)

def forget (matching : Matching) : Item → Matching
  | .literal _ => matching
  | .variable id => { matching with varMatches := matching.varMatches.erase id }
  | .expando id => { matching with expandoMatches := matching.expandoMatches.erase id }

theorem construct_cons (item : Item) (items : List Item) (bound : matching.Bound item) :
    construct (item :: items) matching =
      (do pure (matching.binding.taken item ++ (← construct items (matching.forget item)))) := by
  cases item with
  | literal word => rfl
  | «variable» id =>
    obtain ⟨word,found⟩ := Finmap.mem_iff.mp bound
    simp [construct,found,Outcome.unwrap,binding,Binding.taken,forget]
  | expando id =>
    obtain ⟨words,found⟩ := Finmap.mem_iff.mp bound
    simp [construct,found,Outcome.unwrap,binding,Binding.taken,forget]

theorem construct_unbound (item : Item) (items : List Item) (missing : ¬matching.Bound item) :
    construct (item :: items) matching = .error .unwrap := by
  cases item with
  | literal word => exact absurd trivial missing
  | «variable» id => simp [construct,Finmap.lookup_eq_none.mpr missing,Outcome.unwrap]
  | expando id => simp [construct,Finmap.lookup_eq_none.mpr missing,Outcome.unwrap]

theorem forget_bound (item other : Item) :
    (matching.forget item).Bound other ↔ matching.Bound other ∧ (other.mention = none ∨ other ≠ item) := by
  cases item <;> cases other <;> simp [forget,Bound,Item.mention,Finmap.mem_erase,and_comm]

theorem forget_taken (item other : Item) (apart : other.mention = none ∨ other ≠ item) :
    (matching.forget item).binding.taken other = matching.binding.taken other := by
  cases item with
  | literal word => rfl
  | «variable» id =>
    cases other with
    | «variable» other =>
      have different : other ≠ id := by simpa [Item.mention] using apart
      simp [forget,binding,Binding.taken,FiniteMap.lookup_erase_if,different]
    | _ => rfl
  | expando id =>
    cases other with
    | expando other =>
      have different : other ≠ id := by simpa [Item.mention] using apart
      simp [forget,binding,Binding.taken,FiniteMap.lookup_erase_if,different]
    | _ => rfl

theorem construct_missing (among : item ∈ items) (missing : ¬matching.Bound item) :
    construct items matching = .error .unwrap := by
  induction items generalizing matching with
  | nil => simp at among
  | cons first items ih =>
    by_cases bound : matching.Bound first
    · have later : item ∈ items := by
        rcases List.mem_cons.mp among with rfl | later
        · exact absurd bound missing
        · exact later
      rw [construct_cons first items bound,ih later fun kept => missing ((forget_bound first item).mp kept).1]
      rfl
    · exact construct_unbound first items bound

def Once (items : List Item) : Prop := items.Pairwise fun first second => second.mention = none ∨ second ≠ first

theorem construct_iff (bound : ∀ item ∈ items, matching.Bound item) (words : List String) :
    construct items matching = .ok words ↔ Once items ∧ words = matching.binding.instantiate items := by
  induction items generalizing matching words with
  | nil => simp [construct,Once,Binding.instantiate,eq_comm]
  | cons item items ih =>
    obtain ⟨first,others⟩ := List.forall_mem_cons.mp bound
    rw [construct_cons item items first,Once,List.pairwise_cons,Binding.instantiate_cons]
    by_cases apart : ∀ other ∈ items, other.mention = none ∨ other ≠ item
    · have kept : (matching.forget item).binding.instantiate items = matching.binding.instantiate items :=
        List.flatMap_congr fun other among => forget_taken item other (apart other among)
      have ih := ih fun other among => (forget_bound item other).mpr ⟨others other among,apart other among⟩
      rw [kept] at ih
      constructor
      · intro made
        obtain ⟨rest,constructed,made⟩ := Outcome.bind_ok.mp made
        obtain ⟨once,rfl⟩ := (ih rest).mp constructed
        exact ⟨⟨apart,once⟩,(Except.ok.inj made).symm⟩
      · rintro ⟨⟨-,once⟩,rfl⟩
        rw [(ih _).mpr ⟨once,rfl⟩]
        rfl
    · refine iff_of_false ?_ fun once => apart once.1.1
      rw [not_forall] at apart
      obtain ⟨other,apart⟩ := apart
      rw [Classical.not_imp] at apart
      rw [construct_missing apart.1 fun kept => apart.2 ((forget_bound item other).mp kept).2]
      simp

end Prefs.Matching
end Nak
