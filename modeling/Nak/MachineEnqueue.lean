import Nak.Machine

/-! What `enqueue` can do. Its loop stops at the first entry that is contradicted by a
finished pid, panics at the first pid it has never seen, and otherwise keeps exactly the
entries whose pid is still to finish. -/
namespace Nak.Machine
open Library
variable {Id Cmd State : Type} [DecidableEq Id]

def blockedBy (machine : Machine Id Cmd State) (pid : Id) : List (Condition × Id) :=
  (machine.checkOnCompleted.lookup pid).getD []

def Unfinished (machine : Machine Id Cmd State) (pid : Id) : Prop :=
  pid ∈ machine.toRun ∨ pid ∈ machine.running ∨ pid ∈ machine.waitingOn

def Known (machine : Machine Id Cmd State) (pid : Id) : Prop :=
  pid ∈ machine.finished ∨ machine.Unfinished pid

instance (machine : Machine Id Cmd State) (pid : Id) : Decidable (machine.Unfinished pid) :=
  inferInstanceAs (Decidable (_ ∨ _ ∨ _))

instance (machine : Machine Id Cmd State) (pid : Id) : Decidable (machine.Known pid) :=
  inferInstanceAs (Decidable (_ ∨ _))

def Passes (machine : Machine Id Cmd State) (entry : Σ _ : Id, Condition) : Prop :=
  machine.Known entry.1 ∧ ∀ status, machine.finished.lookup entry.1 = some status → ¬Contradicted entry.2 status

/-- An entry at which the loop of `enqueue` returns early. -/
def Refuses (machine : Machine Id Cmd State) (entry : Σ _ : Id, Condition) : Prop :=
  ∃ status, machine.finished.lookup entry.1 = some status ∧ Contradicted entry.2 status

theorem refuses_not_passes {machine : Machine Id Cmd State} {entry : Σ _ : Id, Condition}
    (refuses : machine.Refuses entry) : ¬machine.Passes entry := by
  obtain ⟨status,found,against⟩ := refuses
  exact fun passes => passes.2 status found against

def kept (machine : Machine Id Cmd State) (blockFor : List (Σ _ : Id, Condition))
    (still : OrderedMap Id Condition) : OrderedMap Id Condition :=
  (blockFor.filter (fun entry => entry.1 ∉ machine.finished)).foldl
    (fun still entry => still.insert entry.1 entry.2) still

private theorem stillNeeds_finished (machine : Machine Id Cmd State) (entry : Σ _ : Id, Condition)
    (blockFor : List (Σ _ : Id, Condition)) (still : OrderedMap Id Condition) (status : ExitStatus)
    (found : machine.finished.lookup entry.1 = some status) :
    machine.stillNeedsToBlockFor (entry :: blockFor) still =
      if Contradicted entry.2 status then .ok none else machine.stillNeedsToBlockFor blockFor still := by
  rw [stillNeedsToBlockFor,found]

private theorem stillNeeds_unfinished (machine : Machine Id Cmd State) (entry : Σ _ : Id, Condition)
    (blockFor : List (Σ _ : Id, Condition)) (still : OrderedMap Id Condition)
    (found : machine.finished.lookup entry.1 = none) :
    machine.stillNeedsToBlockFor (entry :: blockFor) still = (do
      Outcome.assert (machine.Unfinished entry.1)
      machine.stillNeedsToBlockFor blockFor (still.insert entry.1 entry.2)) := by
  rw [stillNeedsToBlockFor,found]
  rfl

/-- The loop returns early at the first entry it does not pass, when that entry is
contradicted by a finished pid. -/
theorem stillNeeds_none (machine : Machine Id Cmd State) (blockFor : List (Σ _ : Id, Condition))
    (still : OrderedMap Id Condition) :
    machine.stillNeedsToBlockFor blockFor still = .ok none ↔
      ∃ before entry after, blockFor = before ++ entry :: after ∧
        (∀ earlier ∈ before, machine.Passes earlier) ∧ machine.Refuses entry := by
  induction blockFor generalizing still with
  | nil => simp [stillNeedsToBlockFor]
  | cons entry blockFor ih =>
    have skip : machine.Passes entry →
        ((∃ before refused after, blockFor = before ++ refused :: after ∧
          (∀ earlier ∈ before, machine.Passes earlier) ∧ machine.Refuses refused) ↔
        ∃ before refused after, entry :: blockFor = before ++ refused :: after ∧
          (∀ earlier ∈ before, machine.Passes earlier) ∧ machine.Refuses refused) := by
      intro passes
      constructor
      · intro given
        obtain ⟨before,refused,after,rfl,all,refuses⟩ := given
        exact ⟨entry :: before,refused,after,rfl,by simpa using ⟨passes,all⟩,refuses⟩
      · intro given
        obtain ⟨_ | ⟨first,before⟩,refused,after,shape,all,refuses⟩ := given
        · obtain ⟨rfl,_⟩ := by simpa using shape
          exact absurd passes (refuses_not_passes refuses)
        · obtain ⟨_,rfl⟩ := by simpa using shape
          exact ⟨before,refused,after,rfl,fun earlier member => all earlier (by simp [member]),refuses⟩
    cases found : machine.finished.lookup entry.1 with
    | some status =>
      rw [stillNeeds_finished _ _ _ _ _ found]
      by_cases against : Contradicted entry.2 status
      · simp only [against,if_true,true_iff]
        exact ⟨[],entry,blockFor,rfl,by simp,status,found,against⟩
      · simp only [against,if_false]
        rw [ih]
        exact skip ⟨Or.inl (FiniteMap.mem_of_lookup found),by simpa [found] using against⟩
    | none =>
      rw [stillNeeds_unfinished _ _ _ _ found]
      by_cases unfinished : machine.Unfinished entry.1
      · rw [Outcome.assert_true unfinished,Outcome.ok_bind,ih]
        exact skip ⟨Or.inr unfinished,by simp [found]⟩
      · rw [Outcome.assert_false unfinished]
        simp only [Outcome.error_bind,reduceCtorEq,false_iff]
        intro given
        obtain ⟨_ | ⟨first,before⟩,refused,after,shape,all,refuses⟩ := given
        · obtain ⟨rfl,_⟩ := by simpa using shape
          obtain ⟨status,finished,_⟩ := refuses
          simp [found] at finished
        · obtain ⟨rfl,_⟩ := by simpa using shape
          rcases (all entry (by simp)).1 with finished | known
          · exact Finmap.lookup_eq_none.mp found finished
          · exact unfinished known

/-- The loop runs to its end when it passes every entry, and keeps the unfinished ones. -/
theorem stillNeeds_some (machine : Machine Id Cmd State) (blockFor : List (Σ _ : Id, Condition))
    (still result : OrderedMap Id Condition) :
    machine.stillNeedsToBlockFor blockFor still = .ok (some result) ↔
      (∀ entry ∈ blockFor, machine.Passes entry) ∧ machine.kept blockFor still = result := by
  induction blockFor generalizing still with
  | nil => simp [stillNeedsToBlockFor,kept]
  | cons entry blockFor ih =>
    cases found : machine.finished.lookup entry.1 with
    | some status =>
      rw [stillNeeds_finished _ _ _ _ _ found]
      have finished := FiniteMap.mem_of_lookup found
      by_cases against : Contradicted entry.2 status
      · simp [against,Passes,found]
      · simp [against,ih,Passes,Known,found,finished,kept]
    | none =>
      rw [stillNeeds_unfinished _ _ _ _ found]
      have unfinished := Finmap.lookup_eq_none.mp found
      by_cases known : machine.Unfinished entry.1
      · rw [Outcome.assert_true known,Outcome.ok_bind,ih]
        simp [Passes,Known,found,known,unfinished,kept]
      · rw [Outcome.assert_false known]
        simp [Passes,Known,unfinished,known]

private theorem insertAll_lookup (entries : List (Σ _ : Id, Condition)) (still : OrderedMap Id Condition)
    (distinct : entries.NodupKeys) (pid : Id) :
    (entries.foldl (fun still entry => still.insert entry.1 entry.2) still).lookup pid =
      (entries.dlookup pid).or (still.lookup pid) := by
  induction entries generalizing still with
  | nil => simp
  | cons entry entries ih =>
    obtain ⟨absent,distinct⟩ := List.nodupKeys_cons.mp distinct
    rw [List.foldl_cons,ih _ distinct]
    by_cases same : pid = entry.1
    · subst pid
      rw [List.dlookup_eq_none.mpr absent,List.dlookup_cons_eq]
      simp
    · rw [List.dlookup_cons_ne _ _ same,AList.lookup_insert_ne same]

private theorem filter_lookup (entries : List (Σ _ : Id, Condition)) (keep : Id → Bool) (pid : Id) :
    (entries.filter (fun entry => keep entry.1)).dlookup pid =
      if keep pid then entries.dlookup pid else none := by
  induction entries with
  | nil => simp
  | cons entry entries ih =>
    obtain ⟨key,cond⟩ := entry
    by_cases same : pid = key
    · subst pid
      by_cases kept : keep key
      · rw [List.filter_cons,if_pos kept,List.dlookup_cons_eq,List.dlookup_cons_eq,if_pos kept]
      · simpa [kept] using ih
    · rw [List.dlookup_cons_ne _ _ same,← ih,List.filter_cons]
      split
      · exact List.dlookup_cons_ne _ _ same
      · rfl

/-- The conditions `enqueue` leaves a waiter with. -/
def residual (machine : Machine Id Cmd State) (blockFor : OrderedMap Id Condition) (pid : Id) :
    Option Condition :=
  if pid ∈ machine.finished then none else blockFor.lookup pid

theorem kept_lookup (machine : Machine Id Cmd State) (blockFor : OrderedMap Id Condition) (pid : Id) :
    (machine.kept blockFor.entries ∅).lookup pid = machine.residual blockFor pid := by
  have distinct := blockFor.nodupKeys.sublist
    (List.filter_sublist (p := fun entry => entry.1 ∉ machine.finished))
  rw [kept,insertAll_lookup _ _ distinct,AList.lookup_empty,Option.or_none,
    filter_lookup _ (fun pid => pid ∉ machine.finished)]
  simp only [residual,decide_not,Bool.not_eq_true',decide_eq_false_iff_not,ite_not]
  rfl

theorem pushWaiters_lookup (newPid : Id) (entries : List (Σ _ : Id, Condition)) (distinct : entries.NodupKeys)
    (check : FiniteMap Id (List (Condition × Id))) (pid : Id) :
    (entries.foldl (pushWaiter newPid) check).lookup pid =
      match entries.dlookup pid with
      | some cond => some ((check.lookup pid).getD [] ++ [(cond,newPid)])
      | none => check.lookup pid := by
  induction entries generalizing check with
  | nil => simp
  | cons entry entries ih =>
    obtain ⟨absent,distinct⟩ := List.nodupKeys_cons.mp distinct
    rw [List.foldl_cons,ih distinct]
    by_cases same : pid = entry.1
    · subst pid
      rw [List.dlookup_eq_none.mpr absent,List.dlookup_cons_eq]
      simp [pushWaiter]
    · rw [List.dlookup_cons_ne _ _ same]
      simp [pushWaiter,same]

/-- The machine after a command had to be put among the waiting ones. -/
structure Blocked (machine : Machine Id Cmd State) (newPid : Id) (cmd : Cmd) (blockFor : OrderedMap Id Condition)
    (next : Machine Id Cmd State) : Prop where
  finished : next.finished = machine.finished
  toRun : next.toRun = machine.toRun
  running : next.running = machine.running
  waitingOn : ∃ conditions, (∀ pid, conditions.lookup pid = machine.residual blockFor pid) ∧
    next.waitingOn = machine.waitingOn.insert newPid ⟨cmd,conditions⟩
  checkOnCompleted : ∀ pid, next.checkOnCompleted.lookup pid =
    match machine.residual blockFor pid with
    | some cond => some (machine.blockedBy pid ++ [(cond,newPid)])
    | none => machine.checkOnCompleted.lookup pid

inductive Enqueued (machine : Machine Id Cmd State) (newPid : Id) (cmd : Cmd) (blockFor : OrderedMap Id Condition) :
    List (Task Id Cmd) → Machine Id Cmd State → Prop
  | refused (before entry after) (shape : blockFor.entries = before ++ entry :: after)
      (passed : ∀ earlier ∈ before, machine.Passes earlier) (refuses : machine.Refuses entry) :
      Enqueued machine newPid cmd blockFor [.conditionFailed newPid cmd] machine
  | ready (passed : ∀ entry ∈ blockFor.entries, machine.Passes entry)
      (all : ∀ pid, machine.residual blockFor pid = none) :
      Enqueued machine newPid cmd blockFor [.start newPid cmd]
        { machine with toRun := insert newPid machine.toRun }
  | blocked (next) (passed : ∀ entry ∈ blockFor.entries, machine.Passes entry)
      (some : ∃ pid, machine.residual blockFor pid ≠ none)
      (after : Blocked machine newPid cmd blockFor next) :
      Enqueued machine newPid cmd blockFor [] next

private theorem entries_empty (still : OrderedMap Id Condition) :
    still.entries.length = 0 ↔ ∀ pid, still.lookup pid = none := by
  constructor
  · intro empty pid
    rw [AList.lookup,List.length_eq_zero_iff.mp empty]
    rfl
  · intro absent
    rw [List.length_eq_zero_iff,List.eq_nil_iff_forall_not_mem]
    intro entry member
    exact AList.lookup_eq_none.mp (absent entry.1) (AList.mem_keys.mpr (List.mem_keys_of_mem member))

theorem enqueue_cases (machine : Machine Id Cmd State) (newPid : Id) (cmd : Cmd)
    (blockFor : OrderedMap Id Condition) (tasks : List (Task Id Cmd)) (next : Machine Id Cmd State)
    (ok : machine.enqueue newPid cmd blockFor = .ok (tasks,next)) :
    ¬machine.Known newPid ∧ Enqueued machine newPid cmd blockFor tasks next := by
  obtain ⟨_,fresh,ok⟩ := Outcome.bind_ok.mp ok
  obtain ⟨notFinished,notToRun,notRunning,notWaiting⟩ := (Outcome.assert_ok _ _).mp fresh
  refine ⟨by simp [Known,Unfinished,notFinished,notToRun,notRunning,notWaiting],?_⟩
  obtain ⟨found,scanned,ok⟩ := Outcome.bind_ok.mp ok
  cases found with
  | none =>
    obtain ⟨before,entry,after,shape,passed,refuses⟩ := (stillNeeds_none _ _ _).mp scanned
    obtain ⟨rfl,rfl⟩ := Prod.mk.inj (Except.ok.inj ok)
    exact .refused before entry after shape passed refuses
  | some still =>
    obtain ⟨passed,rfl⟩ := (stillNeeds_some _ _ _ _).mp scanned
    dsimp only at ok
    split at ok
    · rename_i none
      obtain ⟨rfl,rfl⟩ := Prod.mk.inj (Except.ok.inj ok)
      exact .ready passed (by simpa only [entries_empty,kept_lookup] using none)
    · rename_i some
      obtain ⟨rfl,rfl⟩ := Prod.mk.inj (Except.ok.inj ok)
      simp only [entries_empty,kept_lookup,not_forall] at some
      refine .blocked _ passed some ⟨rfl,rfl,rfl,⟨_,fun pid => ?_,rfl⟩,fun pid => ?_⟩
      · exact kept_lookup machine blockFor pid
      · have found := kept_lookup machine blockFor pid
        rw [AList.lookup] at found
        rw [pushWaiters_lookup _ _ (AList.nodupKeys _),found]
        rfl

/-- The loop of `enqueue` meets a contradicted entry, and no unknown pid before it. -/
def Refused (machine : Machine Id Cmd State) (blockFor : OrderedMap Id Condition) : Prop :=
  ∃ before entry after, blockFor.entries = before ++ entry :: after ∧
    (∀ earlier ∈ before, machine.Passes earlier) ∧ machine.Refuses entry

def Scans (machine : Machine Id Cmd State) (blockFor : OrderedMap Id Condition) : Prop :=
  (∀ entry ∈ blockFor.entries, machine.Passes entry) ∨ machine.Refused blockFor

private theorem scans_known (machine : Machine Id Cmd State) (entries : List (Σ _ : Id, Condition))
    (known : ∀ entry ∈ entries, machine.Known entry.1) :
    (∀ entry ∈ entries, machine.Passes entry) ∨
      ∃ before entry after, entries = before ++ entry :: after ∧
        (∀ earlier ∈ before, machine.Passes earlier) ∧ machine.Refuses entry := by
  induction entries with
  | nil => exact Or.inl (by simp)
  | cons entry entries ih =>
    by_cases refuses : machine.Refuses entry
    · exact Or.inr ⟨[],entry,entries,rfl,by simp,refuses⟩
    · have passes : machine.Passes entry :=
        ⟨known entry (by simp),fun status found against => refuses ⟨status,found,against⟩⟩
      rcases ih (fun other member => known other (by simp [member])) with all | ⟨before,first,after,rfl,passed,stops⟩
      · exact Or.inl (by simpa using ⟨passes,all⟩)
      · exact Or.inr ⟨entry :: before,first,after,rfl,by simpa using ⟨passes,passed⟩,stops⟩

theorem scans_of_known (machine : Machine Id Cmd State) (blockFor : OrderedMap Id Condition)
    (known : ∀ entry ∈ blockFor.entries, machine.Known entry.1) : machine.Scans blockFor :=
  scans_known machine blockFor.entries known

theorem refused_of_known (machine : Machine Id Cmd State) (blockFor : OrderedMap Id Condition)
    (before after : List (Σ _ : Id, Condition)) (entry : Σ _ : Id, Condition)
    (shape : blockFor.entries = before ++ entry :: after)
    (known : ∀ earlier ∈ before, machine.Known earlier.1) (refuses : machine.Refuses entry) :
    machine.Refused blockFor := by
  rcases scans_known machine before known with passed | ⟨start,first,rest,rfl,passed,stops⟩
  · exact ⟨before,entry,after,shape,passed,refuses⟩
  · exact ⟨start,first,rest ++ entry :: after,by simp [shape],passed,stops⟩

theorem enqueue_returns_iff (machine : Machine Id Cmd State) (newPid : Id) (cmd : Cmd)
    (blockFor : OrderedMap Id Condition) :
    (machine.enqueue newPid cmd blockFor).Returns ↔ ¬machine.Known newPid ∧ machine.Scans blockFor := by
  constructor
  · intro given
    obtain ⟨⟨tasks,next⟩,ok⟩ := given
    obtain ⟨fresh,enqueued⟩ := enqueue_cases _ _ _ _ _ _ ok
    refine ⟨fresh,?_⟩
    cases enqueued with
    | refused before entry after shape passed refuses => exact Or.inr ⟨before,entry,after,shape,passed,refuses⟩
    | ready passed => exact Or.inl passed
    | blocked next passed => exact Or.inl passed
  · intro given
    obtain ⟨fresh,scans⟩ := given
    have new : newPid ∉ machine.finished ∧ newPid ∉ machine.toRun ∧ newPid ∉ machine.running ∧
        newPid ∉ machine.waitingOn := by simpa [Known,Unfinished] using fresh
    rw [enqueue,Outcome.assert_true new,Outcome.ok_bind]
    rcases scans with passed | stops
    · rw [(stillNeeds_some machine blockFor.entries ∅ _).mpr ⟨passed,rfl⟩,Outcome.ok_bind]
      dsimp only
      split <;> exact ⟨_,rfl⟩
    · rw [(stillNeeds_none machine blockFor.entries ∅).mpr stops]
      exact ⟨_,rfl⟩

end Nak.Machine
