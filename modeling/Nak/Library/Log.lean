import Mathlib.Data.List.Basic

/-! Logs that only grow. Whether an entry may stand in a log is decided by what is before it,
so a log that is guarded stays so when what is appended is. What steps take for good is free
before and spent ever after, so that a run takes nothing twice. -/
namespace Nak.Library

/-- Every entry is admitted by the entries before it. -/
def Guarded {α : Type*} (admits : List α → α → Prop) (log : List α) : Prop :=
  ∀ before entry after, log = before ++ entry :: after → admits before entry

namespace Guarded
variable {α : Type*} {admits : List α → α → Prop} {log more : List α} {new : α}

theorem nil : Guarded admits [] := by
  intro before entry after split
  simp at split

theorem append (guarded : Guarded admits log) (rest : Guarded (fun before entry => admits (log ++ before) entry) more) :
    Guarded admits (log ++ more) := by
  intro before entry after split
  rcases List.append_eq_append_iff.mp split with ⟨early,rfl,shape⟩ | ⟨late,rfl,shape⟩
  · exact rest early entry after shape
  · rcases late with _ | ⟨first,late⟩
    · have admitted := rest [] entry after shape.symm
      simpa using admitted
    · obtain ⟨rfl,rfl⟩ := List.cons.inj shape
      exact guarded before entry late rfl

theorem snoc (guarded : Guarded admits log) (admitted : admits log new) : Guarded admits (log ++ [new]) := by
  apply guarded.append
  intro before entry after split
  have alone : before = [] := by
    rcases before with _ | ⟨first,before⟩
    · rfl
    · simp at split
  subst alone
  obtain ⟨rfl,_⟩ := List.cons.inj split
  rwa [List.append_nil]

theorem left (guarded : Guarded admits (log ++ more)) : Guarded admits log := by
  intro before entry after split
  refine guarded before entry (after ++ more) ?_
  rw [split,List.append_assoc,List.cons_append]

theorem mono {admits' : List α → α → Prop} (guarded : Guarded admits log)
    (weaker : ∀ before entry, admits before entry → admits' before entry) : Guarded admits' log :=
  fun before entry after split => weaker before entry (guarded before entry after split)

end Guarded

/-- Nothing that an entry claims has been claimed before. -/
def Unclaimed {α κ : Type*} (claims : α → List κ) (before : List α) (entry : α) : Prop :=
  ∀ other ∈ before, ∀ key ∈ claims entry, key ∉ claims other

theorem Guarded.claimed {α κ : Type*} {claims : α → List κ} {log : List α} {one two : α} {key : κ}
    (guarded : Guarded (Unclaimed claims) log) (first : one ∈ log) (second : two ∈ log) (owns : key ∈ claims one)
    (owns' : key ∈ claims two) : one = two := by
  obtain ⟨before,after,rfl⟩ := List.append_of_mem first
  rcases List.mem_append.mp second with early | rest
  · exact absurd owns' (guarded before one after rfl two early key owns)
  · rcases List.mem_cons.mp rest with same | late
    · exact same.symm
    · obtain ⟨middle,last,rfl⟩ := List.append_of_mem late
      have fresh := guarded (before ++ one :: middle) two last (by simp) one (by simp) key owns'
      exact absurd owns fresh

structure Spending {σ α ι : Type*} (step : σ → α → Option σ) (takes : α → List ι) (spent : σ → ι → Prop) : Prop where
  once : ∀ {state action next}, step state action = some next → (takes action).Nodup
  free : ∀ {state action next}, step state action = some next → ∀ item ∈ takes action, ¬spent state item
  gone : ∀ {state action next}, step state action = some next → ∀ item ∈ takes action, spent next item
  stays : ∀ {state action next}, step state action = some next → ∀ item, spent state item → spent next item

namespace Spending
variable {σ α ι : Type*} {step : σ → α → Option σ} {takes : α → List ι} {spent : σ → ι → Prop}

theorem stays_run (spending : Spending step takes spent) {actions : List α} {state final : σ}
    (run : actions.foldlM step state = some final) : ∀ item, spent state item → spent final item := by
  induction actions generalizing state with
  | nil =>
    cases run
    exact fun _ => id
  | cons action actions ih =>
    obtain ⟨next,taken,rest⟩ := Option.bind_eq_some_iff.mp run
    exact fun item given => ih rest item (spending.stays taken item given)

theorem gone_run (spending : Spending step takes spent) {actions : List α} {state final : σ}
    (run : actions.foldlM step state = some final) : ∀ item ∈ actions.flatMap takes, spent final item := by
  induction actions generalizing state with
  | nil => simp
  | cons action actions ih =>
    obtain ⟨next,taken,rest⟩ := Option.bind_eq_some_iff.mp run
    intro item member
    rcases List.mem_append.mp member with first | later
    · exact spending.stays_run rest item (spending.gone taken item first)
    · exact ih rest item later

theorem free_run (spending : Spending step takes spent) {actions : List α} {state final : σ}
    (run : actions.foldlM step state = some final) : ∀ item ∈ actions.flatMap takes, ¬spent state item := by
  induction actions generalizing state with
  | nil => simp
  | cons action actions ih =>
    obtain ⟨next,taken,rest⟩ := Option.bind_eq_some_iff.mp run
    intro item member given
    rcases List.mem_append.mp member with first | later
    · exact spending.free taken item first given
    · exact ih rest item later (spending.stays taken item given)

/-- A run takes nothing twice. -/
theorem nodup_run (spending : Spending step takes spent) {actions : List α} {state final : σ}
    (run : actions.foldlM step state = some final) : (actions.flatMap takes).Nodup := by
  induction actions generalizing state with
  | nil => simp
  | cons action actions ih =>
    obtain ⟨next,taken,rest⟩ := Option.bind_eq_some_iff.mp run
    refine List.nodup_append.mpr ⟨spending.once taken,ih rest,?_⟩
    intro first among later listed same
    exact spending.free_run rest later listed (same ▸ spending.gone taken first among)

end Spending
end Nak.Library
