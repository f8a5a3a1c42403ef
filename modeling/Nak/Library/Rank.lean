import Mathlib.Logic.Relation
import Mathlib.Order.WellFounded

/-! Relations whose steps lower a rank: they have no cycle, and following them from
anywhere comes to an end. -/
namespace Nak.Library
open Relation
variable {α : Type*} {relation : α → α → Prop} {goal : α → Prop}

def Ranked (relation : α → α → Prop) (rank : α → Nat) : Prop :=
  ∀ first second, relation first second → rank second < rank first

/-- However the relation is followed, a place of the goal is reached. -/
inductive Leads (relation : α → α → Prop) (goal : α → Prop) : α → Prop
  | here {place} (reached : goal place) : Leads relation goal place
  | on {place} (some : ∃ other, relation place other)
      (all : ∀ other, relation place other → Leads relation goal other) : Leads relation goal place

theorem Leads.reaches {place : α} (leads : Leads relation goal place) :
    ∃ other, ReflTransGen relation place other ∧ goal other := by
  induction leads with
  | here reached => exact ⟨_,.refl,reached⟩
  | on some all ih =>
    obtain ⟨next,step⟩ := some
    obtain ⟨other,path,reached⟩ := ih next step
    exact ⟨other,.head step path,reached⟩

theorem Leads.mono {other : α → Prop} {place : α} (leads : Leads relation goal place)
    (implies : ∀ place, goal place → other place) : Leads relation other place := by
  induction leads with
  | here reached => exact .here (implies _ reached)
  | on some _ ih => exact .on some ih

/-- Where every step goes down a well-founded order or comes to the goal, the way leads to it. -/
theorem Leads.lowering {β : Type*} [LT β] [WellFoundedLT β] (rank : α → β) (active : α → Prop)
    (some : ∀ place, active place → ∃ other, relation place other)
    (next : ∀ place other, active place → relation place other → goal other ∨ active other ∧ rank other < rank place)
    {place : α} (start : active place) : Leads relation goal place := by
  induction bound : rank place using WellFoundedLT.induction generalizing place with
  | ind bound ih =>
    subst bound
    refine .on (some place start) fun other step => ?_
    rcases next place other start step with reached | ⟨active,lower⟩
    · exact .here reached
    · exact ih (rank other) lower active rfl

namespace Ranked
variable {rank : α → Nat}

theorem lowers (ranked : Ranked relation rank) {first second : α} (path : TransGen relation first second) :
    rank second < rank first := by
  induction path with
  | single step => exact ranked _ _ step
  | tail _ step ih => exact Nat.lt_trans (ranked _ _ step) ih

theorem acyclic (ranked : Ranked relation rank) (place : α) : ¬TransGen relation place place :=
  fun cycle => Nat.lt_irrefl _ (ranked.lowers cycle)

theorem mono (ranked : Ranked relation rank) {other : α → α → Prop}
    (fewer : ∀ first second, other first second → relation first second) : Ranked other rank :=
  fun first second step => ranked first second (fewer first second step)

theorem leads (ranked : Ranked relation rank) {active : α → Prop}
    (some : ∀ place, active place → ∃ other, relation place other)
    (next : ∀ place other, relation place other → active other ∨ goal other) (place : α) (start : active place) :
    Leads relation goal place := by
  induction bound : rank place using Nat.strongRecOn generalizing place with
  | ind bound ih =>
    subst bound
    refine .on (some place start) fun other step => ?_
    rcases next place other step with active | reached
    · exact ih (rank other) (ranked place other step) other active rfl
    · exact .here reached

end Ranked
end Nak.Library
