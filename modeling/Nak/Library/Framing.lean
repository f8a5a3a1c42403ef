import Mathlib.Data.List.Basic

/-! Cutting a stream after each separator. Parts that end in their only separator come
back whole and in order. -/
namespace Nak.Library
variable {α : Type*} [DecidableEq α]

def frames (separator : α) : List α → List (List α)
  | [] => []
  | item :: items =>
    if item = separator then [item] :: frames separator items
    else
      match frames separator items with
      | [] => [[item]]
      | first :: more => (item :: first) :: more

/-- A part of the stream that ends in its only separator. -/
def Frame (separator : α) (part : List α) : Prop := ∃ text, separator ∉ text ∧ part = text ++ [separator]

def cut (separator : α) : List α → List α × List α
  | [] => ([],[])
  | item :: items =>
    if item = separator then ([item],items)
    else
      let (first,rest) := cut separator items
      (item :: first,rest)

variable {separator : α}

theorem frames_cut (item : α) (items : List α) : frames separator (item :: items) =
    (cut separator (item :: items)).1 :: frames separator (cut separator (item :: items)).2 := by
  induction items generalizing item with
  | nil =>
    unfold frames cut
    split <;> rfl
  | cons second items ih =>
    by_cases same : item = separator
    · have shape : cut separator (item :: second :: items) = ([item],second :: items) := if_pos same
      rw [frames,if_pos same,shape]
    · have shape : cut separator (item :: second :: items) =
          (item :: (cut separator (second :: items)).1,(cut separator (second :: items)).2) := if_neg same
      rw [frames,if_neg same,ih,shape]

theorem frames_eq_nil {items : List α} : frames separator items = [] ↔ items = [] := by
  cases items with
  | nil => simp [frames]
  | cons item items => simp [frames_cut]

theorem cut_ne_nil (item : α) (items : List α) : (cut separator (item :: items)).1 ≠ [] := by
  unfold cut
  split <;> simp

/-- Only the last part can lack its separator. -/
theorem frames_ends (items : List α) : ∀ part ∈ (frames separator items).dropLast, part.getLast? = some separator := by
  induction items with
  | nil => simp [frames]
  | cons item items ih =>
    unfold frames
    split
    · rename_i same
      subst same
      cases rest : frames item items with
      | nil => simp
      | cons first more => simpa [rest] using ih
    · cases rest : frames separator items with
      | nil => simp
      | cons first more =>
        cases more with
        | nil => simp
        | cons second more =>
          rw [rest] at ih
          simp only [List.dropLast_cons_cons,List.mem_cons,forall_eq_or_imp] at ih ⊢
          refine ⟨?_,ih.2⟩
          rw [List.getLast?_cons,ih.1]
          rfl

theorem frames_append (text items : List α) (clear : separator ∉ text) :
    frames separator (text ++ separator :: items) = (text ++ [separator]) :: frames separator items := by
  induction text with
  | nil => rw [List.nil_append,frames,if_pos rfl,List.nil_append]
  | cons item text ih =>
    obtain ⟨different,clear⟩ := List.ne_and_not_mem_of_not_mem_cons clear
    rw [List.cons_append,frames,if_neg (Ne.symm different),ih clear]
    rfl

theorem frames_of_parts (parts : List (List α)) (framed : ∀ part ∈ parts, Frame separator part) :
    frames separator parts.flatten = parts := by
  induction parts with
  | nil => rfl
  | cons part parts ih =>
    obtain ⟨text,clear,rfl⟩ := framed part List.mem_cons_self
    rw [List.flatten_cons,List.append_assoc,List.singleton_append,frames_append text _ clear,
      ih fun other member => framed other (List.mem_cons_of_mem _ member)]

section Prefixes
omit [DecidableEq α]
variable {β : Type*} (parts : List β) (whole : β → List α) (taken : β → Nat)
  (within : ∀ part ∈ parts, taken part ≤ (whole part).length)
include within

private theorem take_lengths :
    (parts.map fun part => (whole part).take (taken part)).flatten.length ≤ (parts.map whole).flatten.length ∧
      ((parts.map fun part => (whole part).take (taken part)).flatten.length = (parts.map whole).flatten.length →
        ∀ part ∈ parts, taken part = (whole part).length) := by
  induction parts with
  | nil => simp
  | cons part parts ih =>
    obtain ⟨shorter,equal⟩ := ih fun other member => within other (List.mem_cons_of_mem _ member)
    have bound := within part List.mem_cons_self
    simp only [List.map_cons,List.flatten_cons,List.length_append,List.length_take,Nat.min_eq_left bound,
      List.mem_cons,forall_eq_or_imp]
    exact ⟨by omega,fun total => ⟨by omega,equal (by omega)⟩⟩

theorem take_flatten
    (same : (parts.map fun part => (whole part).take (taken part)).flatten = (parts.map whole).flatten) :
    ∀ part ∈ parts, taken part = (whole part).length :=
  (take_lengths parts whole taken within).2 (congrArg List.length same)

end Prefixes
end Nak.Library
