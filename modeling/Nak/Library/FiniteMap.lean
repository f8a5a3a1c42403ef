import Mathlib.Data.Finmap

/-! Finite maps with one value type, read through their lookups.
`FiniteMap` is a map up to its iteration order; `AList` is the same map together
with one order in which it can be iterated. -/
namespace Nak.Library

abbrev FiniteMap (α β : Type*) := Finmap (fun _ : α => β)

abbrev OrderedMap (α β : Type*) := AList (fun _ : α => β)

namespace FiniteMap
variable {α β : Type*} [DecidableEq α]

def len (map : FiniteMap α β) : Nat := map.keys.card

theorem len_eq_zero (map : FiniteMap α β) : len map = 0 ↔ ∀ key, map.lookup key = none := by
  simp only [len,Finset.card_eq_zero,Finset.eq_empty_iff_forall_notMem,Finmap.mem_keys,
    Finmap.lookup_eq_none]

theorem lookup_insert_if (map : FiniteMap α β) (key other : α) (value : β) :
    (map.insert key value).lookup other = if other = key then some value else map.lookup other := by
  by_cases same : other = key
  · subst other
    simp
  · simp [same,Finmap.lookup_insert_of_ne map same]

theorem lookup_erase_if (map : FiniteMap α β) (key other : α) :
    (map.erase key).lookup other = if other = key then none else map.lookup other := by
  by_cases same : other = key
  · subst other
    simp
  · simp [same,Finmap.lookup_erase_ne same]

theorem erase_absent (map : FiniteMap α β) (key : α) (absent : key ∉ map) : map.erase key = map := by
  apply Finmap.ext_lookup
  intro other
  rw [lookup_erase_if]
  split
  · subst other
    exact (Finmap.lookup_eq_none.mpr absent).symm
  · rfl

theorem len_erase_lt (map : FiniteMap α β) (key : α) (present : key ∈ map) :
    len (map.erase key) < len map := by
  rw [len,Finmap.keys_erase]
  exact Finset.card_erase_lt_of_mem (Finmap.mem_keys.mpr present)

theorem len_erase_le (map : FiniteMap α β) (key : α) : len (map.erase key) ≤ len map := by
  rw [len,Finmap.keys_erase]
  exact Finset.card_erase_le

theorem len_insert_le (map : FiniteMap α β) (key : α) (value : β) : len (map.insert key value) ≤ len map + 1 := by
  have same : (map.insert key value).keys = insert key map.keys := by
    ext other
    simp only [Finmap.mem_keys,Finmap.mem_insert,Finset.mem_insert]
  rw [len,same]
  exact Finset.card_insert_le _ _

theorem mem_of_lookup {map : FiniteMap α β} {key : α} {value : β}
    (found : map.lookup key = some value) : key ∈ map :=
  Finmap.mem_of_lookup_eq_some found

end FiniteMap
end Nak.Library
