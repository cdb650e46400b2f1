/-
Finite maps with a size and a filter, on Mathlib's association lists with distinct keys.

- `GoMap.filter`: the entries that meet a condition stay.
- `lookup_filter`, `lookup_erase_eq`, `lookup_insert_eq`: every operation as a function of the looked-up key.
-/
import Mathlib.Tactic
import Mathlib.Data.List.AList

namespace NeProto

abbrev GoMap (α : Type) := AList fun _ : ℕ => α

namespace GoMap

variable {α : Type}

def filter (m : GoMap α) (p : ℕ → α → Bool) : GoMap α :=
  ⟨m.entries.filter fun e => p e.1 e.2, m.nodupKeys.sublist List.filter_sublist⟩

/-- `len` -/
def size (m : GoMap α) : ℕ := m.entries.length

theorem lookup_filter (m : GoMap α) (p : ℕ → α → Bool) (k : ℕ) : (filter m p).lookup k = (m.lookup k).filter (p k) := by
  ext b
  rw [← Option.mem_def, AList.mem_lookup_iff, Option.filter_eq_some_iff, ← Option.mem_def, AList.mem_lookup_iff]
  simp [filter, List.mem_filter]

theorem lookup_insert_eq (m : GoMap α) (k : ℕ) (v : α) (k' : ℕ) :
    (m.insert k v).lookup k' = if k' = k then some v else m.lookup k' := by
  split_ifs with h
  · subst h
    exact AList.lookup_insert m
  · exact AList.lookup_insert_ne h

theorem lookup_erase_eq (m : GoMap α) (k k' : ℕ) : (m.erase k).lookup k' = if k' = k then none else m.lookup k' := by
  split_ifs with h
  · subst h
    exact AList.lookup_erase k' m
  · exact AList.lookup_erase_ne h

end GoMap

end NeProto
