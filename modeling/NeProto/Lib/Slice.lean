/-
Slices of a log: `At l a xs` says that the list `xs` stands in `l` at offset `a`. Offsets are cumulative, so a log only
ever grows at its end and a slice never moves.

- `At.append`: a slice and the slice right behind it make one slice.
- `At.grow`: appending to the log keeps every slice.
- `At.take` / `At.drop`: parts of a slice are slices.
- `at_zero`: the slices at offset 0 are the prefixes.
-/
import Mathlib.Tactic

namespace NeProto

open List

variable {α : Type}

/-- `xs` stands in `l` at offset `a` -/
def At (l : List α) (a : ℕ) (xs : List α) : Prop := xs <+: l.drop a

variable {l xs : List α} {a : ℕ}

theorem at_zero : At l 0 xs ↔ xs <+: l := by rw [At, drop_zero]

theorem at_nil (l : List α) (a : ℕ) : At l a [] := nil_prefix

theorem at_self (l : List α) (a : ℕ) : At l a (l.drop a) := prefix_refl _

section

variable (h : At l a xs)
include h

theorem At.length_le : xs.length ≤ l.length - a := by
  simpa using List.IsPrefix.length_le h

/-- the end of a slice that is not empty lies inside the log -/
theorem At.end_le (ha : a ≤ l.length) : a + xs.length ≤ l.length := by
  have := h.length_le; omega

omit h in
theorem At.append {ys : List α} (hx : At l a xs) (hy : At l (a + xs.length) ys) : At l a (xs ++ ys) := by
  obtain ⟨r, hr⟩ := hx
  obtain ⟨r', hr'⟩ := hy
  refine ⟨r', ?_⟩
  have : l.drop (a + xs.length) = r := by
    rw [← drop_drop, ← hr, drop_left]
  rw [append_assoc, hr', this, hr]

theorem At.grow (m : List α) : At (l ++ m) a xs := by
  unfold At
  rw [drop_append]
  exact h.trans (prefix_append _ _)

theorem At.take (n : ℕ) : At l a (xs.take n) := (List.take_prefix n xs).trans h

theorem At.drop (n : ℕ) (hn : n ≤ xs.length) : At l (a + n) (xs.drop n) := by
  obtain ⟨r, hr⟩ := h
  refine ⟨r, ?_⟩
  rw [← drop_drop, ← hr, drop_append_of_le_length hn]

/-- a slice taken out of a slice -/
theorem At.slice {ys : List α} {b : ℕ} (hy : At xs b ys) (hb : b ≤ xs.length) : At l (a + b) ys :=
  List.IsPrefix.trans hy (h.drop b hb)

end

end NeProto
