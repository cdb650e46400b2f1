/-
Pools of threads over a shared state. A pool is the list of the threads ever started; one that has ended leaves `none`. A
step moves one thread, may start another, and changes the shared state.

- `Live`: a thread at its place in the pool.
- `live_moved`: where a live thread of the moved pool comes from.
- `PoolInv`: every live thread is `Good`, every two are `Apart`.
- `PoolInv.move`, `PoolInv.spawn`: what the moving thread has to show of itself, of what it starts and of the others.
- `exists_moved`: some live thread still answers for a thing, if the moving one passes on what it answered for.
-/
import Mathlib.Tactic

namespace NeProto.Pool

open List

variable {τ κ : Type}

/-- thread `t` is live at place `i` -/
def Live (l : List (Option τ)) (i : ℕ) (t : τ) : Prop := l[i]? = some (some t)

/-- the pool after thread `i` went on as `next`, or ended, and perhaps started another -/
def moved (l : List (Option τ)) (i : ℕ) (next spawned : Option τ) : List (Option τ) :=
  l.set i next ++ spawned.toList.map some

variable {l : List (Option τ)} {i j : ℕ} {t u : τ} {next spawned : Option τ}

theorem Live.lt (h : Live l i t) : i < l.length := (List.getElem?_eq_some_iff.1 h).1

theorem Live.unique (h : Live l i t) (h' : Live l i u) : t = u :=
  Option.some.inj (Option.some.inj (h.symm.trans h'))

/-- a live thread of a longer pool was there before or is the new one -/
theorem live_append {x : Option τ} (h : Live (l ++ [x]) j u) : Live l j u ∨ (j = l.length ∧ x = some u) := by
  rcases Nat.lt_or_ge j l.length with hlt | hge
  · left
    rwa [Live, getElem?_append_left hlt] at h
  right
  rw [Live, List.getElem?_append_right hge] at h
  obtain ⟨hlen, hx⟩ := List.getElem?_eq_some_iff.1 h
  simp only [List.length_singleton, Nat.lt_one_iff] at hlen
  have hj : j = l.length := by omega
  subst hj
  exact ⟨rfl, by simpa using h⟩

theorem live_set {x : Option τ} (h : Live (l.set i x) j u) : (j ≠ i ∧ Live l j u) ∨ (j = i ∧ x = some u) := by
  by_cases hij : j = i
  · subst hij
    have hlt : j < l.length := by simpa using h.lt
    rw [Live, getElem?_set_self hlt] at h
    exact .inr ⟨rfl, Option.some.inj h⟩
  · rw [Live, getElem?_set_ne (Ne.symm hij)] at h
    exact .inl ⟨hij, h⟩

theorem moved_none (l : List (Option τ)) (i : ℕ) (next : Option τ) : moved l i next none = l.set i next := by
  simp [moved]

theorem moved_some (l : List (Option τ)) (i : ℕ) (next : Option τ) (m : τ) :
    moved l i next (some m) = l.set i next ++ [some m] := rfl

/-- **Origins.** A live thread of the moved pool is another thread that stands still, the moved thread, or the new one. -/
theorem live_moved (h : Live (moved l i next spawned) j u) :
    (j ≠ i ∧ Live l j u) ∨ (j = i ∧ next = some u) ∨ (j = l.length ∧ spawned = some u) := by
  cases spawned with
  | none =>
    rw [moved_none] at h
    rcases live_set h with hold | hmine
    · exact .inl hold
    · exact .inr (.inl hmine)
  | some m =>
    rcases live_append h with hset | ⟨hj, hm⟩
    · rcases live_set hset with hold | hmine
      · exact .inl hold
      · exact .inr (.inl hmine)
    · exact .inr (.inr ⟨by simpa using hj, hm⟩)

theorem live_moved_of_ne (next spawned : Option τ) (h : Live l j u) (hne : j ≠ i) : Live (moved l i next spawned) j u := by
  rw [Live, moved, getElem?_append_left (by simpa using h.lt), getElem?_set_ne hne.symm]
  exact h

theorem live_moved_self (spawned : Option τ) (h : Live l i t)
    (hnext : next = some u) : Live (moved l i next spawned) i u := by
  rw [Live, moved, getElem?_append_left (by simpa using h.lt), getElem?_set_self h.lt, hnext]

theorem live_moved_new (i : ℕ) {m : τ} (next : Option τ)
    (hspawn : spawned = some m) : Live (moved l i next spawned) l.length m := by
  subst hspawn
  rw [Live, moved_some]
  simp

theorem live_append_of_live (x : Option τ) (h : Live l j u) : Live (l ++ [x]) j u := by
  rw [Live, getElem?_append_left h.lt]
  exact h

theorem live_append_new (l : List (Option τ)) (t : τ) : Live (l ++ [some t]) l.length t := by
  simp [Live]

/-- **Answers.** What some live thread answered for, some live thread of the moved pool answers for, if the moving thread
passes on its own. -/
theorem exists_moved {P : τ → Prop} (hi : Live l i t)
    (hpass : P t → (∃ u, next = some u ∧ P u) ∨ ∃ m, spawned = some m ∧ P m) (h : ∃ j u, Live l j u ∧ P u) :
    ∃ j u, Live (moved l i next spawned) j u ∧ P u := by
  obtain ⟨j, u, hj, hP⟩ := h
  by_cases hij : j = i
  · subst hij
    obtain rfl := hi.unique hj
    rcases hpass hP with ⟨u, hu, hPu⟩ | ⟨m, hm, hPm⟩
    · exact ⟨j, u, live_moved_self _ hi hu, hPu⟩
    · exact ⟨_, m, live_moved_new _ _ hm, hPm⟩
  · exact ⟨j, u, live_moved_of_ne _ _ hj hij, hP⟩

/-! ## Invariants of threads and of pairs -/

/-- every live thread is `Good` in the shared state, every two are `Apart` -/
structure PoolInv (Good : κ → τ → Prop) (Apart : κ → τ → τ → Prop) (c : κ) (l : List (Option τ)) : Prop where
  good : ∀ i t, Live l i t → Good c t
  apart : ∀ i j t u, i ≠ j → Live l i t → Live l j u → Apart c t u

variable {Good : κ → τ → Prop} {Apart : κ → τ → τ → Prop}

theorem PoolInv.nil (c : κ) : PoolInv Good Apart c [] :=
  ⟨fun i t h => by simp [Live] at h, fun i j t u _ h => by simp [Live] at h⟩

section

variable {c c' : κ} (symm : ∀ c t u, Apart c t u → Apart c u t) (h : PoolInv Good Apart c l)
include symm h

/-- **Step rule.** -/
theorem PoolInv.move (hi : Live l i t)
    (others : ∀ u, Good c u → Apart c t u → Good c' u) (still : ∀ u v, Apart c u v → Apart c' u v)
    (mine : ∀ u, next = some u → Good c' u ∧ ∀ v, Good c v → Apart c t v → Apart c' u v)
    (born : ∀ m, spawned = some m → Good c' m ∧ (∀ u, next = some u → Apart c' m u) ∧ ∀ v, Good c v → Apart c' m v) :
    PoolInv Good Apart c' (moved l i next spawned) := by
  have fromOther : ∀ j v, j ≠ i → Live l j v → Good c v ∧ Apart c t v := fun j v hj hv =>
    ⟨h.good j v hv, h.apart i j t v hj.symm hi hv⟩
  refine ⟨fun j u hj => ?_, fun j k u v hjk hj hk => ?_⟩
  · rcases live_moved hj with ⟨hne, hold⟩ | ⟨_, hu⟩ | ⟨_, hu⟩
    · exact others u (fromOther j u hne hold).1 (fromOther j u hne hold).2
    · exact (mine u hu).1
    · exact (born u hu).1
  · rcases live_moved hj with ⟨hjne, hjold⟩ | ⟨hji, hu⟩ | ⟨hjl, hu⟩ <;>
      rcases live_moved hk with ⟨hkne, hkold⟩ | ⟨hki, hv⟩ | ⟨hkl, hv⟩
    · exact still u v (h.apart j k u v hjk hjold hkold)
    · exact symm _ _ _ ((mine v hv).2 u (fromOther j u hjne hjold).1 (fromOther j u hjne hjold).2)
    · exact symm _ _ _ ((born v hv).2.2 u (fromOther j u hjne hjold).1)
    · exact (mine u hu).2 v (fromOther k v hkne hkold).1 (fromOther k v hkne hkold).2
    · exact absurd (hji.trans hki.symm) hjk
    · exact symm _ _ _ ((born v hv).2.1 u hu)
    · exact (born u hu).2.2 v (fromOther k v hkne hkold).1
    · exact (born u hu).2.1 v hv
    · exact absurd (hjl.trans hkl.symm) hjk

/-- **Start rule.** -/
theorem PoolInv.spawn (others : ∀ u, Good c u → Good c' u) (still : ∀ u v, Apart c u v → Apart c' u v)
    (born : Good c' t) (apart : ∀ v, Good c v → Apart c' t v) : PoolInv Good Apart c' (l ++ [some t]) := by
  refine ⟨fun j u hj => ?_, fun j k u v hjk hj hk => ?_⟩
  · rcases live_append hj with hold | ⟨_, hu⟩
    · exact others u (h.good j u hold)
    · cases hu
      exact born
  · rcases live_append hj with hjold | ⟨hjl, hu⟩ <;> rcases live_append hk with hkold | ⟨hkl, hv⟩
    · exact still u v (h.apart j k u v hjk hjold hkold)
    · cases hv
      exact symm _ _ _ (apart u (h.good j u hjold))
    · cases hu
      exact apart v (h.good k v hkold)
    · exact absurd (hjl.trans hkl.symm) hjk

end

end NeProto.Pool
