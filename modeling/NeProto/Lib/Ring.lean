/-
Ring buffers over a list: the two-piece copies a circular buffer is written and read with, and what they mean.

- `overwrite`: copy a list over a buffer at a position (Go's `copy(buf[at:], xs)`).
- `ringWrite` / `ringRead` / `ringClear`: the copy in two pieces, up to the end of the buffer and on from its start.
- `cell`: the buffer index of the i-th element after a start, `(start + i) % capacity`.
- `ringRead_eq`: a two-piece read is the list of its cells; everything else is read off cell by cell:
  `ringRead_write` (writing behind the contents appends), `ringRead_drop` (moving the head drops) and `ringRead_clear`
  (wiping cells in front of the contents changes nothing).
- `Blank`: the cells behind the contents hold one value; kept by writes behind them and by wiping in front.
-/
import Mathlib.Tactic

namespace NeProto.Ring

open List Nat

variable {α : Type}

/-! ## Copies -/

/-- copy `xs` over `buf` from index `at` on -/
def overwrite (buf : List α) (pos : ℕ) (xs : List α) : List α :=
  buf.take pos ++ xs ++ buf.drop (pos + xs.length)

variable {cap : ℕ}

theorem overwrite_length (buf : List α) (pos : ℕ) (xs : List α) (h : pos + xs.length ≤ buf.length) :
    (overwrite buf pos xs).length = buf.length := by
  simp only [overwrite, length_append, length_take, length_drop]
  omega

theorem overwrite_getElem? (buf : List α) (pos : ℕ) (xs : List α) (h : pos + xs.length ≤ buf.length) (i : ℕ) :
    (overwrite buf pos xs)[i]? = if pos ≤ i ∧ i < pos + xs.length then xs[i - pos]? else buf[i]? := by
  have hp : (buf.take pos).length = pos := by simp; omega
  unfold overwrite
  by_cases h1 : i < pos
  · rw [append_assoc, getElem?_append_left (by omega), getElem?_take_of_lt h1]
    rw [if_neg (by omega)]
  by_cases h2 : i < pos + xs.length
  · rw [getElem?_append_left (by simp; omega), getElem?_append_right (by omega), hp]
    rw [if_pos ⟨by omega, h2⟩]
  · rw [getElem?_append_right (by simp; omega), getElem?_drop]
    rw [if_neg (by omega)]
    congr 1
    simp only [length_append, hp]
    omega

/-- write `xs` from index `tail` on, wrapping at the end of the buffer -/
def ringWrite (buf : List α) (tail : ℕ) (xs : List α) : List α :=
  let first := min xs.length (buf.length - tail)
  overwrite (overwrite buf tail (xs.take first)) 0 (xs.drop first)

/-- read `len` elements from index `start` on, wrapping at the end of the buffer -/
def ringRead (buf : List α) (start len : ℕ) : List α :=
  let first := min len (buf.length - start)
  (buf.drop start).take first ++ buf.take (len - first)

/-- wipe `len` cells from index `start` on, wrapping at the end of the buffer -/
def ringClear (z : α) (buf : List α) (start len : ℕ) : List α := ringWrite buf start (List.replicate len z)

/-! ## Cells -/

/-- the buffer index of the i-th element after `start` -/
def cell (cap start i : ℕ) : ℕ := (start + i) % cap

theorem cell_of_lt {start i : ℕ} (h : start + i < cap) : cell cap start i = start + i := mod_eq_of_lt h

theorem cell_of_ge {start i : ℕ} (hs : start < cap) (hi : i ≤ cap) (h : cap ≤ start + i) :
    cell cap start i = start + i - cap := by
  unfold cell
  rw [mod_eq_sub_mod h, mod_eq_of_lt (by omega)]

/-- moving the start by `k` shifts the cells by `k` -/
theorem cell_shift (cap start k i : ℕ) : cell cap (cell cap start k) i = cell cap start (k + i) := by
  unfold cell
  rw [mod_add_mod, add_assoc]

theorem cell_lt (h : 0 < cap) (start i : ℕ) : cell cap start i < cap := mod_lt _ h

/-! ## Reading and writing cell by cell -/

section

variable (buf : List α)

theorem ringRead_length (start len : ℕ) (hl : len ≤ buf.length) (hs : start ≤ buf.length) :
    (ringRead buf start len).length = len := by
  simp only [ringRead, length_append, length_take, length_drop]
  omega

/-- a two-piece read returns its cells in order -/
theorem ringRead_eq (start len i : ℕ) (hs : start < buf.length) (hl : len ≤ buf.length) (hi : i < len) :
    (ringRead buf start len)[i]? = buf[cell buf.length start i]? := by
  unfold ringRead
  by_cases h : start + i < buf.length
  · rw [cell_of_lt h, getElem?_append_left (by simp; omega), getElem?_take_of_lt (by omega), getElem?_drop]
  rw [cell_of_ge hs (by omega) (by omega), getElem?_append_right (by simp; omega),
    getElem?_take_of_lt (by simp; omega)]
  congr 1
  simp only [length_take, length_drop]
  omega

theorem ringWrite_length (tail : ℕ) (xs : List α) (ht : tail ≤ buf.length)
    (hx : xs.length ≤ buf.length) : (ringWrite buf tail xs).length = buf.length := by
  unfold ringWrite
  rw [overwrite_length, overwrite_length]
  · simp; omega
  · rw [overwrite_length _ _ _ (by simp; omega)]
    simp; omega

/-- a two-piece write puts `xs[i]` in the i-th cell and leaves every other cell alone -/
theorem ringWrite_getElem? (tail : ℕ) (xs : List α) (ht : tail < buf.length)
    (hx : xs.length ≤ buf.length) (i : ℕ) (hi : i < buf.length) :
    (ringWrite buf tail xs)[cell buf.length tail i]? =
      if i < xs.length then xs[i]? else buf[cell buf.length tail i]? := by
  have h1 : tail + (xs.take (min xs.length (buf.length - tail))).length ≤ buf.length := by simp; omega
  have h0 : 0 + (xs.drop (min xs.length (buf.length - tail))).length ≤
      (overwrite buf tail (xs.take (min xs.length (buf.length - tail)))).length := by
    rw [overwrite_length _ _ _ h1]; simp; omega
  unfold ringWrite
  rw [overwrite_getElem? _ _ _ h0, overwrite_getElem? _ _ _ h1]
  by_cases h : tail + i < buf.length
  · -- the i-th cell is in the first piece
    rw [cell_of_lt h]
    by_cases hix : i < xs.length
    · rw [if_neg (by simp; omega), if_pos (by simp; omega), if_pos hix]
      rw [getElem?_take_of_lt (by omega)]
      congr 1; omega
    · rw [if_neg (by simp; omega), if_neg (by simp; omega), if_neg hix]
  · -- the i-th cell is in the wrapped piece
    rw [cell_of_ge ht hi.le (by omega)]
    by_cases hix : i < xs.length
    · rw [if_pos (by simp; omega), if_pos hix, getElem?_drop]
      congr 1; omega
    · rw [if_neg (by simp; omega), if_neg (by omega), if_neg hix]

/-! ## What reads see after a write, a move of the head or a wipe -/

/-- writing behind `size` elements appends -/
theorem ringRead_write (head size : ℕ) (xs : List α) (hh : head < buf.length)
    (hfit : size + xs.length ≤ buf.length) :
    ringRead (ringWrite buf (cell buf.length head size) xs) head (size + xs.length) =
      ringRead buf head size ++ xs := by
  have hpos : 0 < buf.length := by omega
  have ht := cell_lt hpos head size
  have hlen := ringWrite_length buf (cell buf.length head size) xs ht.le (by omega)
  have hr := ringRead_length buf head size (by omega) hh.le
  apply ext_getElem?
  intro i
  by_cases hi : i < size + xs.length
  · rw [ringRead_eq _ _ _ _ (by omega) (by omega) hi, hlen]
    by_cases his : i < size
    · -- an old element: its cell is `cap - size + i` places after the tail
      rw [getElem?_append_left (by omega), ringRead_eq _ _ _ _ hh (by omega) his]
      have hc : cell buf.length head i =
          cell buf.length (cell buf.length head size) (buf.length - size + i) := by
        rw [cell_shift]
        unfold cell
        rw [show head + (size + (buf.length - size + i)) = head + i + buf.length by omega, add_mod_right]
      rw [hc, ringWrite_getElem? _ _ _ ht (by omega) _ (by omega), if_neg (by omega)]
    · rw [getElem?_append_right (by omega), hr]
      have hc : cell buf.length head i = cell buf.length (cell buf.length head size) (i - size) := by
        rw [cell_shift, show size + (i - size) = i by omega]
      rw [hc, ringWrite_getElem? _ _ _ ht (by omega) _ (by omega), if_pos (by omega)]
  · rw [getElem?_eq_none (by rw [ringRead_length _ _ _ (by omega) (by omega)]; omega),
      getElem?_eq_none (by simp [hr]; omega)]

/-- moving the head by `k` drops the first `k` elements, and a shorter read is a prefix -/
theorem ringRead_drop (head size k len : ℕ) (hh : head < buf.length) (hs : size ≤ buf.length)
    (hk : k + len ≤ size) :
    ringRead buf (cell buf.length head k) len = ((ringRead buf head size).drop k).take len := by
  have hpos : 0 < buf.length := by omega
  have hc := cell_lt hpos head k
  apply ext_getElem?
  intro i
  by_cases hi : i < len
  · rw [ringRead_eq _ _ _ _ hc (by omega) hi, cell_shift, getElem?_take_of_lt hi, getElem?_drop,
      ringRead_eq _ _ _ _ hh hs (by omega)]
  · rw [getElem?_eq_none (by rw [ringRead_length _ _ _ (by omega) hc.le]; omega),
      getElem?_eq_none (by simp; omega)]

/-- wiping the first `k` cells changes no element behind them -/
theorem ringRead_clear (z : α) (head size k : ℕ) (hh : head < buf.length) (hs : size ≤ buf.length)
    (hk : k ≤ size) :
    ringRead (ringClear z buf head k) (cell buf.length head k) (size - k) =
      ringRead buf (cell buf.length head k) (size - k) := by
  have hpos : 0 < buf.length := by omega
  have hc := cell_lt hpos head k
  have hlen : (ringClear z buf head k).length = buf.length := ringWrite_length _ _ _ hh.le (by simp; omega)
  apply ext_getElem?
  intro i
  by_cases hi : i < size - k
  · rw [ringRead_eq _ _ _ _ (by omega) (by omega) hi, ringRead_eq _ _ _ _ hc (by omega) hi, hlen, cell_shift]
    unfold ringClear
    rw [ringWrite_getElem? _ _ _ hh (by simp; omega) _ (by omega), if_neg (by simp)]
  · rw [getElem?_eq_none (by rw [ringRead_length _ _ _ (by omega) (by omega)]; omega),
      getElem?_eq_none (by rw [ringRead_length _ _ _ (by omega) hc.le]; omega)]

end

/-! ## Cells without an element -/

/-- the cells behind the first `size` hold `z` -/
def Blank (z : α) (buf : List α) (head size : ℕ) : Prop :=
  ∀ k, size ≤ k → k < buf.length → buf[cell buf.length head k]? = some z

theorem Blank.write {z : α} {buf : List α} {head size : ℕ} (h : Blank z buf head size) (xs : List α) (hh : head < buf.length)
    (hfit : size + xs.length ≤ buf.length) :
    Blank z (ringWrite buf (cell buf.length head size) xs) head (size + xs.length) := by
  have ht : cell buf.length head size < buf.length := cell_lt (by omega) head size
  intro k hk hcap
  rw [ringWrite_length _ _ _ ht.le (by omega)] at hcap ⊢
  have hc : cell buf.length head k = cell buf.length (cell buf.length head size) (k - size) := by
    rw [cell_shift, Nat.add_sub_cancel' (by omega)]
  rw [hc, ringWrite_getElem? _ _ _ ht (by omega) _ (by omega), if_neg (by omega), ← hc]
  exact h k (by omega) hcap

/-- wiping the first `n` cells and moving the head behind them -/
theorem Blank.clear {z : α} {buf : List α} {head size n : ℕ} (h : Blank z buf head size) (hh : head < buf.length)
    (hs : size ≤ buf.length) (hn : n ≤ size) : Blank z (ringClear z buf head n) (cell buf.length head n) (size - n) := by
  have hfit : (replicate n z).length ≤ buf.length := by rw [length_replicate]; omega
  intro k hk hcap
  rw [ringClear, ringWrite_length _ _ _ hh.le hfit] at hcap ⊢
  rw [cell_shift]
  by_cases hwrap : n + k < buf.length
  · rw [ringWrite_getElem? _ _ _ hh hfit _ hwrap, length_replicate, if_neg (by omega)]
    exact h _ (by omega) hwrap
  · -- past the end of the buffer the cells begin again, and those have been wiped
    have hc : cell buf.length head (n + k) = cell buf.length head (n + k - buf.length) := by
      unfold cell
      rw [← Nat.add_mod_right (head + (n + k - buf.length)), Nat.add_assoc, Nat.sub_add_cancel (by omega)]
    rw [hc, ringWrite_getElem? _ _ _ hh hfit _ (by omega), length_replicate, if_pos (by omega),
      getElem?_replicate_of_lt (by omega)]

/-- a buffer without elements is blank from every head on -/
theorem Blank.move {z : α} {buf : List α} {head : ℕ} (h : Blank z buf head 0) (hh : head < buf.length) : Blank z buf 0 0 := by
  intro k _ hk
  rw [cell_of_lt (by omega), zero_add]
  by_cases hle : head ≤ k
  · have hblank := h (k - head) (Nat.zero_le _) (by omega)
    rwa [cell_of_lt (by omega), Nat.add_sub_cancel' hle] at hblank
  · have hblank := h (buf.length + k - head) (Nat.zero_le _) (by omega)
    rwa [cell_of_ge hh (by omega) (by omega), Nat.add_sub_cancel' (by omega), Nat.add_sub_cancel_left] at hblank

end NeProto.Ring
