/-
Unsigned varints, as `binary.AppendUvarint` writes and `binary.Uvarint` reads them, and the canonical reader: it takes a number only in
the form the writer gives it.

- `appendUvarint`, `uvarintRead`, `readCanonicalUvarint`.
- `readCanonicalUvarint_append`: a number below 2^63 reads back in front of any bytes.
- `readCanonicalUvarint_split`: what is taken is a canonical number and the bytes behind it.
-/
import NeProto.Lib.Text

namespace NeProto

open List UInt8

/-- seven bits a byte, low ones first, at most `fuel` bytes -/
def uvarintFuel : ℕ → ℕ → Str
  | 0, _ => []
  | fuel + 1, v => if v < 128 then [UInt8.ofNat v] else UInt8.ofNat (v % 128 + 128) :: uvarintFuel fuel (v / 128)

/-- `binary.AppendUvarint` to nothing; a `uint64` takes at most ten bytes -/
def appendUvarint (v : ℕ) : Str := uvarintFuel 10 v

/-- `binary.Uvarint` on at most `fuel` bytes, with the bytes behind; the last of ten bytes holds one bit -/
def uvarintRead : ℕ → Str → Option (ℕ × Str)
  | fuel + 1, b :: rest =>
    if b < 128 then if fuel = 0 ∧ 1 < b then none else some (b.toNat, rest)
    else (uvarintRead fuel rest).map fun (v, rest) => (b.toNat - 128 + 128 * v, rest)
  | _, _ => none

/-- the number and the bytes behind it, if it is written as `appendUvarint` does -/
def readCanonicalUvarint (raw : Str) : Option (ℕ × Str) :=
  match uvarintRead 10 raw with
  | none => none
  | some (v, rest) => if raw = appendUvarint v ++ rest then some (v, rest) else none

theorem uvarintFuel_ne_nil (fuel v : ℕ) : uvarintFuel (fuel + 1) v ≠ [] := by
  rw [uvarintFuel]
  split <;> exact cons_ne_nil _ _

theorem appendUvarint_length (v : ℕ) : 0 < (appendUvarint v).length := length_pos_iff.mpr (uvarintFuel_ne_nil 9 v)

theorem uvarintFuel_length_le (fuel v : ℕ) : (uvarintFuel fuel v).length ≤ fuel := by
  induction fuel generalizing v with
  | zero => exact le_rfl
  | succ fuel ih =>
    rw [uvarintFuel]
    split
    · rw [length_singleton]
      omega
    · exact Nat.succ_le_succ (ih (v / 128))

theorem uvarintRead_small {v : ℕ} (hv : v < 128) (fuel : ℕ) (rest : Str) :
    uvarintRead (fuel + 2) (ofNat v :: rest) = some (v, rest) := by
  have hbyte : (ofNat v).toNat = v := by
    rw [toNat_ofNat']
    omega
  have hlow : ofNat v < 128 := lt_iff_toNat_lt.mpr (by rw [hbyte]; exact hv)
  rw [uvarintRead, if_pos hlow, if_neg (by simp), hbyte]

theorem uvarintRead_fuel (fuel v : ℕ) (hv : v < 128 ^ (fuel + 1)) (rest : Str) :
    uvarintRead (fuel + 2) (uvarintFuel (fuel + 2) v ++ rest) = some (v, rest) := by
  induction fuel generalizing v with
  | zero =>
    rw [pow_one] at hv
    rw [uvarintFuel, if_pos hv, cons_append, nil_append, uvarintRead_small hv]
  | succ fuel ih =>
    rw [uvarintFuel]
    split
    · next hsmall => rw [cons_append, nil_append, uvarintRead_small hsmall]
    · have hbyte : (ofNat (v % 128 + 128)).toNat = v % 128 + 128 := by
        rw [toNat_ofNat']
        omega
      have hhigh : ¬ofNat (v % 128 + 128) < 128 := by
        rw [lt_iff_toNat_lt, hbyte]
        change ¬v % 128 + 128 < 128
        omega
      have hquot : v / 128 < 128 ^ (fuel + 1) := by
        exact Nat.div_lt_of_lt_mul (by rwa [mul_comm])
      rw [cons_append, uvarintRead, if_neg hhigh, ih (v / 128) hquot, Option.map_some, hbyte, Nat.add_sub_cancel]
      simp only [Nat.mod_add_div]

/-- a number ends in a byte without the continuation bit -/
theorem uvarintRead_all {fuel : ℕ} {raw : Str} (h : raw.all (128 ≤ ·) = true) : uvarintRead fuel raw = none := by
  induction raw generalizing fuel with
  | nil => cases fuel <;> rfl
  | cons b raw ih =>
    cases fuel with
    | zero => rfl
    | succ fuel =>
      rw [all_cons, Bool.and_eq_true, decide_eq_true_eq] at h
      rw [uvarintRead, if_neg (UInt8.not_lt.mpr h.1), ih h.2]
      rfl

/-- **A number reads back in front of any bytes.** -/
theorem readCanonicalUvarint_append {v : ℕ} (hv : v < 2 ^ 63) (rest : Str) :
    readCanonicalUvarint (appendUvarint v ++ rest) = some (v, rest) := by
  have hread := uvarintRead_fuel 8 v (by omega) rest
  rw [readCanonicalUvarint, appendUvarint, hread]
  exact if_pos rfl

theorem readCanonicalUvarint_split {raw rest : Str} {v : ℕ} (h : readCanonicalUvarint raw = some (v, rest)) :
    raw = appendUvarint v ++ rest := by
  unfold readCanonicalUvarint at h
  split at h
  · cases h
  split at h
  · next heq =>
    cases h
    exact heq
  · cases h

end NeProto
