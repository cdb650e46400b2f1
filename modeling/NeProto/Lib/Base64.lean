/-
Unpadded URL-safe base64 (`base64.RawURLEncoding`).

- `encode`: three bytes are four digits; one or two bytes at the end are two or three.
- `decode`: line ends are skipped, a single digit at the end is an error, the bits a short group leaves over are ignored.
- `decode_encode`: what was encoded reads back; `encode_length`, `encode_digits`: how long the text is and what is in it.
- `canonical`: a text of `n` bytes that is its own encoding, the check the sources make of identifiers and secrets.
-/
import NeProto.Lib.Text

namespace NeProto.Base64

open List

/-- the digit of a value below 64 -/
def digit (n : ℕ) : UInt8 :=
  UInt8.ofNat (if n < 26 then 65 + n else if n < 52 then 71 + n else if n < 62 then n - 4 else if n = 62 then 45 else 95)

/-- the value of a digit -/
def value (b : UInt8) : Option ℕ :=
  if isUpper b then some (b.toNat - 65)
  else if isLower b then some (b.toNat - 71)
  else if isDigit b then some (b.toNat + 4)
  else if b = 45 then some 62
  else if b = 95 then some 63
  else none

/-- `EncodeToString` -/
def encode : Str → Str
  | a :: b :: c :: rest =>
    digit (a.toNat / 4) :: digit (a.toNat % 4 * 16 + b.toNat / 16) :: digit (b.toNat % 16 * 4 + c.toNat / 64) ::
      digit (c.toNat % 64) :: encode rest
  | [a, b] => [digit (a.toNat / 4), digit (a.toNat % 4 * 16 + b.toNat / 16), digit (b.toNat % 16 * 4)]
  | [a] => [digit (a.toNat / 4), digit (a.toNat % 4 * 16)]
  | [] => []

/-- the bytes of groups of values -/
def groups : List ℕ → Option Str
  | v :: w :: x :: y :: rest =>
    (groups rest).map fun bytes =>
      UInt8.ofNat (v * 4 + w / 16) :: UInt8.ofNat (w % 16 * 16 + x / 4) :: UInt8.ofNat (x % 4 * 64 + y) :: bytes
  | [v, w, x] => some [UInt8.ofNat (v * 4 + w / 16), UInt8.ofNat (w % 16 * 16 + x / 4)]
  | [v, w] => some [UInt8.ofNat (v * 4 + w / 16)]
  | [_] => none
  | [] => some []

/-- `DecodeString` -/
def decode (s : Str) : Option Str := ((s.filter fun b => b ≠ 10 ∧ b ≠ 13).mapM value).bind groups

/-- the check of a text that stands for `n` bytes -/
def canonical (n : ℕ) (s : Str) : Option Str :=
  match decode s with
  | some raw => if raw.length = n ∧ encode raw = s then some raw else none
  | none => none

/-! ## Round trip -/

variable {n : ℕ} {s : Str}

theorem value_digit (h : n < 64) : value (digit n) = some n := by
  have hall : ∀ m : Fin 64, value (digit m) = some m.val := by decide +kernel
  exact hall ⟨n, h⟩

/-- a digit is no line end, space, tab or padding -/
theorem digit_clean (h : n < 64) : digit n ∉ ([9, 10, 13, 32, 61] : List UInt8) := by
  have hall : ∀ m : Fin 64, digit m ∉ ([9, 10, 13, 32, 61] : List UInt8) := by decide +kernel
  exact hall ⟨n, h⟩

/-- the values of the digits of an encoding -/
def values : Str → List ℕ
  | a :: b :: c :: rest =>
    a.toNat / 4 :: (a.toNat % 4 * 16 + b.toNat / 16) :: (b.toNat % 16 * 4 + c.toNat / 64) :: c.toNat % 64 :: values rest
  | [a, b] => [a.toNat / 4, a.toNat % 4 * 16 + b.toNat / 16, b.toNat % 16 * 4]
  | [a] => [a.toNat / 4, a.toNat % 4 * 16]
  | [] => []

theorem encode_eq (s : Str) : encode s = (values s).map digit := by
  induction s using encode.induct with
  | case1 a b c rest ih => simp [encode, values, ih]
  | case2 a b | case3 a | case4 => rfl

theorem values_lt (s : Str) : ∀ n ∈ values s, n < 64 := by
  induction s using encode.induct with
  | case1 a b c rest ih =>
    have ha := a.toNat_lt
    have hb := b.toNat_lt
    have hc := c.toNat_lt
    intro n hn
    simp only [values, mem_cons] at hn
    rcases hn with rfl | rfl | rfl | rfl | hn
    · omega
    · omega
    · omega
    · omega
    · exact ih n hn
  | case2 a b =>
    have ha := a.toNat_lt
    have hb := b.toNat_lt
    intro n hn
    simp only [values, mem_cons, not_mem_nil, or_false] at hn
    omega
  | case3 a =>
    have ha := a.toNat_lt
    intro n hn
    simp only [values, mem_cons, not_mem_nil, or_false] at hn
    omega
  | case4 => exact fun n hn => absurd hn not_mem_nil

theorem groups_values (s : Str) : groups (values s) = some s := by
  induction s using encode.induct with
  | case1 a b c rest ih =>
    have hb := b.toNat_lt
    have hc := c.toNat_lt
    have h1 : a.toNat / 4 * 4 + (a.toNat % 4 * 16 + b.toNat / 16) / 16 = a.toNat := by omega
    have h2 : (a.toNat % 4 * 16 + b.toNat / 16) % 16 * 16 + (b.toNat % 16 * 4 + c.toNat / 64) / 4 = b.toNat := by omega
    have h3 : (b.toNat % 16 * 4 + c.toNat / 64) % 4 * 64 + c.toNat % 64 = c.toNat := by omega
    simp only [values, groups, ih, Option.map_some, h1, h2, h3, UInt8.ofNat_toNat]
  | case2 a b =>
    have hb := b.toNat_lt
    have h1 : a.toNat / 4 * 4 + (a.toNat % 4 * 16 + b.toNat / 16) / 16 = a.toNat := by omega
    have h2 : (a.toNat % 4 * 16 + b.toNat / 16) % 16 * 16 + b.toNat % 16 * 4 / 4 = b.toNat := by omega
    simp only [values, groups, h1, h2, UInt8.ofNat_toNat]
  | case3 a =>
    have h1 : a.toNat / 4 * 4 + a.toNat % 4 * 16 / 16 = a.toNat := by omega
    simp only [values, groups, h1, UInt8.ofNat_toNat]
  | case4 => rfl

theorem mapM_value_digits : ∀ l : List ℕ, (∀ n ∈ l, n < 64) → (l.map digit).mapM value = some l := by
  intro l
  induction l with
  | nil => exact fun _ => rfl
  | cons n l ih =>
    intro h
    rw [map_cons, mapM_cons, value_digit (h n mem_cons_self), ih fun m hm => h m (mem_cons_of_mem _ hm)]
    rfl

/-- the text of an encoding is made of digits -/
theorem encode_digits {b : UInt8} (h : b ∈ encode s) : b ∉ ([9, 10, 13, 32, 61] : List UInt8) := by
  rw [encode_eq] at h
  obtain ⟨n, hn, rfl⟩ := mem_map.1 h
  exact digit_clean (values_lt s n hn)

/-- **Round trip.** -/
theorem decode_encode (s : Str) : decode (encode s) = some s := by
  have hclean : (encode s).filter (fun b => b ≠ 10 ∧ b ≠ 13) = encode s := by
    refine filter_eq_self.2 fun b hb => ?_
    have hnot := encode_digits hb
    simp only [mem_cons, not_or] at hnot
    exact decide_eq_true ⟨hnot.2.1, hnot.2.2.1⟩
  rw [decode, hclean, encode_eq, mapM_value_digits _ (values_lt s), Option.bind_some, groups_values]

theorem canonical_encode (h : s.length = n) : canonical n (encode s) = some s := by
  rw [canonical, decode_encode]
  exact if_pos ⟨h, rfl⟩

theorem canonical_eq {raw : Str} (h : canonical n s = some raw) : raw.length = n ∧ encode raw = s := by
  unfold canonical at h
  split at h
  · split at h
    · rename_i hraw
      cases h
      exact hraw
    · cases h
  · cases h

theorem encode_length (s : Str) : (encode s).length = (s.length * 4 + 2) / 3 := by
  induction s using encode.induct with
  | case1 a b c rest ih =>
    simp only [encode, length_cons, ih]
    omega
  | case2 a b | case3 a | case4 => simp [encode]

end NeProto.Base64
