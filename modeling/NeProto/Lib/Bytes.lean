/-
Big-endian integers of a fixed width, as `binary.BigEndian.PutUint64` and its like write and read them, and the largest `uint64`.

- `putUint`: the `width` low bytes of a number, most significant first.
- `uint`: the number a byte string stands for.
- `uint_putUint`: reading gives back what was written.
- `putUint_inj`: a number that fits is determined by its bytes.
-/
import Mathlib.Tactic

namespace NeProto

/-- `math.MaxUint64` -/
def maxUint64 : ℕ := 2 ^ 64 - 1

namespace Bytes

def putUint : ℕ → ℕ → List UInt8
  | 0, _ => []
  | width + 1, v => UInt8.ofNat (v / 256 ^ width) :: putUint width v

def uint (bytes : List UInt8) : ℕ := bytes.foldl (fun v b => v * 256 + b.toNat) 0

@[simp] theorem length_putUint (width v : ℕ) : (putUint width v).length = width := by
  induction width with
  | zero => rfl
  | succ width ih => rw [putUint, List.length_cons, ih]

theorem foldl_uint (bytes : List UInt8) (v : ℕ) :
    bytes.foldl (fun v b => v * 256 + b.toNat) v = v * 256 ^ bytes.length + uint bytes := by
  induction bytes generalizing v with
  | nil => simp [uint]
  | cons b bytes ih =>
    rw [uint, List.foldl_cons, List.foldl_cons, ih (v * 256 + b.toNat), ih (0 * 256 + b.toNat), List.length_cons]
    ring

theorem uint_cons (b : UInt8) (bytes : List UInt8) : uint (b :: bytes) = b.toNat * 256 ^ bytes.length + uint bytes := by
  rw [uint, List.foldl_cons, foldl_uint]
  simp

/-- **Reading gives back what was written.** -/
theorem uint_putUint (width v : ℕ) : uint (putUint width v) = v % 256 ^ width := by
  induction width with
  | zero => simp [putUint, uint, Nat.mod_one]
  | succ width ih =>
    have hbyte : (UInt8.ofNat (v / 256 ^ width)).toNat = v / 256 ^ width % 256 := by simp
    rw [putUint, uint_cons, ih, length_putUint, hbyte, pow_succ, Nat.mod_mul, add_comm, mul_comm]

theorem putUint_inj {width v v' : ℕ} (hv : v < 256 ^ width) (hv' : v' < 256 ^ width)
    (h : putUint width v = putUint width v') : v = v' := by
  have hread := congrArg uint h
  rwa [uint_putUint, uint_putUint, Nat.mod_eq_of_lt hv, Nat.mod_eq_of_lt hv'] at hread

end Bytes

end NeProto
