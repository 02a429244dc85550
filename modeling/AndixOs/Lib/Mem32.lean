/-
# Byte memory with 32-bit words

A memory is a function from addresses to bytes.  A word is four bytes, low byte first, as on the
ARM cores the kernel runs on; addresses and words are natural numbers, and a computation that can
wrap says so with `w32` and `sub32`.

Nothing here names the kernel.
-/
import Mathlib.Tactic.Ring
import Mathlib.Data.List.Basic

namespace AndixOs

/-! ## 1. 32-bit arithmetic -/

/-- A number as a `uint32_t` keeps it. -/
def w32 (n : Nat) : Nat := n % 4294967296

/-- Subtraction of `uint32_t`. -/
def sub32 (a b : Nat) : Nat := (a + 4294967296 - b % 4294967296) % 4294967296

theorem w32_of_lt {n : Nat} (h : n < 4294967296) : w32 n = n := Nat.mod_eq_of_lt h

theorem w32_lt (n : Nat) : w32 n < 4294967296 := Nat.mod_lt _ (by norm_num)

theorem w32_w32_add (a j : Nat) : w32 (w32 a + j) = w32 (a + j) := by
  unfold w32
  omega

theorem sub32_of_le {a b : Nat} (h : b ≤ a) (ha : a < 4294967296) : sub32 a b = a - b := by
  unfold sub32
  omega

theorem sub32_lt (a b : Nat) : sub32 a b < 4294967296 := Nat.mod_lt _ (by norm_num)

/-! ## 2. Loads and stores -/

/-- The contents of a memory. -/
abbrev Mem := Nat → UInt8

/-- The word at an address. -/
def load32 (m : Mem) (a : Nat) : Nat :=
  (m a).toNat + 256 * (m (a + 1)).toNat + 65536 * (m (a + 2)).toNat +
    16777216 * (m (a + 3)).toNat

/-- A word stored at an address. -/
def store32 (m : Mem) (a v : Nat) : Mem := fun x =>
  if x = a then UInt8.ofNat v
  else if x = a + 1 then UInt8.ofNat (v / 256)
  else if x = a + 2 then UInt8.ofNat (v / 65536)
  else if x = a + 3 then UInt8.ofNat (v / 16777216)
  else m x

/-- A byte stored at an address. -/
def store8 (m : Mem) (a : Nat) (v : UInt8) : Mem := fun x => if x = a then v else m x

theorem load32_lt (m : Mem) (a : Nat) : load32 m a < 4294967296 := by
  have h0 := (m a).toNat_lt
  have h1 := (m (a + 1)).toNat_lt
  have h2 := (m (a + 2)).toNat_lt
  have h3 := (m (a + 3)).toNat_lt
  unfold load32
  omega

/-- A load sees only its four bytes. -/
theorem load32_congr {m m' : Mem} {a : Nat} (h : ∀ x, a ≤ x → x < a + 4 → m' x = m x) :
    load32 m' a = load32 m a := by
  unfold load32
  rw [h a (by omega) (by omega), h (a + 1) (by omega) (by omega),
    h (a + 2) (by omega) (by omega), h (a + 3) (by omega) (by omega)]

/-- A store leaves every other byte. -/
theorem store32_of_ne {m : Mem} {a v x : Nat} (h : x < a ∨ a + 4 ≤ x) :
    store32 m a v x = m x := by
  unfold store32
  rw [if_neg (by omega), if_neg (by omega), if_neg (by omega), if_neg (by omega)]

/-- What a word of one byte stores. -/
theorem store32_byte {m : Mem} {a v : Nat} (hv : v < 256) (x : Nat) : store32 m a v x =
    if x = a then UInt8.ofNat v else if a < x ∧ x < a + 4 then 0 else m x := by
  unfold store32
  have h1 : v / 256 = 0 := by omega
  have h2 : v / 65536 = 0 := by omega
  have h3 : v / 16777216 = 0 := by omega
  rw [h1, h2, h3]
  split_ifs <;> first | rfl | omega

theorem store8_of_ne {m : Mem} {a x : Nat} {v : UInt8} (h : x ≠ a) : store8 m a v x = m x :=
  if_neg h

/-- What is stored is loaded. -/
theorem load32_store32 (m : Mem) (a v : Nat) : load32 (store32 m a v) a = w32 v := by
  simp only [load32, store32, if_true, Nat.add_eq_left, Nat.add_left_cancel_iff,
    UInt8.toNat_ofNat', w32]
  norm_num
  omega

/-- A load elsewhere sees the old word. -/
theorem load32_store32_of_ne {m : Mem} {a b v : Nat} (h : b + 4 ≤ a ∨ a + 4 ≤ b) :
    load32 (store32 m a v) b = load32 m b :=
  load32_congr fun x _ _ => store32_of_ne (by omega)

end AndixOs
