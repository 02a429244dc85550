/-
# The pages of a shared block

The driver takes the memory that it shares with the secure world in blocks of `2 ^ k` pages, as
`alloc_pages` has them.  `needed_log_pages` looks for the `k`: it counts the pages of the request and
goes through the powers of two until one is not smaller.  The powers come from `ipow`, which squares its
base once more than it uses it; from the exponent 16 on that last square overflows an `int`, and nothing
looks at it.

The pages are counted by a division that rounds down.

* `neededLogPages_eq`: the loop ends for every size, with `Nat.clog 2` of the whole pages;
* `logPagesRight_iff`: that is enough for the size unless a part of a page follows a number of whole
  pages that is a power of two.
-/
import Mathlib.Data.BitVec
import Mathlib.Data.Nat.Log
import Mathlib.Order.Bounds.Basic
import Mathlib.Tactic.Ring

namespace AndixOs.Driver

/-! ## 1. `utils.c` and `shared_mem.c` -/

/-- The loop of `ipow`.  An `int` wraps. -/
def ipowLoop (result base : BitVec 32) (exp : Nat) : BitVec 32 :=
  if exp = 0 then result
  else ipowLoop (if exp % 2 = 1 then result * base else result) (base * base) (exp / 2)
  termination_by exp

/-- `ipow`, for an exponent that is not negative. -/
def ipow (base : BitVec 32) (exp : Nat) : BitVec 32 := ipowLoop 1 base exp

/-- `PAGE_SIZE`. -/
def pageSize : Nat := 4096

/-- The loop of `needed_log_pages`, from `log_alloc` on.  `none` stands for a loop that has not ended. -/
def neededLoop (pgcount : BitVec 32) : Nat → Nat → Option Nat
  | 0, _ => none
  | fuel + 1, logAlloc =>
    if (ipow 2 logAlloc).slt pgcount then neededLoop pgcount fuel (logAlloc + 1) else some logAlloc

/-- `needed_log_pages`. -/
def neededLogPages (fuel : Nat) (memsize : UInt32) : Option Nat :=
  neededLoop (BitVec.ofNat 32 (memsize.toNat / pageSize)) fuel 0

/-- A block of `2 ^ order` pages. -/
structure PageBlock where
  page : Nat
  order : Nat

def PageBlock.bytes (b : PageBlock) : Nat := 2 ^ b.order * pageSize

/-- `allocate_mapable_memory`.  `allocPages` is the `alloc_pages` of Linux: the first page of a block of
an order, or `none` for `NULL`. -/
def allocateMapableMemory (allocPages : Nat → Option Nat) (fuel : Nat) (size : UInt32) :
    Option (Option PageBlock) :=
  (neededLogPages fuel size).map fun pages => (allocPages pages).map fun page => ⟨page, pages⟩

/-- `free_mapable_memory`: the page and the order that `__free_pages` is called with. -/
def freeMapableMemory (sharedPages : Option Nat) (fuel : Nat) (size : UInt32) :
    Option (Option (Nat × Nat)) :=
  (neededLogPages fuel size).map fun pages => sharedPages.map fun page => (page, pages)

/-! ## 2. What is asked of a size -/

/-- The loop ends with the least order that is enough, a block has room for the size, and it is freed as
it was allocated. -/
structure LogPagesRight (size : UInt32) : Prop where
  least : ∃ k fuel, neededLogPages fuel size = some k ∧ IsLeast {k | size.toNat ≤ 2 ^ k * pageSize} k
  room : ∀ allocPages fuel b, allocateMapableMemory allocPages fuel size = some (some b) →
    size.toNat ≤ b.bytes
  freed : ∀ allocPages fuel b, allocateMapableMemory allocPages fuel size = some (some b) →
    freeMapableMemory (some b.page) fuel size = some (some (b.page, b.order))

/-! ## 3. The powers -/

/-- Whatever overflows, it is a power. -/
theorem ipowLoop_eq (result base : BitVec 32) (exp : Nat) :
    ipowLoop result base exp = result * base ^ exp := by
  induction exp using Nat.strong_induction_on generalizing result base with
  | _ exp ih =>
    rw [ipowLoop]
    by_cases hzero : exp = 0
    · rw [if_pos hzero, hzero, pow_zero, mul_one]
    · rw [if_neg hzero, ih (exp / 2) (by omega)]
      have hsquare : (base * base) ^ (exp / 2) = base ^ (2 * (exp / 2)) := by
        rw [← pow_two, ← pow_mul]
      by_cases hodd : exp % 2 = 1
      · have hexp : exp = 2 * (exp / 2) + 1 := by omega
        rw [if_pos hodd, hsquare, mul_assoc, ← pow_succ', ← hexp]
      · have hexp : exp = 2 * (exp / 2) := by omega
        rw [if_neg hodd, hsquare, ← hexp]

theorem ipow_eq (base : BitVec 32) (exp : Nat) : ipow base exp = base ^ exp := by
  rw [ipow, ipowLoop_eq, one_mul]

/-- A power of two that an `int` holds. -/
theorem toInt_ipow {k : Nat} (hk : k < 31) : (ipow 2 k).toInt = 2 ^ k := by
  have hpow : ∀ n, ((2 : BitVec 32) ^ n).toNat = 2 ^ n % 2 ^ 32 := by
    intro n
    induction n with
    | zero => rfl
    | succ n ih =>
      rw [pow_succ, BitVec.toNat_mul, ih, pow_succ]
      exact (Nat.mod_mul_mod _ _ _)
  have hlt : 2 ^ k < 2 ^ 31 := Nat.pow_lt_pow_right (by decide) hk
  have hnat : (ipow 2 k).toNat = 2 ^ k := by
    rw [ipow_eq, hpow, Nat.mod_eq_of_lt (by omega)]
  rw [BitVec.toInt_eq_toNat_of_lt (by omega), hnat]
  norm_cast

/-- The comparison of the loop. -/
theorem slt_iff {n k : Nat} (hn : n < 2 ^ 31) (hk : k < 31) :
    (ipow 2 k).slt (BitVec.ofNat 32 n) = true ↔ 2 ^ k < n := by
  have hnat : (BitVec.ofNat 32 n).toNat = n := by
    rw [BitVec.toNat_ofNat, Nat.mod_eq_of_lt (by omega)]
  rw [BitVec.slt_iff_toInt_lt, toInt_ipow hk, BitVec.toInt_eq_toNat_of_lt (by omega), hnat]
  norm_cast

/-! ## 4. The loop -/

/-- From a power that is not behind the first one that is enough, the loop goes up to that. -/
theorem neededLoop_eq {n : Nat} (hn : n ≤ 2 ^ 30) {k fuel : Nat} (hk : k ≤ Nat.clog 2 n)
    (hfuel : Nat.clog 2 n < k + fuel) :
    neededLoop (BitVec.ofNat 32 n) fuel k = some (Nat.clog 2 n) := by
  have hclog : Nat.clog 2 n ≤ 30 := Nat.clog_le_of_le_pow hn
  induction fuel generalizing k with
  | zero => omega
  | succ fuel ih =>
    have hslt := slt_iff (n := n) (k := k) (by omega) (by omega)
    have hlt : 2 ^ k < n ↔ k < Nat.clog 2 n := (Nat.lt_clog_iff_pow_lt (by decide)).symm
    rw [neededLoop]
    by_cases hend : k = Nat.clog 2 n
    · rw [if_neg fun h => (hlt.mp (hslt.mp h)).ne hend, hend]
    · have hless : k < Nat.clog 2 n := Nat.lt_of_le_of_ne hk hend
      rw [if_pos (hslt.mpr (hlt.mpr hless))]
      exact ih hless (by omega)

theorem pages_lt (size : UInt32) : size.toNat / pageSize < 2 ^ 20 := by
  have hlt := size.toNat_lt
  rw [pageSize]
  omega

/-- **The loop ends for every size**, with the logarithm of the whole pages, rounded up. -/
theorem neededLogPages_eq (size : UInt32) (fuel : Nat) (hfuel : 20 < fuel) :
    neededLogPages fuel size = some (Nat.clog 2 (size.toNat / pageSize)) := by
  have hlt := pages_lt size
  have hclog : Nat.clog 2 (size.toNat / pageSize) ≤ 20 := Nat.clog_le_of_le_pow hlt.le
  exact neededLoop_eq (by omega) (Nat.zero_le _) (by omega)

/-- More steps of the loop do not change where it ended. -/
theorem neededLoop_mono {pgcount : BitVec 32} {fuel more k logAlloc : Nat}
    (h : neededLoop pgcount fuel logAlloc = some k) :
    neededLoop pgcount (fuel + more) logAlloc = some k := by
  induction fuel generalizing logAlloc with
  | zero => exact absurd h nofun
  | succ fuel ih =>
    rw [Nat.succ_add, neededLoop]
    rw [neededLoop] at h
    split at h
    · rw [if_pos ‹_›]
      exact ih h
    · rw [if_neg ‹_›]
      exact h

theorem neededLogPages_some {size : UInt32} {fuel k : Nat} (h : neededLogPages fuel size = some k) :
    k = Nat.clog 2 (size.toNat / pageSize) := by
  have hmore : neededLogPages (fuel + 21) size = some k := neededLoop_mono h
  have heq := neededLogPages_eq size (fuel + 21) (by omega)
  exact Option.some.inj (hmore.symm.trans heq)

/-! ## 5. Which sizes fit -/

/-- The orders that are enough are those from the logarithm of the pages on, the last one counted even
if it is not full. -/
theorem enough_iff (s k : Nat) : s ≤ 2 ^ k * pageSize ↔ Nat.clog 2 ((s + 4095) / 4096) ≤ k := by
  rw [Nat.clog_le_iff_le_pow (by decide), pageSize]
  omega

theorem isLeast_iff (s k : Nat) :
    IsLeast {k | s ≤ 2 ^ k * pageSize} k ↔ k = Nat.clog 2 ((s + 4095) / 4096) := by
  simp only [IsLeast, lowerBounds, Set.mem_ofPred_eq, enough_iff]
  constructor
  · rintro ⟨hk, hleast⟩
    exact Nat.le_antisymm (hleast (Nat.le_refl _)) hk
  · rintro rfl
    exact ⟨Nat.le_refl _, fun _ h => h⟩

/-- Rounding down makes a difference only behind a power of two. -/
theorem clog_pages_eq_iff (s : Nat) :
    Nat.clog 2 (s / pageSize) = Nat.clog 2 ((s + 4095) / 4096) ↔
      ¬(s % pageSize ≠ 0 ∧ ∃ k, s / pageSize = 2 ^ k) := by
  rw [pageSize]
  by_cases hwhole : s % 4096 = 0
  · have hsame : (s + 4095) / 4096 = s / 4096 := by omega
    simp [hsame, hwhole]
  · have hnext : (s + 4095) / 4096 = s / 4096 + 1 := by omega
    have hsucc := Nat.clog_eq_clog_succ_iff (b := 2) (n := s / 4096) (by decide)
    rw [hnext, hsucc, not_and, not_exists]
    constructor
    · intro hne _ k hk
      rw [hk, Nat.clog_pow 2 k (by decide)] at hne
      exact hne rfl
    · intro hnot heq
      exact hnot hwhole _ heq.symm

/-- **Which sizes get a block that is large enough**: all but those of a power of two of whole pages and
a part of one more. -/
theorem logPagesRight_iff (size : UInt32) :
    LogPagesRight size ↔
      ¬(size.toNat % pageSize ≠ 0 ∧ ∃ k, size.toNat / pageSize = 2 ^ k) := by
  have hends := neededLogPages_eq size 21 (by decide)
  rw [← clog_pages_eq_iff]
  constructor
  · rintro ⟨⟨k, fuel, hk, hleast⟩, -, -⟩
    rw [← neededLogPages_some hk]
    exact (isLeast_iff _ _).mp hleast
  · intro heq
    have hleast : IsLeast {k | size.toNat ≤ 2 ^ k * pageSize} (Nat.clog 2 (size.toNat / pageSize)) :=
      (isLeast_iff _ _).mpr heq
    refine ⟨⟨_, 21, hends, hleast⟩, fun allocPages fuel b hb => ?_, fun allocPages fuel b hb => ?_⟩
    · obtain ⟨pages, hpages, hsome⟩ := Option.map_eq_some_iff.mp hb
      obtain ⟨page, -, rfl⟩ := Option.map_eq_some_iff.mp hsome
      rw [PageBlock.bytes, neededLogPages_some hpages]
      exact hleast.1
    · obtain ⟨pages, hpages, hsome⟩ := Option.map_eq_some_iff.mp hb
      obtain ⟨page, -, rfl⟩ := Option.map_eq_some_iff.mp hsome
      rw [freeMapableMemory, hpages]
      rfl

/-- **A page and a byte** get one page. -/
theorem page_and_byte_do_not_fit :
    allocateMapableMemory (fun _ => some 0) 21 4097 = some (some ⟨0, 0⟩) ∧
      (⟨0, 0⟩ : PageBlock).bytes < 4097 ∧ ¬LogPagesRight 4097 := by
  have hzero : neededLogPages 21 4097 = some 0 := neededLogPages_eq 4097 21 (by decide)
  refine ⟨?_, by decide, ?_⟩
  · rw [allocateMapableMemory, hzero]
    rfl
  · rw [logPagesRight_iff, not_not]
    exact ⟨by decide, 0, by decide⟩

end AndixOs.Driver
