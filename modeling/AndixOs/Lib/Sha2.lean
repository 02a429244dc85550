/-
# SHA-2

The hash functions of SHA-2 on words of 32 bits.  A message is padded to whole blocks, and each block
goes through 64 rounds on eight words.  The constants of the rounds and the words to begin with are
parameters here; `IsRootFraction` says which numbers the standard takes for them.

Nothing here names the kernel.
-/
import AndixOs.Lib.Pbkdf2
import AndixOs.Lib.Stream
import Mathlib.Data.Nat.Prime.Defs

namespace AndixOs.Sha2

/-! ## 1. The functions on words -/

abbrev Word := BitVec 32

def ch (x y z : Word) : Word := (x &&& y) ^^^ (~~~x &&& z)
def maj (x y z : Word) : Word := (x &&& y) ^^^ (x &&& z) ^^^ (y &&& z)

def bigSigma0 (x : Word) : Word := x.rotateRight 2 ^^^ x.rotateRight 13 ^^^ x.rotateRight 22
def bigSigma1 (x : Word) : Word := x.rotateRight 6 ^^^ x.rotateRight 11 ^^^ x.rotateRight 25
def smallSigma0 (x : Word) : Word := x.rotateRight 7 ^^^ x.rotateRight 18 ^^^ x >>> 3
def smallSigma1 (x : Word) : Word := x.rotateRight 17 ^^^ x.rotateRight 19 ^^^ x >>> 10

/-! ## 2. One block -/

/-- The words `a` to `h`. -/
structure State where
  a : Word
  b : Word
  c : Word
  d : Word
  e : Word
  f : Word
  g : Word
  h : Word

/-- Word `t` of a block, with its highest byte first. -/
def wordAt (block : List UInt8) (t : Nat) : Word :=
  (block.getD (4 * t) 0).toBitVec ++ (block.getD (4 * t + 1) 0).toBitVec ++
    (block.getD (4 * t + 2) 0).toBitVec ++ (block.getD (4 * t + 3) 0).toBitVec

/-- The message schedule. -/
def schedule (m : Nat → Word) (t : Nat) : Word :=
  if t < 16 then m t
  else smallSigma1 (schedule m (t - 2)) + schedule m (t - 7) + smallSigma0 (schedule m (t - 15)) +
    schedule m (t - 16)
termination_by t

/-- A round, with its constant and its word of the schedule. -/
def State.round (k w : Word) (s : State) : State :=
  let t1 := s.h + bigSigma1 s.e + ch s.e s.f s.g + k + w
  let t2 := bigSigma0 s.a + maj s.a s.b s.c
  ⟨t1 + t2, s.a, s.b, s.c, s.d + t1, s.e, s.f, s.g⟩

def State.add (s s' : State) : State :=
  ⟨s.a + s'.a, s.b + s'.b, s.c + s'.c, s.d + s'.d, s.e + s'.e, s.f + s'.f, s.g + s'.g, s.h + s'.h⟩

/-- The rounds at these places of the schedule. -/
def rounds (k w : Nat → Word) (s : State) (ts : List Nat) : State :=
  ts.foldl (fun s t => s.round (k t) (w t)) s

/-- The compression function. -/
def compress (k : Nat → Word) (s : State) (block : List UInt8) : State :=
  s.add (rounds k (schedule (wordAt block)) s (List.range 64))

/-! ## 3. Messages -/

/-- A bit that is set, zeros up to the last eight bytes of a block, and the number of bits. -/
def padding (len : Nat) : List UInt8 :=
  0x80 :: List.replicate ((119 - len % 64) % 64) 0 ++ bytesBe 8 (8 * len)

/-- The words after the whole message. -/
def hash (k : Nat → Word) (init : State) (message : List UInt8) : State :=
  let data := message ++ padding message.length
  foldBlocks (compress k) 64 (data.length / 64) data init

def State.words (s : State) : List Word := [s.a, s.b, s.c, s.d, s.e, s.f, s.g, s.h]

/-- The first `len` bytes of the words. -/
def digest (len : Nat) (k : Nat → Word) (init : State) (message : List UInt8) : List UInt8 :=
  ((hash k init message).words.flatMap fun w => bytesBe 4 w.toNat).take len

/-! ## 4. The constants -/

/-- `k` is the last word of the `n`-th root of `p`, cut off so many bits behind the point. -/
def IsRootFraction (n bits p : Nat) (k : Word) : Prop :=
  ∃ r, r ^ n ≤ p * 2 ^ (bits * n) ∧ p * 2 ^ (bits * n) < (r + 1) ^ n ∧ k = BitVec.ofNat 32 r

/-- The primes below 312, the lowest first; there are 64. -/
def primes : List Nat := (List.range 312).filter fun p => p.Prime

/-- The numbers that the standard takes: of the cube roots of all primes for the rounds, and of the
square roots of eight of them to begin with.  SHA-256 has the first eight and the first word behind
the point, SHA-224 the next eight and the second word. -/
structure Standard (is224 : Bool) (k : Nat → Word) (init : State) : Prop where
  round : ∀ t < 64, IsRootFraction 3 32 (primes.getD t 0) (k t)
  init : ∀ i < 8, IsRootFraction 2 (if is224 then 64 else 32)
    (primes.getD (if is224 then i + 8 else i) 0) (init.words.getD i 0)

/-- A word with what stands before it in the root. -/
theorem IsRootFraction.of_word {n bits p : Nat} {k : Word} (whole : Nat)
    (hle : (whole * 2 ^ 32 + k.toNat) ^ n ≤ p * 2 ^ (bits * n))
    (hlt : p * 2 ^ (bits * n) < (whole * 2 ^ 32 + k.toNat + 1) ^ n) : IsRootFraction n bits p k := by
  refine ⟨_, hle, hlt, BitVec.eq_of_toNat_eq ?_⟩
  rw [BitVec.toNat_ofNat, Nat.mul_add_mod_of_lt k.isLt]

/-- Up to 323, the divisors below 18 tell. -/
theorem prime_iff {p : Nat} (h : p < 324) :
    p.Prime ↔ 2 ≤ p ∧ ∀ m < 18, m < 2 ∨ p ≤ m ∨ p % m ≠ 0 := by
  constructor
  · intro hp
    obtain ⟨htwo, hdvd⟩ := Nat.prime_def_lt'.mp hp
    refine ⟨htwo, fun m _ => ?_⟩
    rcases Nat.lt_or_ge m 2 with hm | hm
    · exact Or.inl hm
    rcases Nat.lt_or_ge m p with hlt | hge
    · exact Or.inr (Or.inr fun hmod => hdvd m hm hlt (Nat.dvd_of_mod_eq_zero hmod))
    · exact Or.inr (Or.inl hge)
  · rintro ⟨htwo, hall⟩
    refine Nat.prime_def_le_sqrt.mpr ⟨htwo, fun m hm hle hdvd => ?_⟩
    have hsq : m * m ≤ p := Nat.le_sqrt.mp hle
    have hm18 : m < 18 := Nat.mul_self_lt_mul_self_iff.mp (Nat.lt_of_le_of_lt hsq h)
    have hmp : 2 * m ≤ p := Nat.le_trans (Nat.mul_le_mul_right m hm) hsq
    rcases hall m hm18 with hlt | hge | hmod
    · omega
    · omega
    · exact hmod (Nat.mod_eq_zero_of_dvd hdvd)

theorem primes_eq : primes =
    [2, 3, 5, 7, 11, 13, 17, 19, 23, 29, 31, 37, 41, 43, 47, 53, 59, 61, 67, 71, 73, 79, 83, 89, 97,
      101, 103, 107, 109, 113, 127, 131, 137, 139, 149, 151, 157, 163, 167, 173, 179, 181, 191, 193,
      197, 199, 211, 223, 227, 229, 233, 239, 241, 251, 257, 263, 269, 271, 277, 281, 283, 293, 307,
      311] := by
  -- `Nat.Prime` itself is decided by all smaller numbers
  have htest : primes =
      (List.range 312).filter fun p => 2 ≤ p ∧ ∀ m < 18, m < 2 ∨ p ≤ m ∨ p % m ≠ 0 := by
    refine List.filter_congr fun p hp => ?_
    exact decide_eq_decide.mpr (prime_iff (Nat.lt_trans (List.mem_range.mp hp) (by decide)))
  rw [htest]
  decide +kernel

/-! ## 5. The schedule, sixteen words at a time -/

variable {m w : Nat → Word} {t : Nat}

theorem schedule_of_lt (h : t < 16) : schedule m t = m t := by
  rw [schedule, if_pos h]

/-- The word behind sixteen others. -/
theorem schedule_next (m : Nat → Word) (t : Nat) : schedule m (t + 16) =
    smallSigma1 (schedule m (t + 14)) + schedule m (t + 9) + smallSigma0 (schedule m (t + 1)) +
      schedule m t := by
  rw [schedule, if_neg (by omega)]
  rfl

end AndixOs.Sha2
