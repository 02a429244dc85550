/-
# `pbkdf2_sha256_hmac`

The trustlets make keys from PINs with this function.  In spite of its name no HMAC is in it: the
pseudo-random function of the chain is the hash of the password and the message one behind the other.
What is around it, the block counter, the xor and the last partial block, is as in RFC 2898
(`pbkdf2_eq_prefixed`).  So the key is that of PBKDF2, with another pseudo-random function; with whatever
hash function, it is that of HMAC only where no byte is asked for (`pbkdf2_hmac_iff`).
-/
import AndixOs.Trustlet.Sha2

namespace AndixOs.Trustlet

/-! ## 1. The function -/

section Code

variable (hash : List UInt8 → Bytes 32) (password salt : List UInt8)

/-- The inner loop, with so many rounds to go: `u_c_1` and `u_c`. -/
def chainLoop : Nat → Bytes 32 → Bytes 32 → Bytes 32
  | 0, _, uC => uC
  | rounds + 1, uC1, uC =>
    let uC1 := hash (sha2Update (sha2Update sha2Starts password) uC1.toList)
    chainLoop rounds uC1 (xorBytes uC uC1)

/-- The loop that counts, from `i` down. -/
def bumpCounter : Nat → List UInt8 → List UInt8
  | 0, counter => counter
  | i + 1, counter =>
    let counter := counter.set i (counter.getD i 0 + 1)
    if counter.getD i 0 ≠ 0 then counter else bumpCounter i counter

/-- What a round of the outer loop leaves in `u_c`. -/
def keyBlock (iterationCount : Nat) (counter : List UInt8) : Bytes 32 :=
  let u := hash (sha2Update (sha2Update (sha2Update sha2Starts password) salt) counter)
  chainLoop hash password (iterationCount - 1) u u

/-- The outer loop: what is written to `output`. -/
def keyLoop (iterationCount keyLength : Nat) (counter : List UInt8) : List UInt8 :=
  if keyLength = 0 then []
  else
    let useLen := if keyLength < 32 then keyLength else 32
    (keyBlock hash password salt iterationCount counter).toList.take useLen ++
      keyLoop iterationCount (keyLength - useLen) (bumpCounter 4 counter)
termination_by keyLength
decreasing_by
  split <;> omega

/-- `pbkdf2_sha256_hmac`. -/
def pbkdf2Sha256Hmac (iterationCount keyLength : Nat) : List UInt8 :=
  keyLoop hash password salt iterationCount keyLength [0, 0, 0, 1]

end Code

/-! ## 2. What it computes -/

variable {hash : List UInt8 → Bytes 32} {password salt counter : List UInt8} {count keyLength i l : Nat}

/-- What `sha2_update` takes of its input. -/
def taken (input : List UInt8) : List UInt8 := if intLength input ≤ 0 then [] else input

theorem sha2Update_eq (ctx input : List UInt8) : sha2Update ctx input = ctx ++ taken input := by
  rw [sha2Update, taken]
  split <;> simp

/-- An input that fits an `int` is taken as it is. -/
theorem taken_of_lt {input : List UInt8} (h : input.length < 2147483648) : taken input = input := by
  rw [taken]
  split
  · have hlen : intLength input = input.length := Int.bmod_eq_of_le (by omega) (by omega)
    exact (List.length_eq_zero_iff.mp (by omega)).symm
  · rfl

/-- **The inner loop** makes the xor of the chain. -/
theorem chainLoop_eq (hash : List UInt8 → Bytes 32) (password : List UInt8) (u : Bytes 32) : ∀ rounds j,
    chainLoop hash password rounds (prfChain (prefixed hash) (taken password) u j)
      (prfXor (prefixed hash) (taken password) u j) = prfXor (prefixed hash) (taken password) u (j + rounds)
  | 0, _ => rfl
  | rounds + 1, j => by
    have hnext : hash (sha2Update (sha2Update sha2Starts password)
        (prfChain (prefixed hash) (taken password) u j).toList) = prfChain (prefixed hash) (taken password) u (j + 1) := by
      have hshort : (prfChain (prefixed hash) (taken password) u j).toList.length < 2147483648 := by
        rw [List.Vector.toList_length]
        decide
      rw [sha2Update_eq, sha2Update_eq, taken_of_lt hshort, sha2Starts, List.nil_append, prfChain,
        prefixed]
    have hxor : xorBytes (prfXor (prefixed hash) (taken password) u j) (prfChain (prefixed hash) (taken password) u (j + 1)) =
        prfXor (prefixed hash) (taken password) u (j + 1) := rfl
    rw [chainLoop, hnext, hxor, chainLoop_eq hash password u rounds (j + 1), Nat.add_right_comm]
    rfl

section Counter

variable {front rest : List UInt8} {k : Nat}

theorem getD_behind (h : front.length = k) (b : UInt8) : (front ++ b :: rest).getD k 0 = b := by
  simp [h]

theorem set_behind (h : front.length = k) (b b' : UInt8) :
    (front ++ b :: rest).set k b' = front ++ b' :: rest := by
  simp [List.set_append_right, h]

/-- **The counter** goes on by one, also where more than one byte of it changes. -/
theorem bumpCounter_eq : ∀ (k i : Nat) (rest : List UInt8),
    bumpCounter k (bytesBe k i ++ rest) = bytesBe k (i + 1) ++ rest
  | 0, _, _ => rfl
  | k + 1, i, rest => by
    have hlen := length_bytesBe k (i / 256)
    have hsplit : ∀ j, bytesBe (k + 1) j ++ rest = bytesBe k (j / 256) ++ UInt8.ofNat j :: rest := by
      intro j
      rw [bytesBe, List.append_assoc, List.singleton_append]
    have hsucc : UInt8.ofNat i + 1 = UInt8.ofNat (i + 1) := (UInt8.ofNat_add i 1).symm
    have hzero : UInt8.ofNat (i + 1) = 0 ↔ (i + 1) % 256 = 0 := by
      rw [← UInt8.toNat_inj, UInt8.toNat_ofNat']
      rfl
    rw [hsplit, hsplit, bumpCounter, getD_behind hlen, set_behind hlen, getD_behind hlen, hsucc]
    by_cases hcarry : (i + 1) % 256 = 0
    · have hnext : (i + 1) / 256 = i / 256 + 1 := by omega
      rw [if_neg (not_not.mpr (hzero.mpr hcarry)), hnext]
      exact bumpCounter_eq k (i / 256) _
    · have hnext : (i + 1) / 256 = i / 256 := by omega
      rw [if_pos (hzero.not.mpr hcarry), hnext]

end Counter

/-- **A round of the outer loop** makes a block of the key. -/
theorem keyBlock_eq (count i : Nat) : keyBlock hash password salt count (bytesBe 4 i) =
    prfBlock (prefixed hash) (taken password) (taken salt) count i := by
  have hfirst : hash (sha2Update (sha2Update (sha2Update sha2Starts password) salt) (bytesBe 4 i)) =
      prefixed hash (taken password) (taken salt ++ bytesBe 4 i) := by
    have hshort : (bytesBe 4 i).length < 2147483648 := by
      rw [length_bytesBe]
      decide
    rw [sha2Update_eq, sha2Update_eq, sha2Update_eq, taken_of_lt hshort, sha2Starts, List.nil_append,
      prefixed, List.append_assoc]
  have hloop := chainLoop_eq hash password
    (prefixed hash (taken password) (taken salt ++ bytesBe 4 i)) (count - 1) 0
  rw [Nat.zero_add] at hloop
  rw [keyBlock, hfirst, prfBlock, ← hloop]
  rfl

/-- **The outer loop** from block `i` on, where `l` blocks are enough. -/
theorem keyLoop_eq : ∀ {l i keyLength : Nat}, keyLength ≤ l * 32 →
    keyLoop hash password salt count keyLength (bytesBe 4 i) =
      (prfBlocks (prefixed hash) (taken password) (taken salt) count i l).take keyLength
  | 0, i, keyLength, h => by
    have hzero : keyLength = 0 := by omega
    rw [keyLoop, if_pos hzero, hzero, List.take_zero]
  | l + 1, i, keyLength, h => by
    have hbump : bumpCounter 4 (bytesBe 4 i) = bytesBe 4 (i + 1) := by
      have hnil := bumpCounter_eq 4 i []
      rwa [List.append_nil, List.append_nil] at hnil
    have hlen : (prfBlock (prefixed hash) (taken password) (taken salt) count i).toList.length = 32 :=
      List.Vector.toList_length _
    rw [keyLoop]
    by_cases hzero : keyLength = 0
    · rw [if_pos hzero, hzero, List.take_zero]
    rw [if_neg hzero, prfBlocks_succ, List.take_append, hlen]
    dsimp only
    rw [keyBlock_eq, hbump]
    by_cases hlast : keyLength < 32
    · have hnone : keyLength - 32 = 0 := by omega
      rw [if_pos hlast, Nat.sub_self, keyLoop, if_pos rfl, hnone, List.take_zero]
    · have hfewer : keyLength - 32 ≤ l * 32 := by omega
      have hrest := keyLoop_eq (i := i + 1) hfewer
      have hall : 32 ≤ keyLength := Nat.not_lt.mp hlast
      rw [if_neg hlast, hrest, List.take_of_length_le hlen.le,
        List.take_of_length_le (hlen.le.trans hall)]

/-- **`pbkdf2_sha256_hmac`** is PBKDF2 with the hash of the password and the message. -/
theorem pbkdf2_eq_prefixed (hash : List UInt8 → Bytes 32) (password salt : List UInt8)
    (count keyLength : Nat) : pbkdf2Sha256Hmac hash password salt count keyLength =
      pbkdf2 (prefixed hash) (taken password) (taken salt) count keyLength :=
  keyLoop_eq (i := 1) (le_blocks (by decide) keyLength)

/-- **The key**: it has as many bytes as were asked for, made block by block as PBKDF2 makes them; and
they are those that HMAC gives, whatever the hash function, exactly if none were asked for. -/
theorem pbkdf2_hmac_iff (password salt : List UInt8) (count keyLength : Nat) :
    (∀ hash, (pbkdf2Sha256Hmac hash password salt count keyLength).length = keyLength ∧
      pbkdf2Sha256Hmac hash password salt count keyLength =
        pbkdf2 (prefixed hash) (taken password) (taken salt) count keyLength) ∧
    ((∀ hash, pbkdf2Sha256Hmac hash password salt count keyLength =
        pbkdf2 (hmac hash 64) password salt count keyLength) ↔ keyLength = 0) := by
  refine ⟨fun hash => ⟨?_, pbkdf2_eq_prefixed hash password salt count keyLength⟩, fun h => ?_, ?_⟩
  · rw [pbkdf2_eq_prefixed]
    exact length_pbkdf2 (by decide)
  · by_contra hpos
    have hhead := congrArg List.head? (h (tailHash 30))
    rw [pbkdf2_eq_prefixed, pbkdf2_head (by decide) (Nat.pos_of_ne_zero hpos),
      pbkdf2_head (by decide) (Nat.pos_of_ne_zero hpos), prfBlock_prefixed, prfBlock_hmac] at hhead
    exact absurd hhead (by decide)
  · rintro rfl hash
    rw [pbkdf2_eq_prefixed, pbkdf2, pbkdf2, List.take_zero, List.take_zero]

/-- **One byte of a key** from the PIN `1`, without a salt, after one round: with SHA-256 it is 0x47, and
HMAC-SHA-256 makes 0xBD of it. -/
theorem pbkdf2_one_byte : (pbkdf2Sha256Hmac sha2Finish [0x31] [] 1 1).length = 1 ∧
    pbkdf2Sha256Hmac sha2Finish [0x31] [] 1 1 ≠ pbkdf2 (hmac sha2Finish 64) [0x31] [] 1 1 := by
  have hcode : pbkdf2Sha256Hmac sha2Finish [0x31] [] 1 1 = [0x47] := by
    rw [pbkdf2_eq_prefixed]
    decide +kernel
  have hspec : pbkdf2 (hmac sha2Finish 64) [0x31] [] 1 1 = [0xBD] := by decide +kernel
  rw [hcode, hspec]
  decide

end AndixOs.Trustlet
