/-
# Keys from passwords

PBKDF2 (RFC 2898) makes a key of any length from a password: block `i` of it is the xor of a chain
that begins with a pseudo-random function of the salt and `i`.  The function is a parameter; with a
hash function, HMAC (RFC 2104) is one, and so is the hash of the password and the message one behind the
other.  The last two are not the same function of any password (`prfBlock_hmac`, `prfBlock_prefixed`).

Nothing here names the kernel.
-/
import AndixOs.Lib.Bytes
import Mathlib.Tactic.Ring

namespace AndixOs

/-! ## 1. The functions -/

variable {n : Nat}

/-- The last `k` bytes of a number, highest first. -/
def bytesBe : Nat → Nat → List UInt8
  | 0, _ => []
  | k + 1, i => bytesBe k (i / 256) ++ [UInt8.ofNat i]

section Prf

variable (prf : List UInt8 → List UInt8 → Bytes n)

/-- The chain that begins with `u`: `U_1`, `U_2` and so on. -/
def prfChain (password : List UInt8) (u : Bytes n) : Nat → Bytes n
  | 0 => u
  | j + 1 => prf password (prfChain password u j).toList

/-- The xor of `U_1` and `j` more. -/
def prfXor (password : List UInt8) (u : Bytes n) : Nat → Bytes n
  | 0 => u
  | j + 1 => xorBytes (prfXor password u j) (prfChain prf password u (j + 1))

/-- `F`: block `i` of the key. -/
def prfBlock (password salt : List UInt8) (count i : Nat) : Bytes n :=
  prfXor prf password (prf password (salt ++ bytesBe 4 i)) (count - 1)

/-- Blocks `i` to `i + l - 1`. -/
def prfBlocks (password salt : List UInt8) (count i l : Nat) : List UInt8 :=
  (List.range' i l).flatMap fun j => (prfBlock prf password salt count j).toList

/-- PBKDF2: as many blocks as are needed, and of the last one what is needed. -/
def pbkdf2 (password salt : List UInt8) (count dkLen : Nat) : List UInt8 :=
  (prfBlocks prf password salt count 1 ((dkLen + n - 1) / n)).take dkLen

end Prf

/-- The key of HMAC as a block: one that is too long is hashed. -/
def hmacKey (hash : List UInt8 → Bytes n) (block : Nat) (key : List UInt8) : List UInt8 :=
  let short := if block < key.length then (hash key).toList else key
  short ++ List.replicate (block - short.length) 0

/-- HMAC, with a hash function on blocks of so many bytes. -/
def hmac (hash : List UInt8 → Bytes n) (block : Nat) (key message : List UInt8) : Bytes n :=
  let k := hmacKey hash block key
  hash (k.map (· ^^^ 0x5C) ++ (hash (k.map (· ^^^ 0x36) ++ message)).toList)

/-- The hash of the password and the message. -/
def prefixed (hash : List UInt8 → Bytes n) (key message : List UInt8) : Bytes n := hash (key ++ message)

/-! ## 2. Lengths -/

variable {prf : List UInt8 → List UInt8 → Bytes n} {password salt message : List UInt8}
  {count i l dkLen : Nat}

theorem length_bytesBe : ∀ (k i : Nat), (bytesBe k i).length = k
  | 0, _ => rfl
  | k + 1, i => by simp [bytesBe, length_bytesBe]

theorem prfBlocks_succ (prf : List UInt8 → List UInt8 → Bytes n) (password salt : List UInt8)
    (count i l : Nat) : prfBlocks prf password salt count i (l + 1) =
      (prfBlock prf password salt count i).toList ++ prfBlocks prf password salt count (i + 1) l := by
  simp [prfBlocks, List.range'_succ]

theorem length_prfBlocks (prf : List UInt8 → List UInt8 → Bytes n) (password salt : List UInt8)
    (count : Nat) : ∀ l i, (prfBlocks prf password salt count i l).length = l * n
  | 0, _ => by simp [prfBlocks]
  | l + 1, i => by
    rw [prfBlocks_succ, List.length_append, length_prfBlocks prf password salt count l,
      List.Vector.toList_length]
    ring

/-- The blocks are enough. -/
theorem le_blocks (hn : 0 < n) (dkLen : Nat) : dkLen ≤ (dkLen + n - 1) / n * n := by
  have hmod := Nat.div_add_mod (dkLen + n - 1) n
  have hlt := Nat.mod_lt (dkLen + n - 1) hn
  rw [Nat.mul_comm] at hmod
  omega

/-- **The key is as long as was asked for.** -/
theorem length_pbkdf2 (hn : 0 < n) : (pbkdf2 prf password salt count dkLen).length = dkLen := by
  rw [pbkdf2, List.length_take, length_prfBlocks]
  exact Nat.min_eq_left (le_blocks hn dkLen)

/-- The key begins with the first byte of the first block. -/
theorem pbkdf2_head (hn : 0 < n) (hlen : 0 < dkLen) :
    (pbkdf2 prf password salt count dkLen).head? = (prfBlock prf password salt count 1).toList.head? := by
  have hblocks : (dkLen + n - 1) / n ≠ 0 := by
    rw [Nat.div_ne_zero_iff]
    omega
  obtain ⟨l, hl⟩ := Nat.exists_eq_succ_of_ne_zero hblocks
  have hne : (prfBlock prf password salt count 1).toList ≠ [] := by
    rw [← List.length_pos_iff, List.Vector.toList_length]
    exact hn
  rw [pbkdf2, hl, prfBlocks_succ, List.head?_take, if_neg (Nat.pos_iff_ne_zero.mp hlen),
    List.head?_append_of_ne_nil _ hne]

/-! ## 3. Two functions that differ -/

/-- A byte string of zeros but for the first byte. -/
def oneBytes (n : Nat) : Bytes (n + 2) := 1 ::ᵥ List.Vector.replicate (n + 1) 0

/-- A hash that sees the last byte only. -/
def tailHash (n : Nat) (message : List UInt8) : Bytes (n + 2) :=
  if message.getLast? = some 1 then oneBytes n else Bytes.zero (n + 2)

/-- A chain of zeros behind its first element. -/
theorem prfXor_of_zero {u : Bytes n} (h : ∀ j, prfChain prf password u (j + 1) = Bytes.zero n) :
    ∀ j, prfXor prf password u j = u
  | 0 => rfl
  | j + 1 => by rw [prfXor, h, xorBytes_zero, prfXor_of_zero h j]

/-- What it gives ends in a zero, so nothing behind which that stands has another hash. -/
theorem tailHash_append (n : Nat) (front message : List UInt8) :
    tailHash n (front ++ (tailHash n message).toList) = Bytes.zero (n + 2) := by
  have hlast : (tailHash n message).toList.getLast? = some 0 := by
    have hone : (oneBytes n).toList = 1 :: List.replicate (n + 1) 0 := rfl
    have hzero : (Bytes.zero (n + 2)).toList = List.replicate (n + 2) 0 := rfl
    rw [tailHash]
    split
    · simp [hone, List.getLast?_cons, List.getLast?_replicate]
    · simp [hzero, List.getLast?_replicate]
  rw [tailHash, List.getLast?_append, hlast, Option.some_or]
  exact if_neg (by decide)

/-- With it, HMAC gives zeros. -/
theorem prfBlock_hmac (n block : Nat) (password salt : List UInt8) (count i : Nat) :
    prfBlock (hmac (tailHash n) block) password salt count i = Bytes.zero (n + 2) := by
  have hzero : ∀ key message, hmac (tailHash n) block key message = Bytes.zero (n + 2) :=
    fun key message => tailHash_append n _ _
  rw [prfBlock, hzero]
  refine prfXor_of_zero ?_ _
  intro j
  rw [prfChain, hzero]

/-- **With it, the hash of the password and the message does not**: the first block of a key is made from a
message that ends in 1. -/
theorem prfBlock_prefixed (n : Nat) (password salt : List UInt8) (count : Nat) :
    prfBlock (prefixed (tailHash n)) password salt count 1 = oneBytes n := by
  have hfirst : prefixed (tailHash n) password (salt ++ bytesBe 4 1) = oneBytes n := by
    rw [prefixed, tailHash, bytesBe, ← List.append_assoc, ← List.append_assoc, List.getLast?_concat]
    exact if_pos rfl
  have hchain : ∀ j, ∃ message, prfChain (prefixed (tailHash n)) password (oneBytes n) j =
      tailHash n message := by
    intro j
    cases j with
    | zero => exact ⟨[1], rfl⟩
    | succ j => exact ⟨_, rfl⟩
  rw [prfBlock, hfirst]
  refine prfXor_of_zero ?_ _
  intro j
  obtain ⟨message, hmessage⟩ := hchain j
  rw [prfChain, hmessage]
  exact tailHash_append n password message

end AndixOs
