/-
# Cipher block chaining

A block cipher on whole blocks of a row of bytes: what is encrypted is the xor of the block and the one
before it, that has come out already; the first is xored with the initialisation vector.  Both directions leave
behind the last encrypted block as the vector for a row that goes on, so a vector that is used again is
not the one that was used before.

* `cbc_inverse`: decrypting gives back what was encrypted, with the same vector;
* `cbcDecrypt_vector`: the vector after decrypting does not depend on the one before;
* `cbcDecrypt_inj`: with another vector something else comes out;
* `cbcEncrypt_add`, `cbcDecrypt_add`: a row can be done in two parts, if the vector is kept.

Nothing here names the kernel.
-/
import AndixOs.Lib.Bytes
import Mathlib.Tactic.Ring

namespace AndixOs

variable {b n : Nat} {l : List UInt8} {iv iv' : Bytes b} {encrypt decrypt : Bytes b → Bytes b}

/-- The first block of a row. -/
def firstBlock (b : Nat) (l : List UInt8) : Bytes b := List.Vector.ofFn fun i => l.getD i 0

/-- So many blocks encrypted, and the vector after that. -/
def cbcEncrypt (encrypt : Bytes b → Bytes b) : Nat → Bytes b → List UInt8 → List UInt8 × Bytes b
  | 0, iv, _ => ([], iv)
  | n + 1, iv, input =>
    let output := encrypt (xorBytes (firstBlock b input) iv)
    let rest := cbcEncrypt encrypt n output (input.drop b)
    (output.toList ++ rest.1, rest.2)

/-- So many blocks decrypted, and the vector after that. -/
def cbcDecrypt (decrypt : Bytes b → Bytes b) : Nat → Bytes b → List UInt8 → List UInt8 × Bytes b
  | 0, iv, _ => ([], iv)
  | n + 1, iv, input =>
    let temp := firstBlock b input
    let rest := cbcDecrypt decrypt n temp (input.drop b)
    ((xorBytes (decrypt temp) iv).toList ++ rest.1, rest.2)

/-- The first block is the beginning of the row. -/
theorem firstBlock_toList (h : b ≤ l.length) : (firstBlock b l).toList = l.take b := by
  rw [firstBlock, List.Vector.toList_ofFn]
  refine List.ext_getElem (by simp [h]) ?_
  intro i hi hi'
  have hlt : i < l.length := Nat.lt_of_lt_of_le (by simpa using hi) h
  simp [hlt]

theorem firstBlock_append (block : Bytes b) (rest : List UInt8) :
    firstBlock b (block.toList ++ rest) = block := by
  refine List.Vector.toList_injective ?_
  rw [firstBlock_toList (by simp), List.take_left' block.toList_length]

theorem length_cbcEncrypt (encrypt : Bytes b → Bytes b) : ∀ (n : Nat) (iv : Bytes b) (l : List UInt8),
    (cbcEncrypt encrypt n iv l).1.length = n * b
  | 0, _, _ => by simp [cbcEncrypt]
  | n + 1, iv, l => by
    simp only [cbcEncrypt, List.length_append, List.Vector.toList_length, length_cbcEncrypt encrypt n]
    ring

theorem length_cbcDecrypt (decrypt : Bytes b → Bytes b) : ∀ (n : Nat) (iv : Bytes b) (l : List UInt8),
    (cbcDecrypt decrypt n iv l).1.length = n * b
  | 0, _, _ => by simp [cbcDecrypt]
  | n + 1, iv, l => by
    simp only [cbcDecrypt, List.length_append, List.Vector.toList_length, length_cbcDecrypt decrypt n]
    ring

/-- **What is encrypted is decrypted**, with the same vector. -/
theorem cbc_inverse (hinv : ∀ x, decrypt (encrypt x) = x) : ∀ {n : Nat} {iv : Bytes b} {l rest : List UInt8},
    n * b ≤ l.length →
      (cbcDecrypt decrypt n iv ((cbcEncrypt encrypt n iv l).1 ++ rest)).1 = l.take (n * b)
  | 0, _, _, _, _ => by simp [cbcDecrypt]
  | n + 1, iv, l, rest, h => by
    have hmul : (n + 1) * b = b + n * b := by ring
    rw [hmul] at h ⊢
    have hdrop : n * b ≤ (l.drop b).length := by
      rw [List.length_drop]
      omega
    simp only [cbcEncrypt, cbcDecrypt, List.append_assoc, firstBlock_append, hinv, xorBytes_cancel]
    rw [firstBlock_toList (by omega), List.drop_left' (List.Vector.toList_length _), cbc_inverse hinv hdrop,
      List.take_add]

/-- **The vector after decrypting** is the last block that was read. -/
theorem cbcDecrypt_vector (decrypt : Bytes b → Bytes b) : ∀ (n : Nat) (iv : Bytes b) (l : List UInt8),
    (cbcDecrypt decrypt (n + 1) iv l).2 = firstBlock b (l.drop (n * b))
  | 0, iv, l => by simp [cbcDecrypt]
  | n + 1, iv, l => by
    rw [cbcDecrypt]
    dsimp only
    rw [cbcDecrypt_vector decrypt n, List.drop_drop]
    congr 2
    ring

/-- **Another vector**: the first block comes out as another one. -/
theorem cbcDecrypt_inj (decrypt : Bytes b → Bytes b) (n : Nat) (l : List UInt8) :
    (cbcDecrypt decrypt (n + 1) iv l).1 = (cbcDecrypt decrypt (n + 1) iv' l).1 ↔ iv = iv' := by
  refine ⟨fun h => ?_, fun h => h ▸ rfl⟩
  have hlen : (xorBytes (decrypt (firstBlock b l)) iv).toList.length =
      (xorBytes (decrypt (firstBlock b l)) iv').toList.length := by simp
  have hfirst := (List.append_inj h hlen).1
  exact xorBytes_right_inj.mp (List.Vector.toList_injective hfirst)

/-- A row in two parts. -/
theorem cbcEncrypt_add (encrypt : Bytes b → Bytes b) (n : Nat) : ∀ (m : Nat) (iv : Bytes b) (l : List UInt8),
    cbcEncrypt encrypt (m + n) iv l =
      ((cbcEncrypt encrypt m iv l).1 ++ (cbcEncrypt encrypt n (cbcEncrypt encrypt m iv l).2 (l.drop (m * b))).1,
        (cbcEncrypt encrypt n (cbcEncrypt encrypt m iv l).2 (l.drop (m * b))).2)
  | 0, iv, l => by simp [cbcEncrypt]
  | m + 1, iv, l => by
    rw [show m + 1 + n = m + n + 1 from by omega, cbcEncrypt, cbcEncrypt_add encrypt n m]
    simp only [cbcEncrypt, List.append_assoc, List.drop_drop, show b + m * b = (m + 1) * b from by ring]

theorem cbcDecrypt_add (decrypt : Bytes b → Bytes b) (n : Nat) : ∀ (m : Nat) (iv : Bytes b) (l : List UInt8),
    cbcDecrypt decrypt (m + n) iv l =
      ((cbcDecrypt decrypt m iv l).1 ++ (cbcDecrypt decrypt n (cbcDecrypt decrypt m iv l).2 (l.drop (m * b))).1,
        (cbcDecrypt decrypt n (cbcDecrypt decrypt m iv l).2 (l.drop (m * b))).2)
  | 0, iv, l => by simp [cbcDecrypt]
  | m + 1, iv, l => by
    rw [show m + 1 + n = m + n + 1 from by omega, cbcDecrypt, cbcDecrypt_add decrypt n m]
    simp only [cbcDecrypt, List.append_assoc, List.drop_drop, show b + m * b = (m + 1) * b from by ring]

/-- **Both directions leave the same vector behind.** -/
theorem cbc_vector (encrypt decrypt : Bytes b → Bytes b) : ∀ (n : Nat) (iv iv' : Bytes b) (l rest : List UInt8),
    (cbcDecrypt decrypt (n + 1) iv' ((cbcEncrypt encrypt (n + 1) iv l).1 ++ rest)).2 =
      (cbcEncrypt encrypt (n + 1) iv l).2
  | 0, iv, iv', l, rest => by simp [cbcEncrypt, cbcDecrypt, firstBlock_append]
  | n + 1, iv, iv', l, rest => by
    rw [cbcEncrypt, cbcDecrypt]
    simp only [List.append_assoc, firstBlock_append, List.drop_left' (List.Vector.toList_length _)]
    exact cbc_vector encrypt decrypt n _ _ _ _

end AndixOs
