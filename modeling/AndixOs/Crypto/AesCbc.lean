/-
# Rows of blocks

`aes_crypt_cbc` goes over a row as long as there is some of `length` left, a whole block at a time.  It counts
`length` down by 16, so that it rounds it up; and it leaves the last block that it made, or read, in
`iv`, with which a caller can go on.

* `length_aesCryptCbc`: how much is written;
* `cbcPieces_inverse`: a row that is enciphered in pieces comes back when it is deciphered in other pieces.
-/
import AndixOs.Crypto.AesCipher
import AndixOs.Lib.Cbc

namespace AndixOs.Crypto

/-! ## 1. The loops -/

/-- The loop of `AES_DECRYPT`: `temp` keeps the block for `iv`. -/
def cbcDecryptLoop (ctx : AesContext) (length : Int) (iv : Bytes 16) (input : List UInt8) :
    List UInt8 × Bytes 16 :=
  if 0 < length then
    let temp := firstBlock 16 input
    let output := xorBytes (aesCryptEcb ctx aesDecrypt temp) iv
    let rest := cbcDecryptLoop ctx (length - 16) temp (input.drop 16)
    (output.toList ++ rest.1, rest.2)
  else ([], iv)
termination_by length.toNat
decreasing_by omega

/-- The loop of `AES_ENCRYPT`. -/
def cbcEncryptLoop (ctx : AesContext) (mode : Nat) (length : Int) (iv : Bytes 16) (input : List UInt8) :
    List UInt8 × Bytes 16 :=
  if 0 < length then
    let output := aesCryptEcb ctx mode (xorBytes (firstBlock 16 input) iv)
    let rest := cbcEncryptLoop ctx mode (length - 16) output (input.drop 16)
    (output.toList ++ rest.1, rest.2)
  else ([], iv)
termination_by length.toNat
decreasing_by omega

/-- `aes_crypt_cbc`: what is written to `output`, and `iv` after it. -/
def aesCryptCbc (ctx : AesContext) (mode : Nat) (length : Int) (iv : Bytes 16) (input : List UInt8) :
    List UInt8 × Bytes 16 :=
  if mode = aesDecrypt then cbcDecryptLoop ctx length iv input else cbcEncryptLoop ctx mode length iv input

/-- The blocks that a length is counted down in. -/
def cbcBlocks (length : Int) : Nat := ((length + 15) / 16).toNat

variable {ctx : AesContext} {mode : Nat}

theorem cbcDecryptLoop_eq (length : Int) (iv : Bytes 16) (input : List UInt8) :
    cbcDecryptLoop ctx length iv input =
      cbcDecrypt (aesCryptEcb ctx aesDecrypt) (cbcBlocks length) iv input := by
  fun_induction cbcDecryptLoop ctx length iv input with
  | case1 length iv input hpos temp output rest ih =>
    have hblocks : cbcBlocks length = cbcBlocks (length - 16) + 1 := by
      unfold cbcBlocks
      omega
    rw [hblocks, cbcDecrypt, ← ih]
  | case2 length iv input hpos =>
    have hblocks : cbcBlocks length = 0 := by
      unfold cbcBlocks
      omega
    rw [hblocks, cbcDecrypt]

theorem cbcEncryptLoop_eq (length : Int) (iv : Bytes 16) (input : List UInt8) :
    cbcEncryptLoop ctx mode length iv input =
      cbcEncrypt (aesCryptEcb ctx mode) (cbcBlocks length) iv input := by
  fun_induction cbcEncryptLoop ctx mode length iv input with
  | case1 length iv input hpos output rest ih =>
    have hblocks : cbcBlocks length = cbcBlocks (length - 16) + 1 := by
      unfold cbcBlocks
      omega
    rw [hblocks, cbcEncrypt, ← ih]
  | case2 length iv input hpos =>
    have hblocks : cbcBlocks length = 0 := by
      unfold cbcBlocks
      omega
    rw [hblocks, cbcEncrypt]

/-- What is written is whole blocks: `length` is rounded up. -/
theorem length_aesCryptCbc (length : Int) (iv : Bytes 16) (input : List UInt8) :
    (aesCryptCbc ctx mode length iv input).1.length = cbcBlocks length * 16 := by
  rw [aesCryptCbc]
  split
  · rw [cbcDecryptLoop_eq, length_cbcDecrypt]
  · rw [cbcEncryptLoop_eq, length_cbcEncrypt]

/-! ## 2. Pieces -/

/-- A row in pieces of so many blocks, one call for each, with the `iv` that the last one left. -/
def cbcPieces (ctx : AesContext) (mode : Nat) : List Nat → Bytes 16 → List UInt8 → List UInt8 × Bytes 16
  | [], iv, _ => ([], iv)
  | k :: ks, iv, input =>
    let r := aesCryptCbc ctx mode (k * 16) iv input
    let rest := cbcPieces ctx mode ks r.2 (input.drop (k * 16))
    (r.1 ++ rest.1, rest.2)

theorem cbcBlocks_mul (k : Nat) : cbcBlocks (k * 16) = k := by
  unfold cbcBlocks
  omega

theorem cbcPieces_decrypt : ∀ (ks : List Nat) (iv : Bytes 16) (input : List UInt8),
    cbcPieces ctx aesDecrypt ks iv input = cbcDecrypt (aesCryptEcb ctx aesDecrypt) ks.sum iv input
  | [], _, _ => rfl
  | k :: ks, iv, input => by
    rw [cbcPieces, List.sum_cons, cbcDecrypt_add, cbcPieces_decrypt ks, aesCryptCbc, if_pos rfl, cbcDecryptLoop_eq,
      cbcBlocks_mul]

theorem cbcPieces_encrypt (hmode : mode ≠ aesDecrypt) : ∀ (ks : List Nat) (iv : Bytes 16) (input : List UInt8),
    cbcPieces ctx mode ks iv input = cbcEncrypt (aesCryptEcb ctx mode) ks.sum iv input
  | [], _, _ => rfl
  | k :: ks, iv, input => by
    rw [cbcPieces, List.sum_cons, cbcEncrypt_add, cbcPieces_encrypt hmode ks, aesCryptCbc, if_neg hmode,
      cbcEncryptLoop_eq, cbcBlocks_mul]

theorem encrypt_ne_decrypt : aesEncrypt ≠ aesDecrypt := by decide

/-- **A row comes back, in whatever pieces.**  It is enciphered and deciphered under one key and from one `iv`, in
pieces that have as many blocks together; both leave the same `iv` behind. -/
theorem cbcPieces_inverse (ctx ctx' : AesContext) (bytes : List UInt8) (keysize : Int) (nr : Nat)
    (h : aesRoundsOf keysize = some nr) (ks ks' : List Nat) (hsum : ks.sum = ks'.sum) (iv : Bytes 16)
    (input : List UInt8) (hlen : ks.sum * 16 ≤ input.length) :
    let sealed := cbcPieces (aesSetkeyEnc ctx bytes keysize) aesEncrypt ks iv input
    let opened := cbcPieces (aesSetkeyDec ctx' bytes keysize) aesDecrypt ks' iv sealed.1
    opened.1 = input.take (ks.sum * 16) ∧ opened.2 = sealed.2 := by
  simp only [cbcPieces_decrypt, cbcPieces_encrypt encrypt_ne_decrypt, ← hsum]
  have hback (x : Bytes 16) : aesCryptEcb (aesSetkeyDec ctx' bytes keysize) aesDecrypt
      (aesCryptEcb (aesSetkeyEnc ctx bytes keysize) aesEncrypt x) = x := decrypt_encrypt h
  refine ⟨(congrArg (fun l => (cbcDecrypt _ _ _ l).1) (List.append_nil _)).symm.trans (cbc_inverse hback hlen), ?_⟩
  obtain hzero | ⟨n, hn⟩ : ks.sum = 0 ∨ ∃ n, ks.sum = n + 1 := by
    rcases ks.sum with _ | n
    · exact Or.inl rfl
    · exact Or.inr ⟨n, rfl⟩
  · rw [hzero, cbcDecrypt, cbcEncrypt]
  · have hvec := cbc_vector (aesCryptEcb (aesSetkeyEnc ctx bytes keysize) aesEncrypt)
      (aesCryptEcb (aesSetkeyDec ctx' bytes keysize) aesDecrypt) n iv iv input []
    rwa [List.append_nil, ← hn] at hvec

/-- Three blocks in two pieces, and back in one. -/
theorem cbcPieces_inverse_three :
    let sealed := cbcPieces (aesSetkeyEnc ⟨0, []⟩ (List.replicate 32 7) 256) aesEncrypt [1, 2] (Bytes.zero 16)
      (List.replicate 50 5)
    let opened := cbcPieces (aesSetkeyDec ⟨0, []⟩ (List.replicate 32 7) 256) aesDecrypt [3] (Bytes.zero 16) sealed.1
    opened.1 = (List.replicate 50 5).take 48 ∧ opened.2 = sealed.2 :=
  cbcPieces_inverse ⟨0, []⟩ ⟨0, []⟩ (List.replicate 32 7) 256 14 rfl [1, 2] [3] rfl (Bytes.zero 16)
    (List.replicate 50 5) (by decide)

end AndixOs.Crypto
