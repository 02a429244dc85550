/-
# The block cipher layer of the secure file system

`fs.c` stores a file on the untrusted normal world as a sequence of 1024-byte blocks
(`cfs_blk_t`): an IV, an HMAC, a hash and 944 bytes of ciphertext.  `__fs_encrypt_and_sign`
makes a block and `__fs_decrypt_and_verify` opens it.  Each of the two derives the block's key
on its own, from the IV, the block number and the file key, so what the block is bound to is
decided by whether the two derivations and the two MAC inputs agree.

The ciphers themselves (`tropicSSL`) are parameters (`FsCrypto`), and what the layer relies on
is `FsCrypto.Ideal`: the hash and the MAC are injective into abstract digests, and CBC
decryption undoes CBC encryption under the same key and IV.

* `fsDecryptAndVerify_fsEncryptAndSign`: a block opens under the key and number it was made
  with, and yields the data;
* `fsDecryptAndVerify_accept_inv`: what an accepted block says about the key it was opened with.
-/
import AndixOs.Lib.Bytes

namespace AndixOs.Fs

open AndixOs

/-! ## 1. Blocks -/

/-- `cfs_data_t`: the 944 plaintext bytes of a block.  The C type is a union of
`cfs_data_blk_t` (a count and 940 bytes) and `cfs_info_blk_t` (a key and two hashes). -/
abbrev CfsData := Bytes 944

/-- `cfs_blk_t`: one block as it lies in the store. -/
structure CfsBlk (Digest : Type) where
  iv : Bytes 16
  hmac : Digest
  hash : Digest
  data : CfsData
  deriving DecidableEq

/-- The primitives `fs.c` takes from `tropicSSL`.  A derived key is a digest.  `sha2Hmac k d h`
is the HMAC under `k` of the 944 bytes `d` followed by the digest `h`. -/
structure FsCrypto (Digest : Type) where
  sha2 : List UInt8 → Digest
  sha2Hmac : Digest → CfsData → Digest → Digest
  aesCbcEncrypt : Digest → Bytes 16 → CfsData → CfsData
  aesCbcDecrypt : Digest → Bytes 16 → CfsData → CfsData
  digestBytes : Digest → Bytes 32

/-- What the layer relies on: `sha2` and `sha2Hmac` are injective, and CBC decryption inverts
CBC encryption under the same key and IV. -/
structure FsCrypto.Ideal {Digest : Type} (c : FsCrypto Digest) : Prop where
  sha2_injective : Function.Injective c.sha2
  hmac_injective : ∀ k d h k' d' h', c.sha2Hmac k d h = c.sha2Hmac k' d' h' →
    k = k' ∧ d = d' ∧ h = h'
  decrypt_encrypt : ∀ k iv d, c.aesCbcDecrypt k iv (c.aesCbcEncrypt k iv d) = d

/-- The part of it that needs no strong hash. -/
def FsCrypto.Decrypts {Digest : Type} (c : FsCrypto Digest) : Prop :=
  ∀ k iv d, c.aesCbcDecrypt k iv (c.aesCbcEncrypt k iv d) = d

theorem FsCrypto.Ideal.decrypts {Digest : Type} {c : FsCrypto Digest} (h : c.Ideal) : c.Decrypts :=
  h.decrypt_encrypt

variable {Digest : Type}

/-! ## 2. The two functions -/

/-- The key a block is encrypted and signed with: SHA-256 of the IV, the four bytes of the block
number and the file key. -/
def deriveKey (c : FsCrypto Digest) (iv : Bytes 16) (blknum : UInt32) (key : List UInt8) :
    Digest :=
  c.sha2 (iv.toList ++ (le32 blknum ++ key))

/-- `__fs_encrypt_and_sign`: the IV is the one the caller left in the block. -/
def fsEncryptAndSign (c : FsCrypto Digest) (cfs : CfsBlk Digest) (key : List UInt8)
    (inputdata : CfsData) (blknum : UInt32) : UInt8 × CfsBlk Digest :=
  let derkey := deriveKey c cfs.iv blknum key
  let hash := c.sha2 inputdata.toList
  let data := c.aesCbcEncrypt derkey cfs.iv inputdata
  (0, { iv := cfs.iv, hmac := c.sha2Hmac derkey data hash, hash := hash, data := data })

variable [DecidableEq Digest] in
/-- `__fs_decrypt_and_verify`: the return value and what `outputdata` holds afterwards. -/
def fsDecryptAndVerify (c : FsCrypto Digest) (cfs : CfsBlk Digest) (key : List UInt8)
    (outputdata : CfsData) (blknum : UInt32) : UInt8 × CfsData :=
  let derkey := deriveKey c cfs.iv blknum key
  if c.sha2Hmac derkey cfs.data cfs.hash ≠ cfs.hmac then
    (255, outputdata)
  else
    -- the plaintext is already in the caller's buffer when the second check fails
    let plain := c.aesCbcDecrypt derkey cfs.iv cfs.data
    if c.sha2 plain.toList ≠ cfs.hash then (255, plain) else (0, plain)

/-! ## 3. What a derived key determines -/

/-- **The derived key determines everything that went into it.**  The IV and the block number
have fixed lengths, so the hashed string splits in one way only. -/
theorem deriveKey_inj {c : FsCrypto Digest} (h : c.Ideal) {iv iv' : Bytes 16}
    {n n' : UInt32} {k k' : List UInt8} (hd : deriveKey c iv n k = deriveKey c iv' n' k') :
    iv = iv' ∧ n = n' ∧ k = k' := by
  have hcat := h.sha2_injective hd
  obtain ⟨hiv, hrest⟩ := List.append_inj hcat (by simp)
  obtain ⟨hn, hk⟩ := List.append_inj hrest (by simp)
  exact ⟨List.Vector.toList_injective hiv, le32_injective hn, hk⟩

variable [DecidableEq Digest]

/-! ## 4. Opening a block -/

/-- A block is accepted exactly when its MAC and its plaintext hash check. -/
theorem fsDecryptAndVerify_accept_iff {c : FsCrypto Digest} {cfs : CfsBlk Digest}
    {key : List UInt8} {out : CfsData} {n : UInt32} :
    (fsDecryptAndVerify c cfs key out n).1 = 0 ↔
      c.sha2Hmac (deriveKey c cfs.iv n key) cfs.data cfs.hash = cfs.hmac ∧
        c.sha2 (c.aesCbcDecrypt (deriveKey c cfs.iv n key) cfs.iv cfs.data).toList = cfs.hash := by
  unfold fsDecryptAndVerify
  by_cases hmac : c.sha2Hmac (deriveKey c cfs.iv n key) cfs.data cfs.hash = cfs.hmac <;>
    by_cases hhash :
      c.sha2 (c.aesCbcDecrypt (deriveKey c cfs.iv n key) cfs.iv cfs.data).toList = cfs.hash <;>
    simp [hmac, hhash]

/-- The accepted key and number derive the key the block's MAC was made with. -/
theorem fsDecryptAndVerify_accept_inv {c : FsCrypto Digest} (h : c.Ideal) {cfs : CfsBlk Digest}
    {key key' : List UInt8} {d out : CfsData} {n n' : UInt32}
    (hacc : (fsDecryptAndVerify c (fsEncryptAndSign c cfs key d n).2 key' out n').1 = 0) :
    key' = key ∧ n' = n := by
  obtain ⟨hmac, -⟩ := fsDecryptAndVerify_accept_iff.mp hacc
  obtain ⟨hder, -, -⟩ := h.hmac_injective _ _ _ _ _ _ hmac
  obtain ⟨-, hn, hk⟩ := deriveKey_inj h hder
  exact ⟨hk, hn⟩

/-- A block opens under the key and the number it was made with, and yields the data. -/
theorem FsCrypto.Decrypts.opens {c : FsCrypto Digest} (h : c.Decrypts) (cfs : CfsBlk Digest) (key : List UInt8)
    (d out : CfsData) (n : UInt32) :
    fsDecryptAndVerify c (fsEncryptAndSign c cfs key d n).2 key out n = (0, d) := by
  simp only [fsDecryptAndVerify, fsEncryptAndSign, h _ _ _, ne_eq, not_true_eq_false, if_false]

theorem fsDecryptAndVerify_fsEncryptAndSign {c : FsCrypto Digest} (h : c.Ideal)
    (cfs : CfsBlk Digest) (key : List UInt8) (d out : CfsData) (n : UInt32) :
    fsDecryptAndVerify c (fsEncryptAndSign c cfs key d n).2 key out n = (0, d) := by
  exact h.decrypts.opens cfs key d out n

/-- **A block is bound to its key and its number.**  It opens with the pair it was made with,
yielding the data, and with no other pair: blocks cannot be swapped inside a file or between
files. -/
theorem block_bound_to_key_and_number (c : FsCrypto Digest) (h : c.Ideal) (cfs : CfsBlk Digest)
    (k : List UInt8) (d : CfsData) (n : UInt32) :
    (∀ out, fsDecryptAndVerify c (fsEncryptAndSign c cfs k d n).2 k out n = (0, d)) ∧
      ∀ k' n' out, (fsDecryptAndVerify c (fsEncryptAndSign c cfs k d n).2 k' out n').1 = 0 →
        k' = k ∧ n' = n :=
  ⟨fun out => fsDecryptAndVerify_fsEncryptAndSign h cfs k d out n,
    fun _ _ _ hacc => fsDecryptAndVerify_accept_inv h hacc⟩

/-! ## 5. A symbolic instance -/

/-- Digests as terms: what was hashed, or what was signed under which key. -/
inductive SymDigest where
  | sha (msg : List UInt8)
  | mac (key : SymDigest) (data : CfsData) (hash : SymDigest)
  deriving DecidableEq

/-- The first 32 bytes of a symbolic digest's message. -/
def SymDigest.bytes : SymDigest → Bytes 32
  | .sha msg => ⟨(msg ++ List.replicate 32 0).take 32, by simp⟩
  | .mac _ data _ => ⟨data.toList.take 32, by simp⟩

/-- Hash and MAC are term constructors and the cipher is the identity. -/
def symCrypto : FsCrypto SymDigest where
  sha2 := .sha
  sha2Hmac := .mac
  aesCbcEncrypt := fun _ _ d => d
  aesCbcDecrypt := fun _ _ d => d
  digestBytes := SymDigest.bytes

theorem symCrypto_ideal : symCrypto.Ideal where
  sha2_injective := fun _ _ h => SymDigest.sha.inj h
  hmac_injective := fun _ _ _ _ _ _ h => SymDigest.mac.inj h
  decrypt_encrypt := fun _ _ _ => rfl

/-- The binding at the symbolic instance: the second block of a zero file under one key. -/
theorem block_bound_to_key_and_number_sym :
    (∀ out, fsDecryptAndVerify symCrypto
        (fsEncryptAndSign symCrypto ⟨Bytes.zero 16, .sha [], .sha [], Bytes.zero 944⟩ [1]
          (Bytes.zero 944) 2).2 [1] out 2 = (0, Bytes.zero 944)) ∧
      ∀ k' n' out, (fsDecryptAndVerify symCrypto
        (fsEncryptAndSign symCrypto ⟨Bytes.zero 16, .sha [], .sha [], Bytes.zero 944⟩ [1]
          (Bytes.zero 944) 2).2 k' out n').1 = 0 → k' = [1] ∧ n' = 2 :=
  block_bound_to_key_and_number symCrypto symCrypto_ideal _ [1] (Bytes.zero 944) 2

end AndixOs.Fs
