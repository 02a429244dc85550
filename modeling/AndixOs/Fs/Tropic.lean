/-
# The block layer with its ciphers

`Crypto.lean` takes the hash, the MAC and the cipher as parameters.  In the kernel they are those of TropicSSL, and
`fs.c` calls them itself: it sets up contexts, gives `sha2_update` one field after the other, and hands
`aes_crypt_cbc` a copy of the IV.  This file has the two functions with these calls.

* `fsEncryptAndSignCalls_eq`, `fsDecryptAndVerifyCalls_eq`: they are the two functions of `Crypto.lean`, at
  `tropicCrypto`;
* `block_comes_back`: what is encrypted and signed is verified and decrypted, with no assumption on the ciphers.
-/
import AndixOs.Crypto.AesCbc
import AndixOs.Crypto.Sha2Stream
import AndixOs.Fs.Crypto

namespace AndixOs.Fs

open AndixOs.Crypto

/-! ## 1. The calls -/

/-- A context after `memset`. -/
def sha2Zero : Sha2Context :=
  ⟨0, 0, ⟨0, 0, 0, 0, 0, 0, 0, 0⟩, Bytes.zero 64, Bytes.zero 64, Bytes.zero 64, false⟩

def aesZero : AesContext := ⟨0, List.replicate 68 0⟩

/-- A digest in a buffer of 32 bytes that was cleared. -/
def inBuffer {n : Nat} (digest : Bytes n) : Bytes 32 := List.Vector.ofFn fun i => digest.toList.getD i 0

/-- The key of a block: three parts are hashed. -/
def deriveKeyCalls (iv : Bytes 16) (blknum : UInt32) (key : List UInt8) : Bytes 32 :=
  let shaCtx := sha2Starts sha2Zero false
  let shaCtx := sha2Update shaCtx iv.toList 16
  let shaCtx := sha2Update shaCtx (le32 blknum) 4
  let shaCtx := sha2Update shaCtx key (Trustlet.intLength key)
  inBuffer (sha2Finish shaCtx)

/-- The MAC of a block. -/
def hmacCalls (derkey : Bytes 32) (data : CfsData) (hash : Bytes 32) : Bytes 32 :=
  let shaCtx := sha2HmacStarts sha2Zero derkey.toList 32 false
  let shaCtx := sha2HmacUpdate shaCtx data.toList 944
  let shaCtx := sha2HmacUpdate shaCtx hash.toList 32
  inBuffer (sha2HmacFinish shaCtx)

/-- `aes_crypt_cbc` on the data of a block, with a copy of the IV. -/
def cbcCalls (ctx : AesContext) (mode : Nat) (iv : Bytes 16) (data : CfsData) : CfsData :=
  ⟨(aesCryptCbc ctx mode 944 iv data.toList).1, length_aesCryptCbc 944 iv data.toList⟩

/-- `__fs_encrypt_and_sign`. -/
def fsEncryptAndSignCalls (cfs : CfsBlk (Bytes 32)) (key : List UInt8) (inputdata : CfsData) (blknum : UInt32) :
    UInt8 × CfsBlk (Bytes 32) :=
  let derkey := deriveKeyCalls cfs.iv blknum key
  let hash := inBuffer (Crypto.sha2 sha2Zero inputdata.toList 944 false)
  let aesCtx := aesSetkeyEnc aesZero derkey.toList 256
  let data := cbcCalls aesCtx aesEncrypt cfs.iv inputdata
  (0, { iv := cfs.iv, hmac := hmacCalls derkey data hash, hash := hash, data := data })

/-- `__fs_decrypt_and_verify`. -/
def fsDecryptAndVerifyCalls (cfs : CfsBlk (Bytes 32)) (key : List UInt8) (outputdata : CfsData) (blknum : UInt32) :
    UInt8 × CfsData :=
  let derkey := deriveKeyCalls cfs.iv blknum key
  let aesCtx := aesSetkeyDec aesZero derkey.toList 256
  let digest := hmacCalls derkey cfs.data cfs.hash
  if digest ≠ cfs.hmac then (255, outputdata)
  else
    let outputdata := cbcCalls aesCtx aesDecrypt cfs.iv cfs.data
    let shaCtx := sha2Update (sha2Starts sha2Zero false) outputdata.toList 944
    let hash := inBuffer (sha2Finish shaCtx)
    if hash ≠ cfs.hash then (255, outputdata) else (0, outputdata)

/-! ## 2. The parameters of the layer -/

/-- The ciphers of the layer. -/
def tropicCrypto : FsCrypto (Bytes 32) where
  sha2 := Trustlet.sha2Finish
  sha2Hmac := fun k d h => hmac Trustlet.sha2Finish 64 k.toList (d.toList ++ h.toList)
  aesCbcEncrypt := fun k iv d => cbcCalls (aesSetkeyEnc aesZero k.toList 256) aesEncrypt iv d
  aesCbcDecrypt := fun k iv d => cbcCalls (aesSetkeyDec aesZero k.toList 256) aesDecrypt iv d
  digestBytes := id

variable {ctx : Sha2Context} {msg key : List UInt8} {iv : Bytes 16} {blknum : UInt32} {data out : CfsData}
  {cfs : CfsBlk (Bytes 32)}

/-- A buffer holds what is put out, if it has the length. -/
theorem inBuffer_eq {n : Nat} {d : Bytes n} {d' : Bytes 32} (h : d.toList = d'.toList) : inBuffer d = d' := by
  refine List.Vector.ext fun i => ?_
  have hi : i.val < d'.toList.length := by simp
  rw [inBuffer, List.Vector.get_ofFn, h, List.getD_eq_getElem?_getD, List.getElem?_eq_getElem hi,
    List.Vector.get_eq_get_toList]
  rfl

/-- What a context puts out that is in step with a message. -/
theorem inBuffer_finish (h : Hashes ctx msg) (h224 : ctx.is224 = false) :
    inBuffer (Crypto.sha2Finish ctx) = Trustlet.sha2Finish msg := by
  refine inBuffer_eq ?_
  rw [sha2Finish, putState_eq h, h224, digest_eq]

/-- The hash functions are the same. -/
theorem digest_false : (digest false : List UInt8 → Bytes 32) = Trustlet.sha2Finish :=
  funext fun msg => List.Vector.toList_injective (digest_eq msg)

theorem intLength_eq (h : key.length < 2147483648) : Trustlet.intLength key = key.length :=
  Int.bmod_eq_of_le (by omega) (by omega)

/-- A whole part. -/
theorem Hashes.whole (part : List UInt8) {n : Int} (h : Hashes ctx msg) (hn : n = part.length)
    (hlt : part.length < 2147483648) : Hashes (sha2Update ctx part n) (msg ++ part) := by
  have hpart := sha2Update_streamed part n h (by omega) (by omega)
  rwa [hn, Int.toNat_natCast, List.take_length, ← hn] at hpart

/-- **The key of a block** is the hash of the three parts. -/
theorem deriveKeyCalls_eq (hkey : key.length < 2147483648) :
    deriveKeyCalls iv blknum key = deriveKey tropicCrypto iv blknum key := by
  have h0 := Hashes.start sha2Zero false
  have h1 := Hashes.whole iv.toList (n := 16) h0 (by simp) (by simp)
  have h2 := Hashes.whole (le32 blknum) (n := 4) h1 rfl (by simp)
  have h3 := Hashes.whole _ h2 (intLength_eq hkey) hkey
  rw [deriveKeyCalls, inBuffer_finish h3 (by simp only [sha2Update_rest]; rfl), deriveKey, tropicCrypto]
  simp only [List.nil_append, List.append_assoc]

/-- **The MAC of a block** is HMAC of the data and the hash. -/
theorem hmacCalls_eq (derkey hash : Bytes 32) :
    hmacCalls derkey data hash = tropicCrypto.sha2Hmac derkey data hash := by
  have hall := sha2Hmac_updates sha2Zero false derkey.toList (by simp) [data.toList, hash.toList]
    (by simp)
  have hkey : (derkey.toList.length : Int) = 32 := by simp
  have hdata : (data.toList.length : Int) = 944 := by simp
  have hhash : (hash.toList.length : Int) = 32 := by simp
  rw [digest_false, sha2Updates, List.foldl_cons, List.foldl_cons, List.foldl_nil, hkey, hdata, hhash,
    List.flatten_cons, List.flatten_singleton] at hall
  rw [hmacCalls, sha2HmacUpdate, sha2HmacUpdate]
  exact inBuffer_eq hall

/-- The hash of the data. -/
theorem hashCalls_eq (data : CfsData) :
    inBuffer (Crypto.sha2 sha2Zero data.toList 944 false) = tropicCrypto.sha2 data.toList := by
  have hone := sha2_eq sha2Zero false data.toList (by simp)
  rw [List.Vector.toList_length] at hone
  refine inBuffer_eq ((congrArg List.Vector.toList hone).trans ?_)
  exact digest_eq _

/-- **`__fs_encrypt_and_sign` with its calls** is the function of the layer. -/
theorem fsEncryptAndSignCalls_eq (hkey : key.length < 2147483648) :
    fsEncryptAndSignCalls cfs key data blknum = fsEncryptAndSign tropicCrypto cfs key data blknum := by
  rw [fsEncryptAndSignCalls, deriveKeyCalls_eq hkey, hashCalls_eq]
  simp only [hmacCalls_eq]
  rfl

/-- **`__fs_decrypt_and_verify` with its calls** is the function of the layer. -/
theorem fsDecryptAndVerifyCalls_eq (hkey : key.length < 2147483648) :
    fsDecryptAndVerifyCalls cfs key out blknum = fsDecryptAndVerify tropicCrypto cfs key out blknum := by
  have hhash (d : CfsData) : inBuffer (sha2Finish (sha2Update (sha2Starts sha2Zero false) d.toList 944)) =
      tropicCrypto.sha2 d.toList := by
    have h := Hashes.whole d.toList (n := 944) (Hashes.start sha2Zero false) (by simp) (by simp)
    exact inBuffer_finish h (by simp only [sha2Update_rest]; rfl)
  rw [fsDecryptAndVerifyCalls, deriveKeyCalls_eq hkey]
  simp only [hmacCalls_eq, hhash]
  rfl

/-- The cipher of the layer decrypts what it encrypts. -/
theorem tropicCrypto_decrypt_encrypt (k : Bytes 32) (iv : Bytes 16) (d : CfsData) :
    tropicCrypto.aesCbcDecrypt k iv (tropicCrypto.aesCbcEncrypt k iv d) = d := by
  refine List.Vector.toList_injective ?_
  have hback (x : Bytes 16) : aesCryptEcb (aesSetkeyDec aesZero k.toList 256) aesDecrypt
      (aesCryptEcb (aesSetkeyEnc aesZero k.toList 256) aesEncrypt x) = x :=
    decrypt_encrypt (show aesRoundsOf 256 = some 14 from rfl)
  have hlen : 59 * 16 ≤ d.toList.length := by simp
  have hinv : (cbcDecrypt (aesCryptEcb (aesSetkeyDec aesZero k.toList 256) aesDecrypt) 59 iv
      ((cbcEncrypt (aesCryptEcb (aesSetkeyEnc aesZero k.toList 256) aesEncrypt) 59 iv d.toList).1 ++ [])).1 =
        d.toList.take (59 * 16) := cbc_inverse hback hlen
  rw [List.append_nil, List.take_of_length_le (by simp)] at hinv
  have henc : (tropicCrypto.aesCbcEncrypt k iv d).toList =
      (cbcEncrypt (aesCryptEcb (aesSetkeyEnc aesZero k.toList 256) aesEncrypt) 59 iv d.toList).1 :=
    congrArg Prod.fst (cbcEncryptLoop_eq 944 iv d.toList)
  rw [← henc] at hinv
  exact (congrArg Prod.fst (cbcDecryptLoop_eq 944 iv _)).trans hinv

/-- **A block comes back**: under every file key, IV and number, what is encrypted and signed is verified and decrypted
to the same data, with the ciphers that the kernel has. -/
theorem block_comes_back (cfs : CfsBlk (Bytes 32)) (key : List UInt8) (hkey : key.length < 2147483648)
    (data out : CfsData) (blknum : UInt32) :
    fsDecryptAndVerifyCalls (fsEncryptAndSignCalls cfs key data blknum).2 key out blknum = (0, data) ∧
      fsEncryptAndSignCalls cfs key data blknum = fsEncryptAndSign tropicCrypto cfs key data blknum ∧
      fsDecryptAndVerifyCalls cfs key out blknum = fsDecryptAndVerify tropicCrypto cfs key out blknum := by
  refine ⟨?_, fsEncryptAndSignCalls_eq hkey, fsDecryptAndVerifyCalls_eq hkey⟩
  rw [fsEncryptAndSignCalls_eq hkey, fsDecryptAndVerifyCalls_eq hkey]
  simp only [fsDecryptAndVerify, fsEncryptAndSign, ne_eq, not_true_eq_false, if_false, tropicCrypto_decrypt_encrypt]

/-- The first block of a file with a key of one byte. -/
theorem block_comes_back_first :
    fsDecryptAndVerifyCalls (fsEncryptAndSignCalls ⟨Bytes.zero 16, Bytes.zero 32, Bytes.zero 32, Bytes.zero 944⟩ [1]
        (Bytes.zero 944) 0).2 [1] (Bytes.zero 944) 0 = (0, Bytes.zero 944) ∧
      fsEncryptAndSignCalls ⟨Bytes.zero 16, Bytes.zero 32, Bytes.zero 32, Bytes.zero 944⟩ [1] (Bytes.zero 944) 0 =
        fsEncryptAndSign tropicCrypto ⟨Bytes.zero 16, Bytes.zero 32, Bytes.zero 32, Bytes.zero 944⟩ [1]
          (Bytes.zero 944) 0 ∧
      fsDecryptAndVerifyCalls ⟨Bytes.zero 16, Bytes.zero 32, Bytes.zero 32, Bytes.zero 944⟩ [1] (Bytes.zero 944) 0 =
        fsDecryptAndVerify tropicCrypto ⟨Bytes.zero 16, Bytes.zero 32, Bytes.zero 32, Bytes.zero 944⟩ [1]
          (Bytes.zero 944) 0 :=
  block_comes_back ⟨Bytes.zero 16, Bytes.zero 32, Bytes.zero 32, Bytes.zero 944⟩ [1] (by decide) (Bytes.zero 944)
    (Bytes.zero 944) 0

end AndixOs.Fs
