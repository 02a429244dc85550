/-
# Which file an opened handle is for

The normal world decides what lies behind a file name.  The info block of a file therefore carries
the hashes of the names it was made for, under the secret's MAC.  `fs_open` writes them when it
makes an info block, and never looks at them again: a handle for file A can be backed by the info
block, and so by the key and the content, of file B (`open_other_file`).

An info block that `fs_open` accepts is one that was made under the secret
(`fsDecryptAndVerify_accept_iff_made`), so nothing can be forged.  What is left is replay, and the
names agree exactly when the normal world does not answer with another name's block
(`open_bound_iff`).
-/
import AndixOs.Fs.IvFresh
import Mathlib.Data.Fintype.Pigeonhole
import Mathlib.Data.Fintype.Vector

namespace AndixOs.Fs

open AndixOs

variable {Digest σ : Type}

/-! ## 1. An accepted block was made under the key -/

instance finite_cfsData : Finite CfsData := by
  have hbyte : Finite UInt8 := Finite.of_injective UInt8.toFin fun _ _ h => UInt8.toFin_inj.mp h
  have := Fintype.ofFinite UInt8
  exact inferInstanceAs (Finite (List.Vector UInt8 944))

/-- CBC decryption is injective, since there are finitely many plaintexts, so encryption undoes it
too. -/
theorem FsCrypto.Ideal.encrypt_decrypt {c : FsCrypto Digest} (h : c.Ideal) (k : Digest)
    (iv : Bytes 16) (d : CfsData) : c.aesCbcEncrypt k iv (c.aesCbcDecrypt k iv d) = d := by
  have hinj : Function.Injective (c.aesCbcEncrypt k iv) :=
    Function.LeftInverse.injective (h.decrypt_encrypt k iv)
  obtain ⟨p, rfl⟩ := Finite.surjective_of_injective hinj d
  rw [h.decrypt_encrypt]

variable [DecidableEq Digest]

/-- **What is accepted was made.**  A block verifies under a key and a number exactly when it is
the block that `__fs_encrypt_and_sign` makes from the plaintext it opens to. -/
theorem fsDecryptAndVerify_accept_iff_made {c : FsCrypto Digest} (h : c.Ideal)
    {cfs : CfsBlk Digest} {key : List UInt8} {out d : CfsData} {n : UInt32} :
    fsDecryptAndVerify c cfs key out n = (0, d) ↔ cfs = (fsEncryptAndSign c cfs key d n).2 := by
  constructor
  · intro hacc
    obtain ⟨hmac, hhash⟩ := fsDecryptAndVerify_accept_iff.mp (congrArg Prod.fst hacc)
    have hd : d = c.aesCbcDecrypt (deriveKey c cfs.iv n key) cfs.iv cfs.data := by
      have hsnd := congrArg Prod.snd hacc
      simpa [fsDecryptAndVerify, hmac, hhash] using hsnd.symm
    have hdata : c.aesCbcEncrypt (deriveKey c cfs.iv n key) cfs.iv d = cfs.data := by
      rw [hd, h.encrypt_decrypt]
    have hsha : c.sha2 d.toList = cfs.hash := by
      rw [hd]
      exact hhash
    simp only [fsEncryptAndSign, hdata, hsha, hmac]
  · intro hmade
    rw [hmade]
    exact fsDecryptAndVerify_fsEncryptAndSign h cfs key d out n

/-! ## 2. The names in an info block -/

/-- The `filename` field of an info block. -/
def CfsData.filename (d : CfsData) : Bytes 32 := ⟨(d.toList.drop 32).take 32, by simp⟩

/-- The `storename` field of an info block. -/
def CfsData.storename (d : CfsData) : Bytes 32 := ⟨(d.toList.drop 64).take 32, by simp⟩

/-- The info block is for this file of this store. -/
def CfsData.IsFor (c : FsCrypto Digest) (d : CfsData) (storename filename : List UInt8) : Prop :=
  d.storename = c.digestBytes (c.sha2 storename) ∧ d.filename = c.digestBytes (c.sha2 filename)

/-! ## 3. What the normal world answers to `fs_open` -/

/-- The info block that `fs_open` is given for a file that is not empty; `none` when the call ends
before it has one. -/
def servedInfo (e : FsEnv Digest σ) (w : World Digest σ) (storename filename : List UInt8)
    (flags mode : Int) (stk : FsStack Digest) : Option (CfsBlk Digest) :=
  if e.initMagic = false then none
  else
    let (fd, w) := reeOpen e w (e.crypto.digestBytes (e.crypto.sha2 storename))
      (e.crypto.digestBytes (e.crypto.sha2 filename)) flags mode stk.mode
    if fd ≤ 0 then none
    else
      let (r, stSize, w) := reeFstat e w fd 0
      if r ≠ 0 ∨ stSize = 0 then none
      else
        let (n, blk, _) := reeRead e w fd stk.blk
        if n ≠ 1024 then none else some blk

/-- `fs_open` succeeds with an info block exactly when it verifies. -/
theorem fsOpen_served {e : FsEnv Digest σ} {w : World Digest σ} {storename filename : List UInt8}
    {flags mode : Int} {stk : FsStack Digest} {blk : CfsBlk Digest} (h : Cfs)
    (hblk : servedInfo e w storename filename flags mode stk = some blk) :
    (fsOpen e w h storename filename flags mode stk).1 = 0 ↔
      (fsDecryptAndVerify e.crypto blk e.secretValue.toList stk.data 0).1 = 0 := by
  simp only [servedInfo] at hblk
  simp only [fsOpen]
  split_ifs at hblk with hinit hfd hstat hread
  rw [not_or] at hstat
  obtain rfl := Option.some.inj hblk
  rw [if_neg hinit, if_neg hfd, if_neg hstat.1, if_neg hstat.2, if_neg hread]
  split_ifs with hverify
  · simp [fsOpenCleanup, hverify]
  · simpa using not_not.mp hverify

/-! ## 4. When the names agree -/

/-- If `fs_open` succeeds on a file that is not empty, the info block it opened is for the names
it was asked for. -/
def OpenBound (e : FsEnv Digest σ) (w : World Digest σ) (h : Cfs) (storename filename : List UInt8)
    (flags mode : Int) (stk : FsStack Digest) : Prop :=
  (fsOpen e w h storename filename flags mode stk).1 = 0 →
    ∀ blk, servedInfo e w storename filename flags mode stk = some blk →
      (fsDecryptAndVerify e.crypto blk e.secretValue.toList stk.data 0).2.IsFor e.crypto
        storename filename

/-- The normal world answers with an info block that was made under the secret for another name. -/
def ReplaysOther (e : FsEnv Digest σ) (w : World Digest σ) (storename filename : List UInt8)
    (flags mode : Int) (stk : FsStack Digest) : Prop :=
  ∃ blk d, servedInfo e w storename filename flags mode stk =
      some (fsEncryptAndSign e.crypto blk e.secretValue.toList d 0).2 ∧
    ¬ d.IsFor e.crypto storename filename

/-- **An opened file is the requested one exactly when the normal world does not replay another
file's info block.**  For every file service, every answer it gives and every name. -/
theorem open_bound_iff (e : FsEnv Digest σ) (hc : e.crypto.Ideal) (w : World Digest σ) (h : Cfs)
    (storename filename : List UInt8) (flags mode : Int) (stk : FsStack Digest) :
    OpenBound e w h storename filename flags mode stk ↔
      ¬ ReplaysOther e w storename filename flags mode stk := by
  constructor
  · rintro hbound ⟨blk, d, hserved, hnot⟩
    have hmade := fsDecryptAndVerify_fsEncryptAndSign hc blk e.secretValue.toList d stk.data 0
    have hopen := (fsOpen_served h hserved).mpr (congrArg Prod.fst hmade)
    have hfor := hbound hopen _ hserved
    rw [hmade] at hfor
    exact hnot hfor
  · intro hno hopen blk hblk
    have hacc := (fsOpen_served h hblk).mp hopen
    by_contra hnot
    have hmade := (fsDecryptAndVerify_accept_iff_made hc).mp (Prod.ext hacc rfl)
    exact hno ⟨blk, _, hblk.trans (congrArg some hmade), hnot⟩

/-! ## 5. A replayed info block -/

/-- A store that gives the same file for every name, from its start. -/
def replayServe (s : List (CfsBlk SymDigest) × Nat) :
    ReeRequest SymDigest → ReeAnswer SymDigest × (List (CfsBlk SymDigest) × Nat)
  | .open dirname filename flags mode => honestServe (s.1, 0) (.open dirname filename flags mode)
  | r => honestServe s r

def replayEnv : FsEnv SymDigest (List (CfsBlk SymDigest) × Nat) :=
  { honestEnv with serve := replayServe }

def closedHandle : Cfs := ⟨-1, 0, Bytes.zero 32⟩

/-- After file 2 of store 1 was created. -/
def createdWorld : World SymDigest (List (CfsBlk SymDigest) × Nat) :=
  (fsOpen replayEnv ⟨([], 0), 0, []⟩ closedHandle [1] [2] 0 0 zeroStack).2.2

/-- The condition at work, for file 3 of store 1. -/
theorem open_bound_iff_replay :
    OpenBound replayEnv createdWorld closedHandle [1] [3] 0 0 zeroStack ↔
      ¬ ReplaysOther replayEnv createdWorld [1] [3] 0 0 zeroStack :=
  open_bound_iff replayEnv symCrypto_ideal createdWorld closedHandle [1] [3] 0 0 zeroStack

/-- **A file opens under another's name**: file 3 opens with the info block of file 2. -/
theorem open_other_file :
    (fsOpen replayEnv createdWorld closedHandle [1] [3] 0 0 zeroStack).1 = 0 ∧
      ¬ OpenBound replayEnv createdWorld closedHandle [1] [3] 0 0 zeroStack := by
  have hopen : (fsOpen replayEnv createdWorld closedHandle [1] [3] 0 0 zeroStack).1 = 0 := by
    decide +kernel
  have hname : (servedInfo replayEnv createdWorld [1] [3] 0 0 zeroStack).map (fun blk =>
      decide ((fsDecryptAndVerify symCrypto blk (Bytes.zero 32).toList (Bytes.zero 944) 0).2.filename
        = symCrypto.digestBytes (symCrypto.sha2 [3]))) = some false := by
    decide +kernel
  obtain ⟨blk, hblk, hother⟩ := Option.map_eq_some_iff.mp hname
  exact ⟨hopen, fun hbound => of_decide_eq_false hother (hbound hopen blk hblk).2⟩

end AndixOs.Fs
