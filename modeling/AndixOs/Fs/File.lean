/-
# Files on an untrusted store

`fs.c` over the block layer: `fs_open`, `fs_write`, `fs_lseek` and `fs_close`.  Block 0 of a file
(the info block) carries the file key, encrypted under the device secret; block `n ≥ 1` carries up
to 940 bytes of content, encrypted under the file key.

The locals of the C functions that are used before they are written are parameters
(`FsStack`): the stack holds arbitrary bytes there.
-/
import AndixOs.Fs.Ree

namespace AndixOs.Fs

open AndixOs

variable {Digest σ : Type} [DecidableEq Digest]

/-! ## 1. Handles and plaintext layouts -/

/-- `CFS_BLK_SIZE`. -/
def cfsBlkSize : Nat := 940

/-- `cfs_t`. -/
structure Cfs where
  fd : Int
  filepos : UInt32
  keyData : Bytes 32
  deriving DecidableEq

/-- What the stack holds in the uninitialised locals of a call: `blk`, `data`, and the mode field
of the request. -/
structure FsStack (Digest : Type) where
  blk : CfsBlk Digest
  data : CfsData
  mode : Int

/-- The `count` field of a data block. -/
def CfsData.count (d : CfsData) : UInt32 := ofLe32 d.toList

theorem CfsData.length_take (d : CfsData) : (d.toList.take 32).length = 32 := by simp

/-- The `key_data` field of an info block. -/
def CfsData.keyData (d : CfsData) : Bytes 32 :=
  ⟨d.toList.take 32, d.length_take⟩

/-- The info block of a new file: key, `filename`, `storename`, the rest as the stack has it. -/
def infoBlk (d : CfsData) (key filename storename : Bytes 32) : CfsData :=
  ((d.write 0 key.toList).write 32 filename.toList).write 64 storename.toList

/-- A data block with `b` copied to offset `off` of its `blk` field and the count set to the end
of the copy. -/
def dataBlk (d : CfsData) (off : Nat) (b : List UInt8) : CfsData :=
  (d.write (4 + off) b).write 0 (le32 (UInt32.ofNat (off + b.length)))

/-! ## 2. `fs_open`, `fs_close`, `fs_lseek` -/

/-- `__fs_encrypt_and_sign`, with the encryption on record. -/
def encryptBlk (e : FsEnv Digest σ) (w : World Digest σ) (blk : CfsBlk Digest)
    (key : List UInt8) (data : CfsData) (blknum : UInt32) : CfsBlk Digest × World Digest σ :=
  ((fsEncryptAndSign e.crypto blk key data blknum).2,
    { w with log := .encrypt (deriveKey e.crypto blk.iv blknum key) blk.iv data :: w.log })

/-- The `cleanup` path of `fs_open`: the file is closed and the handle dropped. -/
def fsOpenCleanup (e : FsEnv Digest σ) (w : World Digest σ) (h : Cfs) (fd : Int) :
    Int × Cfs × World Digest σ :=
  let (_, w) := reeClose e w fd
  (-1, { h with fd := -1, keyData := Bytes.zero 32 }, w)

/-- `fs_open`: an empty file gets an info block with a fresh key, any other file is asked for its
info block. -/
def fsOpen (e : FsEnv Digest σ) (w : World Digest σ) (h : Cfs) (storename filename : List UInt8)
    (flags mode : Int) (stk : FsStack Digest) : Int × Cfs × World Digest σ :=
  if e.initMagic = false then (-1, h, w)
  else
    let storeHash := e.crypto.digestBytes (e.crypto.sha2 storename)
    let fileHash := e.crypto.digestBytes (e.crypto.sha2 filename)
    let (fd, w) := reeOpen e w storeHash fileHash flags mode stk.mode
    if fd ≤ 0 then (-1, h, w)
    else
      let h := { h with fd := fd, filepos := 0 }
      let (r, stSize, w) := reeFstat e w fd 0
      if r ≠ 0 then fsOpenCleanup e w h fd
      else if stSize = 0 then
        let (iv, w) := randomFill e w 16
        let (key, w) := randomFill e w 32
        let h := { h with keyData := key }
        let data := infoBlk stk.data key fileHash storeHash
        let (blk, w) := encryptBlk e w { stk.blk with iv := iv } e.secretValue.toList data 0
        let (n, w) := reeWrite e w fd blk
        if n ≠ 1024 then fsOpenCleanup e w h fd else (0, h, w)
      else
        let (n, blk, w) := reeRead e w fd stk.blk
        if n ≠ 1024 then fsOpenCleanup e w h fd
        else
          let (r, data) := fsDecryptAndVerify e.crypto blk e.secretValue.toList stk.data 0
          if r ≠ 0 then fsOpenCleanup e w h fd else (0, { h with keyData := data.keyData }, w)

/-- `fs_close`: the handle keeps its fields. -/
def fsClose (e : FsEnv Digest σ) (w : World Digest σ) (h : Cfs) : Int × World Digest σ :=
  reeClose e w h.fd

/-- `fs_lseek`: a whence other than `SET` and `CUR` is sent out, and its answer returned, but the
position stays. -/
def fsLseek (e : FsEnv Digest σ) (w : World Digest σ) (h : Cfs) (offset : UInt32)
    (whence : Int) : UInt32 × Cfs × World Digest σ :=
  let (r, w) := reeLseek e w h.fd offset whence
  if r = 0xFFFFFFFF then (r, h, w)
  else if whence = seekCur then (r, { h with filepos := h.filepos + offset }, w)
  else if whence = seekSet then (r, { h with filepos := offset }, w)
  else (r, h, w)

/-! ## 3. `fs_write` -/

/-- The number of the block that holds a file position: block 0 is the info block. -/
def blkOf (filepos : UInt32) : UInt32 := filepos / 940 + 1

/-- The offset of a file position in its block. -/
def blkOffset (filepos : UInt32) : Nat := (filepos % 940).toNat

/-- The first half of a round of `fs_write`: seek to the block and read it.  A missing block
becomes an empty one with the block structure as it is; anything else than a full block that
verifies is refused. -/
def fetchBlk (e : FsEnv Digest σ) (w : World Digest σ) (h : Cfs) (blk : CfsBlk Digest)
    (data : CfsData) : Option (CfsBlk Digest × CfsData) × World Digest σ :=
  let blknum := blkOf h.filepos
  let (r, w) := reeLseek e w h.fd (blknum * 1024) seekSet
  if r ≠ 0 then (none, w)
  else
    let (n, blk, w) := reeRead e w h.fd blk
    if n < 0 then (none, w)
    else if n = 1024 then
      let (r, data) := fsDecryptAndVerify e.crypto blk h.keyData.toList data blknum
      if r ≠ 0 then (none, w) else (some (blk, data), w)
    else if n = 0 then (some (blk, Bytes.zero 944), w)
    else (none, w)

/-- The second half: encrypt the block and write it back.  The IV is the one already in the block
structure. -/
def storeBlk (e : FsEnv Digest σ) (w : World Digest σ) (h : Cfs) (blk : CfsBlk Digest)
    (data : CfsData) : Option (CfsBlk Digest) × World Digest σ :=
  let blknum := blkOf h.filepos
  let (blk, w) := encryptBlk e w blk h.keyData.toList data blknum
  let (r, w) := reeLseek e w h.fd (blknum * 1024) seekSet
  if r ≠ 0 then (none, w)
  else
    let (n, w) := reeWrite e w h.fd blk
    if n ≠ 1024 then (none, w) else (some blk, w)

/-- The `do … while` of `fs_write` from a state with the bytes `buf` still to be written.  `blk`
and `data` live across the rounds.  A round takes at least one byte unless it is the last one, so
`buf.length + 1` rounds are enough.  The check that the new count fits the block is left out: it
is at most 940. -/
def writeLoop (e : FsEnv Digest σ) :
    Nat → World Digest σ → Cfs → CfsBlk Digest → CfsData → List UInt8 →
      Option Cfs × World Digest σ
  | 0, w, _, _, _, _ => (none, w)
  | fuel + 1, w, h, blk, data, buf =>
    match fetchBlk e w h blk data with
    | (none, w) => (none, w)
    | (some (blk, data), w) =>
      let off := blkOffset h.filepos
      let chunk := buf.take (cfsBlkSize - off)
      let data := dataBlk data off chunk
      match storeBlk e w h blk data with
      | (none, w) => (none, w)
      | (some blk, w) =>
        let h := { h with filepos := h.filepos + UInt32.ofNat chunk.length }
        let rest := buf.drop (cfsBlkSize - off)
        if rest = [] then (some h, w) else writeLoop e fuel w h blk data rest

/-- `fs_write`: the number of bytes written, or -1 with the position restored. -/
def fsWrite (e : FsEnv Digest σ) (w : World Digest σ) (h : Cfs) (buf : List UInt8)
    (stk : FsStack Digest) : Int × Cfs × World Digest σ :=
  if e.initMagic = false then (-1, h, w)
  else
    match writeLoop e (buf.length + 1) w h stk.blk stk.data buf with
    | (some h', w) => (toInt32 (UInt32.ofNat buf.length), h', w)
    | (none, w) => (-1, h, w)

/-! ## 4. Sequences of operations -/

/-- What a client of the file system does. -/
inductive FsOp (Digest : Type) where
  | open (storename filename : List UInt8) (flags mode : Int) (stk : FsStack Digest)
  | lseek (offset : UInt32) (whence : Int)
  | write (buf : List UInt8) (stk : FsStack Digest)
  | close

/-- The world and the client's handle. -/
structure FsState (Digest σ : Type) where
  world : World Digest σ
  handle : Cfs

/-- One operation on the client's handle. -/
def fsStep (e : FsEnv Digest σ) (s : FsState Digest σ) : FsOp Digest → FsState Digest σ
  | .open storename filename flags mode stk =>
    let (_, h, w) := fsOpen e s.world s.handle storename filename flags mode stk
    ⟨w, h⟩
  | .lseek offset whence =>
    let (_, h, w) := fsLseek e s.world s.handle offset whence
    ⟨w, h⟩
  | .write buf stk =>
    let (_, h, w) := fsWrite e s.world s.handle buf stk
    ⟨w, h⟩
  | .close =>
    let (_, w) := fsClose e s.world s.handle
    ⟨w, s.handle⟩

end AndixOs.Fs
