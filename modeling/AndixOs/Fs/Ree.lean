/-
# The normal world's file service, as the secure side calls it

The secure file system keeps nothing itself.  Every access goes to the untrusted normal world
(`ree_fs.c`): a request is written into a `TZ_CTLR_SPACE`, `service_do_request` sends it out, and
whatever comes back in the same structure is the answer.  The service here is an arbitrary state
machine (`FsEnv.serve`), so a statement about every environment is a statement about every store,
honest or not.

`World` is what a file operation can change: the store, the position in the random stream, and a
log of what was drawn from `random_fill` and what was encrypted under which key and IV.
-/
import AndixOs.Fs.Crypto

namespace AndixOs.Fs

open AndixOs

variable {Digest σ : Type}

/-! ## 1. Requests, answers, and the world -/

/-- The `TZ_CTLR_SPACE` of a request, one constructor for each `op`. -/
inductive ReeRequest (Digest : Type) where
  | open (dirname filename : Bytes 32) (flags mode : Int)
  | close (fd : Int)
  | read (fd : Int) (count : UInt32)
  | write (fd : Int) (buffer : CfsBlk Digest) (count : UInt32)
  | fstat (fd : Int)
  | lseek (fd : Int) (offset : UInt32) (whence : Int)

/-- What the normal world leaves in the `TZ_CTLR_SPACE`: `ret`, and the fields of the union that
the secure side reads back. -/
structure ReeAnswer (Digest : Type) where
  ret : UInt32
  buffer : CfsBlk Digest
  stSize : UInt32

/-- What was drawn from `random_fill`, and what `__fs_encrypt_and_sign` encrypted. -/
inductive FsEvent (Digest : Type) where
  | fill (v : List UInt8)
  | encrypt (derkey : Digest) (iv : Bytes 16) (plain : CfsData)
  deriving DecidableEq

/-- What does not change while files are used: the ciphers, the random stream, the file service,
whether `fs_set_secret` has run, and the secret it derived. -/
structure FsEnv (Digest σ : Type) where
  crypto : FsCrypto Digest
  random : Nat → UInt8
  serve : σ → ReeRequest Digest → ReeAnswer Digest × σ
  initMagic : Bool
  secretValue : Bytes 32

/-- What a file operation can change.  The log has the newest event first. -/
structure World (Digest σ : Type) where
  store : σ
  drawn : Nat
  log : List (FsEvent Digest)

/-- `service_do_request`. -/
def serviceDoRequest (e : FsEnv Digest σ) (w : World Digest σ) (r : ReeRequest Digest) :
    ReeAnswer Digest × World Digest σ :=
  ((e.serve w.store r).1, { w with store := (e.serve w.store r).2 })

/-- `random_fill` of `n` bytes. -/
def randomFill (e : FsEnv Digest σ) (w : World Digest σ) (n : Nat) :
    Bytes n × World Digest σ :=
  let v : Bytes n := ⟨(List.range n).map fun i => e.random (w.drawn + i), by simp⟩
  (v, { w with drawn := w.drawn + n, log := .fill v.toList :: w.log })

/-! ## 2. `ree_fs.c` -/

/-- A `uint32_t` read as an `int32_t`. -/
def toInt32 (r : UInt32) : Int := if r.toNat < 2147483648 then r.toNat else r.toNat - 4294967296

def seekSet : Int := 0
def seekCur : Int := 1

/-- `ree_open`.  The flags field is assigned twice, so the mode goes out as the flags, and the
mode field keeps what the stack held (`stackMode`). -/
def reeOpen (e : FsEnv Digest σ) (w : World Digest σ) (storename filename : Bytes 32)
    (_flags mode stackMode : Int) : Int × World Digest σ :=
  let (a, w) := serviceDoRequest e w (.open storename filename mode stackMode)
  (toInt32 a.ret, w)

def reeClose (e : FsEnv Digest σ) (w : World Digest σ) (fd : Int) : Int × World Digest σ :=
  let (a, w) := serviceDoRequest e w (.close fd)
  (toInt32 a.ret, w)

/-- `ree_read` of one block, the only count `fs.c` asks for: the loop makes one round, and the
buffer is written only when the answer says all 1024 bytes were read. -/
def reeRead (e : FsEnv Digest σ) (w : World Digest σ) (fd : Int) (buf : CfsBlk Digest) :
    Int × CfsBlk Digest × World Digest σ :=
  let (a, w) := serviceDoRequest e w (.read fd 1024)
  if toInt32 a.ret < 0 then (toInt32 a.ret, buf, w)
  else if toInt32 a.ret = 0 then (0, buf, w)
  else if toInt32 a.ret = 1024 then (1024, a.buffer, w)
  else (-1, buf, w)

/-- `ree_write` of one block: the bytes written, 0 after any other answer. -/
def reeWrite (e : FsEnv Digest σ) (w : World Digest σ) (fd : Int) (buf : CfsBlk Digest) :
    Int × World Digest σ :=
  let (a, w) := serviceDoRequest e w (.write fd buf 1024)
  (if toInt32 a.ret = 1024 then 1024 else 0, w)

/-- `ree_fstat`: the size is set only when the answer is 0. -/
def reeFstat (e : FsEnv Digest σ) (w : World Digest σ) (fd : Int) (stSize : UInt32) :
    Int × UInt32 × World Digest σ :=
  let (a, w) := serviceDoRequest e w (.fstat fd)
  (toInt32 a.ret, if a.ret = 0 then a.stSize else stSize, w)

/-- `ree_lseek`: 0, or `(uint32_t) -1`. -/
def reeLseek (e : FsEnv Digest σ) (w : World Digest σ) (fd : Int) (offset : UInt32)
    (whence : Int) : UInt32 × World Digest σ :=
  let (a, w) := serviceDoRequest e w (.lseek fd offset whence)
  (if a.ret = 0xFFFFFFFF then 0xFFFFFFFF else 0, w)

/-! ## 3. The service changes only the store -/

variable {e : FsEnv Digest σ} {w : World Digest σ}

@[simp] theorem serviceDoRequest_log (r : ReeRequest Digest) :
    (serviceDoRequest e w r).2.log = w.log := rfl

@[simp] theorem reeOpen_log (s f : Bytes 32) (fl m sm : Int) :
    (reeOpen e w s f fl m sm).2.log = w.log := rfl

@[simp] theorem reeClose_log (fd : Int) : (reeClose e w fd).2.log = w.log := rfl

@[simp] theorem reeRead_log (fd : Int) (b : CfsBlk Digest) :
    (reeRead e w fd b).2.2.log = w.log := by
  simp only [reeRead]
  split_ifs <;> rfl

@[simp] theorem reeWrite_log (fd : Int) (b : CfsBlk Digest) :
    (reeWrite e w fd b).2.log = w.log := rfl

@[simp] theorem reeFstat_log (fd : Int) (n : UInt32) :
    (reeFstat e w fd n).2.2.log = w.log := rfl

@[simp] theorem reeLseek_log (fd : Int) (o : UInt32) (wh : Int) :
    (reeLseek e w fd o wh).2.log = w.log := rfl

@[simp] theorem randomFill_log (n : Nat) :
    (randomFill e w n).2.log = .fill (randomFill e w n).1.toList :: w.log := rfl

end AndixOs.Fs
