/-
# Where a seek ends

`fs_lseek` moves two positions: that of the encrypted file in the normal world, which the host's
`lseek` decides about, and that of the handle, which counts plaintext bytes.  The two drift apart with
every block that is read or written, and the handle follows by plain `uint32_t` arithmetic.  So the
host can take a seek that leads before the start of the plaintext file.

The service is any that answers a seek as the daemon does (`SeeksByDaemon`), over a host with a 32-bit
or a 64-bit `off_t`.  `fsLseek_right_iff` says exactly when a call does what is expected of it, in every
state of the handle and the host, and `seeks_right_iff` when all seeks of a run do.
-/
import AndixOs.Fs.Content
import AndixOs.Fs.Read
import AndixOs.Service.Refine

namespace AndixOs.Fs

open AndixOs

/-! ## 1. The host's `lseek` -/

/-- The largest `off_t`. -/
def offMax (wide : Bool) : Int := if wide then 9223372036854775807 else 2147483647

/-- A `uint32_t` as an `off_t`. -/
def toOff (wide : Bool) (offset : UInt32) : Int := if wide then offset.toNat else toInt32 offset

/-- `lseek` of the host, for a descriptor at position `pos`: `none` where it fails, since the
descriptor is closed or the target is negative or no `off_t`. -/
def hostSeek (wide : Bool) (pos : Option Nat) (offset whence : UInt32) : Option Nat :=
  match pos with
  | none => none
  | some pos =>
    let target := if whence = Service.seekCur then pos + toOff wide offset else toOff wide offset
    if 0 ≤ target ∧ target ≤ offMax wide then some target.toNat else none

/-- A host that is only asked to seek. -/
def seekOs (wide : Bool) (pos : Option Nat) : Service.Os := fun _ call =>
  match call with
  | .lseek _ offset whence => ⟨0, [], 0, 0, hostSeek wide pos offset whence, false⟩
  | _ => ⟨-1, [], 0, 0, none, false⟩

/-- The `TZ_CTLR_SPACE` of a seek, as `ree_lseek` fills it in. -/
def seekSpace (fd offset whence : UInt32) : Service.TzCtlrSpace :=
  (((⟨Service.tzCtrlReeFsLseek, 0, Bytes.zero _⟩ : Service.TzCtlrSpace).setWord Service.fdAt
    fd).setWord Service.offsetAt offset).setWord Service.whenceAt whence

/-- What `tz_fs_lseek` of the daemon leaves in `ret`. -/
def daemonSeek (wide : Bool) (pos : Option Nat) (fd offset whence : UInt32) : UInt32 :=
  (Service.tzFsLseek (seekOs wide pos) [] (seekSpace fd offset whence)).1.ret

theorem daemonSeek_eq (wide : Bool) (pos : Option Nat) (fd offset whence : UInt32) :
    daemonSeek wide pos fd offset whence =
      if whence = 1 ∨ whence = 0 then
        (hostSeek wide pos offset whence).elim 0xFFFFFFFF UInt32.ofNat
      else 0xFFFFFFFF := by
  have hoffset : (seekSpace fd offset whence).word Service.offsetAt = offset := by
    rw [seekSpace, Service.TzCtlrSpace.word_setWord_other _ _ (by decide),
      Service.TzCtlrSpace.word_setWord _ _ (by decide)]
  have hwhence : (seekSpace fd offset whence).word Service.whenceAt = whence :=
    Service.TzCtlrSpace.word_setWord _ _ (by decide)
  rw [daemonSeek, Service.tzFsLseek]
  simp only [hoffset, hwhence, Service.posix, seekOs]
  split_ifs with hboth hcur
  · rw [hcur]
    rfl
  · rw [hboth.resolve_left hcur]
    rfl
  · rfl

/-! ## 2. `fs_lseek` -/

variable {Digest σ : Type}

/-- The service answers a seek as the daemon does, for a file at the position that `pos` says. -/
structure SeeksByDaemon (e : FsEnv Digest σ) (wide : Bool) (pos : σ → Int → Option Nat) : Prop where
  answer : ∀ store fd offset whence, (e.serve store (.lseek fd offset whence)).1.ret =
    daemonSeek wide (pos store fd) (UInt32.ofInt fd) offset (UInt32.ofInt whence)

/-- Where a seek is to end: at the offset, or the offset from the position of the handle.  The offset is
a signed number. -/
def seekTarget (h : Cfs) (offset : UInt32) (whence : Int) : Int :=
  if whence = seekCur then h.filepos.toNat + toInt32 offset else toInt32 offset

/-- What is asked of a seek: it fails and leaves the position, or it succeeds, with `SET` or `CUR`, and
the position is the target, which is a 32-bit number. -/
def SeekRight (h : Cfs) (offset : UInt32) (whence : Int) (r : UInt32) (h' : Cfs) : Prop :=
  (r = 0xFFFFFFFF ∧ h'.filepos = h.filepos) ∨
    (r ≠ 0xFFFFFFFF ∧ (whence = seekSet ∨ whence = seekCur) ∧
      (h'.filepos.toNat : Int) = seekTarget h offset whence)

instance (h : Cfs) (offset : UInt32) (whence : Int) (r : UInt32) (h' : Cfs) :
    Decidable (SeekRight h offset whence r h') := inferInstanceAs (Decidable (_ ∨ _))

/-- The host refuses, or reaches a position that looks like an error. -/
def SeekRefused (wide : Bool) (pos : Option Nat) (offset : UInt32) (whence : Int) : Prop :=
  ∀ n, hostSeek wide pos offset (UInt32.ofInt whence) = some n → n % 4294967296 = 4294967295

/-- The word of a whence is the one of the daemon's constants if the whence is. -/
theorem whence_word {whence : Int32} {n : Nat} (hn : n < 2) :
    UInt32.ofInt whence.toInt = UInt32.ofNat n ↔ whence.toInt = n := by
  have hlo := whence.le_toInt
  have hhi := whence.toInt_lt
  rw [← UInt32.toNat_inj, UInt32.ofInt, UInt32.toNat_ofNat', UInt32.toNat_ofNat']
  omega

/-- The position that the handle gets, as a 32-bit number, is the target if that is one. -/
theorem target_iff (h : Cfs) (offset : UInt32) (whence : Int) :
    (((if whence = seekCur then h.filepos + offset else offset).toNat : Int) =
        seekTarget h offset whence ↔
      0 ≤ seekTarget h offset whence ∧ seekTarget h offset whence < 4294967296) := by
  have hoff := offset.toNat_lt
  have hpos := h.filepos.toNat_lt
  rw [seekTarget, toInt32]
  by_cases hcur : whence = seekCur
  · simp only [if_pos hcur, UInt32.toNat_add]
    split_ifs <;> omega
  · simp only [if_neg hcur]
    split_ifs <;> omega

/-- The host refuses exactly if the daemon reports an error. -/
theorem seekRefused_iff (wide : Bool) (pos : Option Nat) (fd offset : UInt32) {whence : Int32}
    (hw : whence.toInt = seekSet ∨ whence.toInt = seekCur) :
    SeekRefused wide pos offset whence.toInt ↔
      daemonSeek wide pos fd offset (UInt32.ofInt whence.toInt) = 0xFFFFFFFF := by
  have hcur : UInt32.ofInt whence.toInt = 1 ↔ whence.toInt = seekCur :=
    whence_word (n := 1) (by decide)
  have hset : UInt32.ofInt whence.toInt = 0 ↔ whence.toInt = seekSet :=
    whence_word (n := 0) (by decide)
  simp only [daemonSeek_eq, hcur, hset, if_pos hw.symm, SeekRefused]
  cases hostSeek wide pos offset (UInt32.ofInt whence.toInt) with
  | none => exact iff_of_true nofun rfl
  | some n =>
    have hword : UInt32.ofNat n = 0xFFFFFFFF ↔ n % 4294967296 = 4294967295 := by
      rw [← UInt32.toNat_inj, UInt32.toNat_ofNat']
      rfl
    rw [Option.elim_some, hword]
    exact ⟨fun h => h n rfl, fun h m hm => Option.some.inj hm ▸ h⟩

/-- A whence that the daemon does not know. -/
theorem daemonSeek_other (wide : Bool) (pos : Option Nat) (fd offset : UInt32) {whence : Int32}
    (hw : ¬ (whence.toInt = seekSet ∨ whence.toInt = seekCur)) :
    daemonSeek wide pos fd offset (UInt32.ofInt whence.toInt) = 0xFFFFFFFF := by
  have hcur : UInt32.ofInt whence.toInt = 1 ↔ whence.toInt = seekCur :=
    whence_word (n := 1) (by decide)
  have hset : UInt32.ofInt whence.toInt = 0 ↔ whence.toInt = seekSet :=
    whence_word (n := 0) (by decide)
  simp only [daemonSeek_eq, hcur, hset]
  exact if_neg fun h => hw h.symm

/-- The call with the answer of the daemon. -/
theorem fsLseek_daemon {e : FsEnv Digest σ} {wide : Bool} {pos : σ → Int → Option Nat}
    (hd : SeeksByDaemon e wide pos) (w : World Digest σ) (h : Cfs) (offset : UInt32)
    (whence : Int) :
    ∃ w', fsLseek e w h offset whence =
      if daemonSeek wide (pos w.store h.fd) (UInt32.ofInt h.fd) offset (UInt32.ofInt whence) =
        0xFFFFFFFF then (0xFFFFFFFF, h, w')
      else if whence = seekCur then (0, { h with filepos := h.filepos + offset }, w')
      else if whence = seekSet then (0, { h with filepos := offset }, w')
      else (0, h, w') := by
  have hzero : ¬ (0 : UInt32) = 0xFFFFFFFF := by decide
  refine ⟨(reeLseek e w h.fd offset whence).2, ?_⟩
  simp only [fsLseek, reeLseek, serviceDoRequest, hd.answer]
  by_cases hret : daemonSeek wide (pos w.store h.fd) (UInt32.ofInt h.fd) offset
      (UInt32.ofInt whence) = 0xFFFFFFFF
  · simp only [if_pos hret, if_true]
  · simp only [if_neg hret, if_neg hzero]

/-- When a seek does what is expected of it: its whence is neither `SET` nor `CUR`, or the target
is a 32-bit number, or the host refuses it. -/
theorem fsLseek_right_iff {e : FsEnv Digest σ} {wide : Bool} {pos : σ → Int → Option Nat}
    (hd : SeeksByDaemon e wide pos) (w : World Digest σ) (h : Cfs) (offset : UInt32)
    (whence : Int32) :
    SeekRight h offset whence.toInt (fsLseek e w h offset whence.toInt).1
        (fsLseek e w h offset whence.toInt).2.1 ↔
      (whence.toInt ≠ seekSet ∧ whence.toInt ≠ seekCur) ∨
        (0 ≤ seekTarget h offset whence.toInt ∧ seekTarget h offset whence.toInt < 4294967296) ∨
        SeekRefused wide (pos w.store h.fd) offset whence.toInt := by
  obtain ⟨w', hseek⟩ := fsLseek_daemon hd w h offset whence.toInt
  have hzero : (0 : UInt32) ≠ 0xFFFFFFFF := by decide
  by_cases hw : whence.toInt = seekSet ∨ whence.toInt = seekCur
  · have hother : ¬ (whence.toInt ≠ seekSet ∧ whence.toInt ≠ seekCur) := by
      rintro ⟨hset, hcur⟩
      exact hw.elim hset hcur
    have hrefused := seekRefused_iff wide (pos w.store h.fd) (UInt32.ofInt h.fd) offset hw
    rw [or_iff_right hother, ← target_iff, hseek, hrefused]
    by_cases hret : daemonSeek wide (pos w.store h.fd) (UInt32.ofInt h.fd) offset
        (UInt32.ofInt whence.toInt) = 0xFFFFFFFF
    · rw [if_pos hret]
      exact iff_of_true (Or.inl ⟨rfl, rfl⟩) (Or.inr hret)
    · rw [if_neg hret, or_iff_left hret]
      rcases hw with hset | hcur
      · simp [SeekRight, hset, hzero, seekSet, seekCur]
      · simp [SeekRight, hcur, hzero]
  · rw [hseek, if_pos (daemonSeek_other wide _ _ offset hw)]
    exact iff_of_true (Or.inl ⟨rfl, rfl⟩) (Or.inl (not_or.mp hw))

/-! ## 3. Runs -/

/-- What the holder of a handle does. -/
inductive CfsOp (Digest : Type) where
  | read (buf : Nat → UInt8) (count : UInt32) (stk : FsStack Digest)
  | write (buf : List UInt8) (stk : FsStack Digest)
  | lseek (offset : UInt32) (whence : Int32)

variable [DecidableEq Digest]

/-- One operation on the handle. -/
def cfsStep (e : FsEnv Digest σ) (s : FsState Digest σ) : CfsOp Digest → FsState Digest σ
  | .read buf count stk =>
    match fsRead e s.world s.handle buf count stk with
    | none => s
    | some r => ⟨r.world, r.handle⟩
  | .write buf stk =>
    let (_, h, w) := fsWrite e s.world s.handle buf stk
    ⟨w, h⟩
  | .lseek offset whence =>
    let (_, h, w) := fsLseek e s.world s.handle offset whence.toInt
    ⟨w, h⟩

/-- The operation, if it is a seek, does what is expected of it. -/
def SeeksRight (e : FsEnv Digest σ) (s : FsState Digest σ) : CfsOp Digest → Prop
  | .lseek offset whence =>
    SeekRight s.handle offset whence.toInt (fsLseek e s.world s.handle offset whence.toInt).1
      (fsLseek e s.world s.handle offset whence.toInt).2.1
  | _ => True

/-- The operation, if it is a seek with `SET` or `CUR`, leads to a 32-bit number or is refused by the
host. -/
def SeeksInRange (wide : Bool) (pos : σ → Int → Option Nat) (s : FsState Digest σ) :
    CfsOp Digest → Prop
  | .lseek offset whence => (whence.toInt ≠ seekSet ∧ whence.toInt ≠ seekCur) ∨
    (0 ≤ seekTarget s.handle offset whence.toInt ∧
      seekTarget s.handle offset whence.toInt < 4294967296) ∨
    SeekRefused wide (pos s.world.store s.handle.fd) offset whence.toInt
  | _ => True

/-- **The seeks of a run do what is expected of them** exactly if each leads to a 32-bit number or is
refused. -/
theorem seeks_right_iff {e : FsEnv Digest σ} {wide : Bool} {pos : σ → Int → Option Nat}
    (hd : SeeksByDaemon e wide pos) (ops : List (CfsOp Digest)) (s : FsState Digest σ) :
    EveryStep (cfsStep e) (SeeksRight e) s ops ↔
      EveryStep (cfsStep e) (SeeksInRange wide pos) s ops := by
  induction ops generalizing s with
  | nil => exact Iff.rfl
  | cons op ops ih =>
    refine and_congr ?_ (ih _)
    cases op with
    | read buf count stk => exact Iff.rfl
    | write buf stk => exact Iff.rfl
    | lseek offset whence => exact fsLseek_right_iff hd s.world s.handle offset whence

/-! ## 4. A seek before the start -/

/-- The honest store, with the daemon and a host with a 32-bit `off_t` in the place of its `lseek`. -/
def seekServe (d : Disk SymDigest) : ReeRequest SymDigest → ReeAnswer SymDigest × Disk SymDigest
  | .lseek fd offset whence =>
    let word := UInt32.ofInt whence
    let ret := daemonSeek false ((d.fds fd).map Prod.snd) (UInt32.ofInt fd) offset word
    match d.fds fd, hostSeek false ((d.fds fd).map Prod.snd) offset word with
    | some (nm, _), some n =>
      (⟨ret, zeroBlk, 0⟩, if word = 0 ∨ word = 1 then d.moved fd nm n else d)
    | _, _ => (⟨ret, zeroBlk, 0⟩, d)
  | req => Disk.serve zeroBlk d req

def seekEnv : FsEnv SymDigest (Disk SymDigest) :=
  ⟨symCrypto, fun n => UInt8.ofNat n, seekServe, true, Bytes.zero 32⟩

/-- The host's position of a descriptor. -/
def diskPos (d : Disk SymDigest) (fd : Int) : Option Nat := (d.fds fd).map Prod.snd

theorem seeksByDaemon_seekEnv : SeeksByDaemon seekEnv false diskPos where
  answer store fd offset whence := by
    simp only [seekEnv, seekServe, diskPos]
    split <;> rfl

/-- A handle on a new file. -/
def seekStart : FsState SymDigest (Disk SymDigest) :=
  let (_, h, w) := fsOpen seekEnv ⟨Disk.empty, 0, []⟩ ⟨-1, 0, Bytes.zero 32⟩ [1] [2] 0 0 zeroStack
  ⟨w, h⟩

/-- Ten bytes are written, and the handle is moved back by `back` of them. -/
def backOps (back : UInt32) : List (CfsOp SymDigest) :=
  [.write [0, 1, 2, 3, 4, 5, 6, 7, 8, 9] zeroStack, .lseek (0 - back) 1]

/-- Five bytes back. -/
theorem seeks_right_iff_five : EveryStep (cfsStep seekEnv) (SeeksRight seekEnv) seekStart (backOps 5) ↔
    EveryStep (cfsStep seekEnv) (SeeksInRange false diskPos) seekStart (backOps 5) :=
  seeks_right_iff seeksByDaemon_seekEnv (backOps 5) seekStart

/-- **A seek to 90 bytes before the start of a file succeeds**: the encrypted file stands at 2048, and
the handle ends at 4294967206. -/
theorem seek_before_start :
    let s := exec (cfsStep seekEnv) seekStart ((backOps 100).take 1)
    s.handle.filepos = 10 ∧ (fsLseek seekEnv s.world s.handle (0 - 100) seekCur).1 = 0 ∧
      (fsLseek seekEnv s.world s.handle (0 - 100) seekCur).2.1.filepos = 4294967206 ∧
      ¬ EveryStep (cfsStep seekEnv) (SeeksRight seekEnv) seekStart (backOps 100) := by
  refine ⟨by decide +kernel, by decide +kernel, by decide +kernel, ?_⟩
  rintro ⟨_, hseek, _⟩
  have hwrong : ¬ SeeksRight seekEnv (exec (cfsStep seekEnv) seekStart ((backOps 100).take 1))
      (.lseek (0 - 100) 1) := by
    unfold SeeksRight
    decide +kernel
  exact hwrong hseek

end AndixOs.Fs
