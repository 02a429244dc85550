/-
# An honest block store

The store that a caller of the secure file system hopes for: files of whole blocks under the hashes of
their names, and descriptors with a position each.  A read gives what was written last, a write behind
the end leaves holes, and nothing fails.

`fs.c` seeks before it reads or writes a block, to the block number times 1024 as a `uint32_t`.  So
block `n` is the one with number `n` only below `2 ^ 22` (`blkIdx_eq`); any other block number comes
out as a small one again.

* `fetchBlk_disk`, `storeBlk_disk`: the two halves of a round of `fs_write` on this store.
-/
import AndixOs.Fs.OpenName

namespace AndixOs.Fs

open AndixOs

variable {Digest : Type}

/-! ## 1. The store -/

/-- A file goes by the hashes of its store's name and of its own. -/
abbrev FileName := Bytes 32 × Bytes 32

/-- Files, and descriptors: the file of each, and its position in bytes. -/
structure Disk (Digest : Type) where
  files : FileName → List (CfsBlk Digest)
  fds : Int → Option (FileName × Nat)
  opened : Nat

/-- No file has been written yet. -/
def Disk.empty : Disk Digest := ⟨fun _ => [], fun _ => none, 0⟩

/-- The file of a descriptor. -/
def Disk.name (d : Disk Digest) (fd : Int) : Option FileName := (d.fds fd).map Prod.fst

/-- The descriptor stands elsewhere. -/
def Disk.moved (d : Disk Digest) (fd : Int) (nm : FileName) (pos : Nat) : Disk Digest :=
  { d with fds := Function.update d.fds fd (some (nm, pos)) }

/-- Block `n` of a file is written.  What lies between the end and the block becomes a hole. -/
def setBlk (hole : CfsBlk Digest) (blks : List (CfsBlk Digest)) (n : Nat) (b : CfsBlk Digest) :
    List (CfsBlk Digest) :=
  blks.take n ++ List.replicate (n - blks.length) hole ++ b :: blks.drop (n + 1)

def Disk.put (hole : CfsBlk Digest) (d : Disk Digest) (nm : FileName) (n : Nat)
    (b : CfsBlk Digest) : Disk Digest :=
  { d with files := Function.update d.files nm (setBlk hole (d.files nm) n b) }

/-- The answer to a request.  `open` creates, and has as many descriptors as an `int` has positive
values; `read` and `write` move a whole block; `lseek` knows `SET` and `CUR`. -/
def Disk.serve (hole : CfsBlk Digest) (d : Disk Digest) :
    ReeRequest Digest → ReeAnswer Digest × Disk Digest
  | .open dirname filename _ _ =>
    if d.opened + 1 < 2147483648 then
      (⟨UInt32.ofNat (d.opened + 1), hole, 0⟩,
        { (d.moved (d.opened + 1) (dirname, filename) 0) with opened := d.opened + 1 })
    else (⟨0xFFFFFFFF, hole, 0⟩, d)
  | .close fd =>
    match d.fds fd with
    | none => (⟨0xFFFFFFFF, hole, 0⟩, d)
    | some _ => (⟨0, hole, 0⟩, { d with fds := Function.update d.fds fd none })
  | .read fd count =>
    match d.fds fd with
    | none => (⟨0xFFFFFFFF, hole, 0⟩, d)
    | some (nm, pos) =>
      if count = 1024 ∧ pos % 1024 = 0 then
        match (d.files nm)[pos / 1024]? with
        | none => (⟨0, hole, 0⟩, d)
        | some b => (⟨1024, b, 0⟩, d.moved fd nm (pos + 1024))
      else (⟨0xFFFFFFFF, hole, 0⟩, d)
  | .write fd buffer count =>
    match d.fds fd with
    | none => (⟨0xFFFFFFFF, hole, 0⟩, d)
    | some (nm, pos) =>
      if count = 1024 ∧ pos % 1024 = 0 then
        (⟨1024, hole, 0⟩, (d.put hole nm (pos / 1024) buffer).moved fd nm (pos + 1024))
      else (⟨0xFFFFFFFF, hole, 0⟩, d)
  | .fstat fd =>
    match d.fds fd with
    | none => (⟨0xFFFFFFFF, hole, 0⟩, d)
    | some (nm, _) => (⟨0, hole, UInt32.ofNat (1024 * (d.files nm).length)⟩, d)
  | .lseek fd offset whence =>
    match d.fds fd with
    | none => (⟨0xFFFFFFFF, hole, 0⟩, d)
    | some (nm, pos) =>
      if whence = seekSet then (⟨offset, hole, 0⟩, d.moved fd nm offset.toNat)
      else if whence = seekCur ∧ 0 ≤ pos + toInt32 offset then
        (⟨UInt32.ofInt (pos + toInt32 offset), hole, 0⟩,
          d.moved fd nm (pos + toInt32 offset).toNat)
      else (⟨0xFFFFFFFF, hole, 0⟩, d)

/-- The environment with this store. -/
def diskEnv (c : FsCrypto Digest) (random : Nat → UInt8) (secret : Bytes 32)
    (hole : CfsBlk Digest) : FsEnv Digest (Disk Digest) :=
  ⟨c, random, Disk.serve hole, true, secret⟩

variable {c : FsCrypto Digest} {random : Nat → UInt8} {secret : Bytes 32} {hole : CfsBlk Digest}
  {d : Disk Digest} {w : World Digest (Disk Digest)} {fd : Int} {nm : FileName} {pos : Nat}

@[simp] theorem Disk.moved_files : (d.moved fd nm pos).files = d.files := rfl

@[simp] theorem Disk.moved_opened : (d.moved fd nm pos).opened = d.opened := rfl

@[simp] theorem Disk.put_fds {n : Nat} {b : CfsBlk Digest} : (d.put hole nm n b).fds = d.fds := rfl

@[simp] theorem Disk.moved_fds : (d.moved fd nm pos).fds fd = some (nm, pos) :=
  Function.update_self _ _ _

@[simp] theorem diskEnv_crypto (c : FsCrypto Digest) (random : Nat → UInt8) (secret : Bytes 32)
    (hole : CfsBlk Digest) : (diskEnv c random secret hole).crypto = c := rfl

/-- The secret has been set. -/
theorem diskEnv_initMagic (c : FsCrypto Digest) (random : Nat → UInt8) (secret : Bytes 32)
    (hole : CfsBlk Digest) : (diskEnv c random secret hole).initMagic ≠ false := Bool.noConfusion

/-- A descriptor that moves stays with its file. -/
theorem Disk.moved_name (h : d.name fd = some nm) (pos : Nat) : (d.moved fd nm pos).name = d.name := by
  funext fd'
  rcases eq_or_ne fd' fd with rfl | hne
  · rw [h]
    exact congrArg (Option.map Prod.fst) Disk.moved_fds
  · exact congrArg (Option.map Prod.fst) (Function.update_of_ne hne _ _)

/-- The descriptors are those of before, with other positions. -/
structure Disk.SameFds (d d' : Disk Digest) : Prop where
  name : d'.name = d.name
  opened : d'.opened = d.opened

theorem Disk.SameFds.rfl : d.SameFds d := ⟨Eq.refl _, Eq.refl _⟩

theorem Disk.SameFds.trans {d' d'' : Disk Digest} (h : d.SameFds d') (h' : d'.SameFds d'') :
    d.SameFds d'' := ⟨h'.name.trans h.name, h'.opened.trans h.opened⟩

theorem Disk.sameFds_moved (h : d.name fd = some nm) (pos : Nat) : d.SameFds (d.moved fd nm pos) :=
  ⟨Disk.moved_name h pos, Eq.refl _⟩

theorem Disk.sameFds_put {n : Nat} {b : CfsBlk Digest} : d.SameFds (d.put hole nm n b) :=
  ⟨Eq.refl _, Eq.refl _⟩

/-- The world with the descriptor elsewhere. -/
def World.moved (w : World Digest (Disk Digest)) (fd : Int) (nm : FileName) (pos : Nat) :
    World Digest (Disk Digest) := { w with store := w.store.moved fd nm pos }

@[simp] theorem World.moved_store : (w.moved fd nm pos).store = w.store.moved fd nm pos := rfl

theorem World.moved_fds : (w.moved fd nm pos).store.fds fd = some (nm, pos) := Disk.moved_fds

/-- The world after a write of a block. -/
def World.wrote (hole : CfsBlk Digest) (w : World Digest (Disk Digest)) (fd : Int) (nm : FileName)
    (pos : Nat) (b : CfsBlk Digest) : World Digest (Disk Digest) :=
  { w with store := (w.store.put hole nm (pos / 1024) b).moved fd nm (pos + 1024) }

/-- The world with a new descriptor. -/
def World.opening (w : World Digest (Disk Digest)) (nm : FileName) : World Digest (Disk Digest) :=
  { w with store := { (w.store.moved (w.store.opened + 1) nm 0) with opened := w.store.opened + 1 } }

theorem World.opening_fds :
    (w.opening nm).store.fds (w.store.opened + 1) = some (nm, 0) := Disk.moved_fds

theorem World.opening_name : (w.opening nm).store.name =
    Function.update w.store.name (w.store.opened + 1 : Int) (some nm) := by
  funext fd
  rcases eq_or_ne fd (w.store.opened + 1) with rfl | hne
  · rw [Function.update_self]
    exact congrArg (Option.map Prod.fst) World.opening_fds
  · rw [Function.update_of_ne hne]
    exact congrArg (Option.map Prod.fst) (Function.update_of_ne hne _ _)

/-! ## 2. Blocks of a file -/

variable {blks : List (CfsBlk Digest)} {b : CfsBlk Digest} {n m : Nat}

theorem length_setBlk : (setBlk hole blks n b).length = max blks.length (n + 1) := by
  simp only [setBlk, List.length_append, List.length_take, List.length_replicate, List.length_cons,
    List.length_drop]
  omega

/-- The block that was written. -/
theorem setBlk_self : (setBlk hole blks n b)[n]? = some b := by
  have hlen : (blks.take n ++ List.replicate (n - blks.length) hole).length = n := by
    rw [List.length_append, List.length_take, List.length_replicate]
    omega
  rw [setBlk, List.getElem?_append_right hlen.le, hlen, Nat.sub_self, List.getElem?_cons_zero]

/-- Any other block of the file. -/
theorem setBlk_other (hne : m ≠ n) (hm : m < blks.length) :
    (setBlk hole blks n b)[m]? = blks[m]? := by
  have hlen : (blks.take n ++ List.replicate (n - blks.length) hole).length = n := by
    rw [List.length_append, List.length_take, List.length_replicate]
    omega
  rcases Nat.lt_or_gt_of_ne hne with hlt | hgt
  · have htake : m < (blks.take n).length := by
      rw [List.length_take]
      omega
    rw [setBlk, List.getElem?_append_left (hlen.symm ▸ hlt), List.getElem?_append_left htake,
      List.getElem?_take_of_lt hlt]
  · obtain ⟨k, rfl⟩ := Nat.exists_eq_add_of_lt hgt
    rw [setBlk, List.getElem?_append_right (by omega), hlen,
      show n + k + 1 - n = k + 1 by omega, List.getElem?_cons_succ, List.getElem?_drop]
    congr 1
    omega

/-- The number of the block that a seek to block `blknum` ends at. -/
def blkIdx (blknum : UInt32) : Nat := (blknum * 1024).toNat / 1024

theorem toNat_mul_1024 (blknum : UInt32) :
    (blknum * 1024).toNat = 1024 * (blknum.toNat % 4194304) := by
  rw [UInt32.toNat_mul]
  have h1024 : (1024 : UInt32).toNat = 1024 := by decide
  rw [h1024]
  omega

theorem blkIdx_mod (blknum : UInt32) : blkIdx blknum = blknum.toNat % 4194304 := by
  rw [blkIdx, toNat_mul_1024, Nat.mul_div_cancel_left _ (by decide)]

/-- Below `2 ^ 22` it is the block with its number. -/
theorem blkIdx_eq {blknum : UInt32} (h : blknum.toNat < 4194304) :
    blkIdx blknum = blknum.toNat := by
  rw [blkIdx_mod, Nat.mod_eq_of_lt h]

theorem blkOf_toNat (filepos : UInt32) : (blkOf filepos).toNat = filepos.toNat / 940 + 1 := by
  have hlt := filepos.toNat_lt
  rw [blkOf, UInt32.toNat_add, UInt32.toNat_div]
  have h940 : (940 : UInt32).toNat = 940 := by decide
  have h1 : (1 : UInt32).toNat = 1 := by decide
  rw [h940, h1]
  omega

theorem blkOffset_eq (filepos : UInt32) : blkOffset filepos = filepos.toNat % 940 := by
  rw [blkOffset, UInt32.toNat_mod]
  rfl

/-! ## 3. Requests -/

/-- A seek from the start. -/
theorem reeLseek_set (h : w.store.name fd = some nm) (offset : UInt32) :
    reeLseek (diskEnv c random secret hole) w fd offset seekSet =
      (if offset = 0xFFFFFFFF then 0xFFFFFFFF else 0, w.moved fd nm offset.toNat) := by
  obtain ⟨⟨nm', pos⟩, hfd, rfl⟩ := Option.map_eq_some_iff.mp h
  simp only [reeLseek, serviceDoRequest, diskEnv, Disk.serve, hfd, if_true, World.moved]

/-- A seek to a block. -/
theorem reeLseek_disk (h : w.store.name fd = some nm) (blknum : UInt32) :
    reeLseek (diskEnv c random secret hole) w fd (blknum * 1024) seekSet =
      (0, w.moved fd nm (blknum * 1024).toNat) := by
  have hoff : blknum * 1024 ≠ 0xFFFFFFFF := by
    intro heq
    have hmul := toNat_mul_1024 blknum
    rw [heq] at hmul
    have hmax : (0xFFFFFFFF : UInt32).toNat = 4294967295 := by decide
    omega
  rw [reeLseek_set h, if_neg hoff]

/-- A read behind the last block. -/
theorem reeRead_end (h : w.store.fds fd = some (nm, pos)) (hpos : pos % 1024 = 0)
    (hblk : (w.store.files nm)[pos / 1024]? = none) (buf : CfsBlk Digest) :
    reeRead (diskEnv c random secret hole) w fd buf = (0, buf, w) := by
  have h0 : toInt32 0 = 0 := by decide
  simp [reeRead, serviceDoRequest, diskEnv, Disk.serve, h, hpos, hblk, h0]

/-- A read of a block. -/
theorem reeRead_blk (h : w.store.fds fd = some (nm, pos)) (hpos : pos % 1024 = 0)
    (hblk : (w.store.files nm)[pos / 1024]? = some b) (buf : CfsBlk Digest) :
    reeRead (diskEnv c random secret hole) w fd buf = (1024, b, w.moved fd nm (pos + 1024)) := by
  have h1024 : toInt32 1024 = 1024 := by decide
  simp [reeRead, serviceDoRequest, diskEnv, Disk.serve, h, hpos, hblk, h1024, World.moved]

/-- A write of a block. -/
theorem reeWrite_disk (h : w.store.fds fd = some (nm, pos)) (hpos : pos % 1024 = 0)
    (buf : CfsBlk Digest) :
    reeWrite (diskEnv c random secret hole) w fd buf =
      (1024, w.wrote hole fd nm pos buf) := by
  have h1024 : toInt32 1024 = 1024 := by decide
  simp only [reeWrite, serviceDoRequest, diskEnv, Disk.serve, h, hpos, and_self, if_true, h1024,
    World.wrote]

/-- The descriptor that `open` gives out. -/
theorem reeOpen_disk (c : FsCrypto Digest) (random : Nat → UInt8) (secret : Bytes 32)
    (hole : CfsBlk Digest) (w : World Digest (Disk Digest)) (st fn : Bytes 32) (flags mode stackMode : Int)
    (hmany : w.store.opened + 1 < 2147483648) :
    reeOpen (diskEnv c random secret hole) w st fn flags mode stackMode =
      ((w.store.opened + 1 : Int), w.opening (st, fn)) := by
  have hret : toInt32 (UInt32.ofNat (w.store.opened + 1)) = (w.store.opened + 1 : Int) := by
    rw [toInt32, UInt32.toNat_ofNat_of_lt' (by rw [UInt32.size]; omega), if_pos hmany]
    rfl
  simp only [reeOpen, serviceDoRequest, diskEnv, Disk.serve, if_pos hmany, hret]
  rfl

/-- All descriptors are in use. -/
theorem reeOpen_full (c : FsCrypto Digest) (random : Nat → UInt8) (secret : Bytes 32)
    (hole : CfsBlk Digest) (w : World Digest (Disk Digest)) (st fn : Bytes 32) (flags mode stackMode : Int)
    (hmany : 2147483648 ≤ w.store.opened + 1) :
    reeOpen (diskEnv c random secret hole) w st fn flags mode stackMode = (-1, w) := by
  have hret : toInt32 0xFFFFFFFF = -1 := by decide
  simp only [reeOpen, serviceDoRequest, diskEnv, Disk.serve, if_neg (Nat.not_lt.mpr hmany), hret]

theorem reeFstat_disk (h : w.store.name fd = some nm) (stSize : UInt32) :
    reeFstat (diskEnv c random secret hole) w fd stSize =
      (0, UInt32.ofNat (1024 * (w.store.files nm).length), w) := by
  obtain ⟨⟨nm', pos⟩, hfd, rfl⟩ := Option.map_eq_some_iff.mp h
  have h0 : toInt32 0 = 0 := by decide
  simp only [reeFstat, serviceDoRequest, diskEnv, Disk.serve, hfd, h0, if_true]

/-! ## 4. The two halves of a round of `fs_write` -/

variable [DecidableEq Digest] in
/-- What `fs_write` makes of the block that it finds, and of none. -/
def foundBlk (c : FsCrypto Digest) (key : Bytes 32) (blknum : UInt32) (blk : CfsBlk Digest)
    (data : CfsData) : Option (CfsBlk Digest) → Option (CfsBlk Digest × CfsData)
  | none => some (blk, Bytes.zero 944)
  | some b =>
    let (r, data) := fsDecryptAndVerify c b key.toList data blknum
    if r ≠ 0 then none else some (b, data)

theorem mod_toNat_mul_1024 (blknum : UInt32) : (blknum * 1024).toNat % 1024 = 0 := by
  rw [toNat_mul_1024, Nat.mul_mod_right]

variable [DecidableEq Digest] in
/-- The read half. -/
theorem fetchBlk_disk (c : FsCrypto Digest) (random : Nat → UInt8) (secret : Bytes 32)
    (hole : CfsBlk Digest) {h : Cfs} (hfd : w.store.name h.fd = some nm) (blk : CfsBlk Digest)
    (data : CfsData) :
    ∃ w', fetchBlk (diskEnv c random secret hole) w h blk data =
        (foundBlk c h.keyData (blkOf h.filepos) blk data
          (w.store.files nm)[blkIdx (blkOf h.filepos)]?, w') ∧
      w'.store.files = w.store.files ∧ w.store.SameFds w'.store := by
  have hmoved := Disk.sameFds_moved hfd (blkOf h.filepos * 1024).toNat
  simp only [fetchBlk, reeLseek_disk hfd, ne_eq, not_true_eq_false, if_false]
  rcases hblk : (w.store.files nm)[blkIdx (blkOf h.filepos)]? with _ | b
  · rw [reeRead_end World.moved_fds (mod_toNat_mul_1024 _) hblk]
    exact ⟨_, rfl, rfl, hmoved⟩
  · rw [reeRead_blk World.moved_fds (mod_toNat_mul_1024 _) hblk]
    have hnext := hmoved.trans (Disk.sameFds_moved ((congrFun hmoved.name _).trans hfd)
      ((blkOf h.filepos * 1024).toNat + 1024))
    refine ⟨(w.moved h.fd nm _).moved h.fd nm _, ?_, rfl, hnext⟩
    by_cases hv : (fsDecryptAndVerify c b h.keyData.toList data (blkOf h.filepos)).1 = 0 <;>
      simp [foundBlk, diskEnv, hv]

/-- The write half. -/
theorem storeBlk_disk (c : FsCrypto Digest) (random : Nat → UInt8) (secret : Bytes 32)
    (hole : CfsBlk Digest) {h : Cfs} (hfd : w.store.name h.fd = some nm) (blk : CfsBlk Digest)
    (data : CfsData) :
    ∃ w', storeBlk (diskEnv c random secret hole) w h blk data =
        (some (fsEncryptAndSign c blk h.keyData.toList data (blkOf h.filepos)).2, w') ∧
      w'.store.files = Function.update w.store.files nm
        (setBlk hole (w.store.files nm) (blkIdx (blkOf h.filepos))
          (fsEncryptAndSign c blk h.keyData.toList data (blkOf h.filepos)).2) ∧
      w.store.SameFds w'.store := by
  have hmoved := Disk.sameFds_moved hfd (blkOf h.filepos * 1024).toNat
  -- the record of the encryption leaves the store alone
  have hfd' : (encryptBlk (diskEnv c random secret hole) w blk h.keyData.toList data
      (blkOf h.filepos)).2.store.name h.fd = some nm := hfd
  simp only [storeBlk, reeLseek_disk hfd', ne_eq, not_true_eq_false, if_false]
  rw [reeWrite_disk Disk.moved_fds (mod_toNat_mul_1024 _)]
  have hput : w.store.SameFds (((w.store.moved h.fd nm (blkOf h.filepos * 1024).toNat).put hole nm
      (blkIdx (blkOf h.filepos))
      (fsEncryptAndSign c blk h.keyData.toList data (blkOf h.filepos)).2)) :=
    hmoved.trans Disk.sameFds_put
  exact ⟨_, rfl, rfl, hput.trans (Disk.sameFds_moved ((congrFun hput.name _).trans hfd) _)⟩

end AndixOs.Fs
