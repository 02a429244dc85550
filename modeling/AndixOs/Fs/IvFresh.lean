/-
# Which blocks are encrypted under a fresh IV

`fs_open` draws a fresh IV for the info block of a new file.  `fs_write` draws none: it encrypts
under the IV that is in the block structure, which for an existing block is the IV it was read
with, and for a new block whatever the structure held before.  Rewriting a block therefore
encrypts two plaintexts under one key and one IV (`iv_reused_on_rewrite`).

The exact condition is `WriteRefused`: in a run, every block that is encrypted carries an IV
freshly drawn from `random_fill`, and no key/IV pair is used for two plaintexts, if and only if no
`fs_write` of the run gets past fetching its first block (`ivs_fresh_iff_writes_refused`).
-/
import AndixOs.Fs.File
import AndixOs.Lib.Run

namespace AndixOs.Fs

open AndixOs

variable {Digest σ : Type}

/-! ## 1. Fresh IVs and reuse, read off the log -/

/-- The values drawn since the last encryption. -/
def pending : List (FsEvent Digest) → List (List UInt8)
  | .fill v :: l => v :: pending l
  | _ => []

/-- All values drawn. -/
def fills : List (FsEvent Digest) → List (List UInt8)
  | [] => []
  | .fill v :: l => v :: fills l
  | .encrypt _ _ _ :: l => fills l

/-- Every encryption used an IV drawn for it: after the encryption before it. -/
def FreshIvs : List (FsEvent Digest) → Prop
  | [] => True
  | .fill _ :: l => FreshIvs l
  | .encrypt _ iv _ :: l => iv.toList ∈ pending l ∧ FreshIvs l

/-- Two encryptions of different plaintexts under one key and one IV. -/
def FsEvent.Reuses : FsEvent Digest → FsEvent Digest → Prop
  | .encrypt k iv p, .encrypt k' iv' p' => k = k' ∧ iv = iv' ∧ p ≠ p'
  | _, _ => False

instance [DecidableEq Digest] (a b : FsEvent Digest) : Decidable (a.Reuses b) :=
  match a, b with
  | .encrypt k iv p, .encrypt k' iv' p' =>
    inferInstanceAs (Decidable (k = k' ∧ iv = iv' ∧ p ≠ p'))
  | .fill _, _ => isFalse id
  | .encrypt _ _ _, .fill _ => isFalse id

/-- No key/IV pair is used for two plaintexts. -/
def NoKeyIvReuse (l : List (FsEvent Digest)) : Prop := ∀ a ∈ l, ∀ b ∈ l, ¬ a.Reuses b

instance [DecidableEq Digest] (l : List (FsEvent Digest)) : Decidable (NoKeyIvReuse l) :=
  inferInstanceAs (Decidable (∀ a ∈ l, ∀ b ∈ l, ¬ a.Reuses b))

/-- The IVs of the encryptions. -/
def encIvs : List (FsEvent Digest) → List (List UInt8)
  | [] => []
  | .fill _ :: l => encIvs l
  | .encrypt _ iv _ :: l => iv.toList :: encIvs l

/-- The values drawn before the last encryption. -/
def spent : List (FsEvent Digest) → List (List UInt8)
  | [] => []
  | .fill _ :: l => spent l
  | .encrypt _ _ _ :: l => fills l

theorem fills_eq_pending_append_spent :
    ∀ l : List (FsEvent Digest), fills l = pending l ++ spent l
  | [] => rfl
  | .fill v :: l => by simp [fills, pending, spent, fills_eq_pending_append_spent l]
  | .encrypt _ _ _ :: l => rfl

/-- A fresh IV is spent once its block is encrypted. -/
theorem encIvs_subset_spent : ∀ {l : List (FsEvent Digest)}, FreshIvs l →
    ∀ v ∈ encIvs l, v ∈ spent l
  | [], _, v, hv => hv
  | .fill _ :: l, h, v, hv => encIvs_subset_spent (l := l) h v hv
  | .encrypt _ iv _ :: l, h, v, hv => by
    simp only [spent, fills_eq_pending_append_spent l, List.mem_append]
    rcases List.mem_cons.mp hv with rfl | hv
    · exact Or.inl h.1
    · exact Or.inr (encIvs_subset_spent h.2 v hv)

/-- If no drawn value repeats, no fresh IV repeats. -/
theorem encIvs_nodup : ∀ {l : List (FsEvent Digest)}, FreshIvs l → (fills l).Nodup →
    (encIvs l).Nodup
  | [], _, _ => List.nodup_nil
  | .fill _ :: l, h, hn => encIvs_nodup (l := l) h (List.nodup_cons.mp hn).2
  | .encrypt _ iv _ :: l, h, hn => by
    have hn' : (fills l).Nodup := hn
    refine List.nodup_cons.mpr ⟨fun hmem => ?_, encIvs_nodup h.2 hn'⟩
    rw [fills_eq_pending_append_spent] at hn'
    exact (List.nodup_append.mp hn').2.2 _ h.1 _ (encIvs_subset_spent h.2 _ hmem) rfl

theorem mem_encIvs_of_mem : ∀ {l : List (FsEvent Digest)} {k : Digest} {iv : Bytes 16}
    {p : CfsData}, .encrypt k iv p ∈ l → iv.toList ∈ encIvs l
  | .fill _ :: l, k, iv, p, h => by
    rcases List.mem_cons.mp h with h | h
    · cases h
    · exact mem_encIvs_of_mem (l := l) h
  | .encrypt _ _ _ :: l, k, iv, p, h => by
    rcases List.mem_cons.mp h with h | h
    · cases h; exact List.mem_cons_self
    · exact List.mem_cons_of_mem _ (mem_encIvs_of_mem (l := l) h)

/-- With distinct IVs, one IV belongs to one encryption. -/
theorem encrypt_unique : ∀ {l : List (FsEvent Digest)}, (encIvs l).Nodup →
    ∀ {k k' : Digest} {iv : Bytes 16} {p p' : CfsData},
      .encrypt k iv p ∈ l → .encrypt k' iv p' ∈ l → p = p'
  | .fill _ :: l, hn, k, k', iv, p, p', h, h' => by
    have hl : .encrypt k iv p ∈ l := (List.mem_cons.mp h).resolve_left (by simp)
    have hl' : .encrypt k' iv p' ∈ l := (List.mem_cons.mp h').resolve_left (by simp)
    exact encrypt_unique (l := l) hn hl hl'
  | .encrypt k₀ iv₀ p₀ :: l, hn, k, k', iv, p, p', h, h' => by
    obtain ⟨hnot, hn⟩ := List.nodup_cons.mp hn
    rcases List.mem_cons.mp h with e | hl <;> rcases List.mem_cons.mp h' with e' | hl'
    · exact (FsEvent.encrypt.inj e).2.2.trans (FsEvent.encrypt.inj e').2.2.symm
    · obtain ⟨-, rfl, -⟩ := FsEvent.encrypt.inj e
      exact absurd (mem_encIvs_of_mem hl') hnot
    · obtain ⟨-, rfl, -⟩ := FsEvent.encrypt.inj e'
      exact absurd (mem_encIvs_of_mem hl) hnot
    · exact encrypt_unique (l := l) hn hl hl'

/-- **Fresh IVs rule out reuse**, as long as `random_fill` does not repeat a value. -/
theorem noKeyIvReuse_of_freshIvs {l : List (FsEvent Digest)} (h : FreshIvs l)
    (hn : (fills l).Nodup) : NoKeyIvReuse l := by
  intro a ha b hb hab
  cases a with
  | fill _ => exact hab
  | encrypt k iv p =>
    cases b with
    | fill _ => exact hab
    | encrypt k' iv' p' =>
      obtain ⟨-, rfl, hne⟩ := hab
      exact hne (encrypt_unique (encIvs_nodup h hn) ha hb)

/-- A log only grows, and an encryption without a fresh IV stays in it. -/
theorem FreshIvs.of_append {l : List (FsEvent Digest)} : ∀ (l' : List (FsEvent Digest)),
    FreshIvs (l' ++ l) → FreshIvs l
  | [], h => h
  | .fill _ :: l', h => FreshIvs.of_append l' h
  | .encrypt _ _ _ :: l', h => FreshIvs.of_append l' h.2

/-! ## 2. What each operation adds to the log -/

variable {e : FsEnv Digest σ}

@[simp] theorem encryptBlk_log (w : World Digest σ) (blk : CfsBlk Digest) (key : List UInt8)
    (data : CfsData) (n : UInt32) :
    (encryptBlk e w blk key data n).2.log =
      .encrypt (deriveKey e.crypto blk.iv n key) blk.iv data :: w.log := rfl

@[simp] theorem fsOpenCleanup_log (w : World Digest σ) (h : Cfs) (fd : Int) :
    (fsOpenCleanup e w h fd).2.2.log = w.log := rfl

@[simp] theorem storeBlk_log (w : World Digest σ) (h : Cfs) (blk : CfsBlk Digest)
    (data : CfsData) :
    (storeBlk e w h blk data).2.log =
      .encrypt (deriveKey e.crypto blk.iv (blkOf h.filepos) h.keyData.toList) blk.iv data
        :: w.log := by
  simp only [storeBlk]
  split_ifs <;> simp

@[simp] theorem fsLseek_log (w : World Digest σ) (h : Cfs) (o : UInt32) (wh : Int) :
    (fsLseek e w h o wh).2.2.log = w.log := by
  simp only [fsLseek]
  split_ifs <;> simp

variable [DecidableEq Digest]

@[simp] theorem fetchBlk_log (w : World Digest σ) (h : Cfs) (blk : CfsBlk Digest)
    (data : CfsData) : (fetchBlk e w h blk data).2.log = w.log := by
  simp only [fetchBlk]
  split_ifs <;> simp

/-- **The log of `fs_open`.**  It either stays as it is, or an IV and a key are drawn and one block
is encrypted under that IV. -/
theorem fsOpen_log (w : World Digest σ) (h : Cfs) (s f : List UInt8) (fl m : Int)
    (stk : FsStack Digest) :
    (fsOpen e w h s f fl m stk).2.2.log = w.log ∨
      ∃ (k : Digest) (iv : Bytes 16) (key : List UInt8) (p : CfsData),
        (fsOpen e w h s f fl m stk).2.2.log =
          .encrypt k iv p :: .fill key :: .fill iv.toList :: w.log := by
  simp only [fsOpen]
  split
  · exact Or.inl rfl
  split
  · exact Or.inl (by simp)
  split
  · exact Or.inl (by simp)
  split
  · -- the file is new
    split
    · exact Or.inr ⟨_, _, _, _, rfl⟩
    · exact Or.inr ⟨_, _, _, _, rfl⟩
  split
  · exact Or.inl (by simp)
  split
  · exact Or.inl (by simp)
  · exact Or.inl (by simp)

/-- One round of `fs_write`, past fetching its block. -/
theorem writeLoop_succ_of_some {w w' : World Digest σ} {h : Cfs} {blk blk' : CfsBlk Digest}
    {data data' : CfsData} (buf : List UInt8) (fuel : Nat)
    (hf : fetchBlk e w h blk data = (some (blk', data'), w')) :
    (writeLoop e (fuel + 1) w h blk data buf).2.log =
        (storeBlk e w' h blk' (dataBlk data' (blkOffset h.filepos)
          (buf.take (cfsBlkSize - blkOffset h.filepos)))).2.log ∨
      ∃ (w'' : World Digest σ) (h' : Cfs) (blk'' : CfsBlk Digest) (data'' : CfsData)
        (rest : List UInt8),
        w''.log = (storeBlk e w' h blk' (dataBlk data' (blkOffset h.filepos)
          (buf.take (cfsBlkSize - blkOffset h.filepos)))).2.log ∧
        (writeLoop e (fuel + 1) w h blk data buf).2 = (writeLoop e fuel w'' h' blk'' data'' rest).2 := by
  rw [writeLoop, hf]
  rcases hs : storeBlk e w' h blk' (dataBlk data' (blkOffset h.filepos)
    (buf.take (cfsBlkSize - blkOffset h.filepos))) with ⟨_ | blk'', w''⟩
  · exact Or.inl (by simp only [hs])
  · simp only [hs]
    split_ifs
    · exact Or.inl rfl
    · exact Or.inr ⟨w'', _, _, _, _, rfl, rfl⟩

/-- The log of `fs_write` only grows. -/
theorem writeLoop_log_grows : ∀ (fuel : Nat) (w : World Digest σ) (h : Cfs)
    (blk : CfsBlk Digest) (data : CfsData) (buf : List UInt8),
    ∃ l, (writeLoop e fuel w h blk data buf).2.log = l ++ w.log
  | 0, _, _, _, _, _ => ⟨[], rfl⟩
  | fuel + 1, w, h, blk, data, buf => by
    have hfetch := fetchBlk_log (e := e) w h blk data
    rcases hf : fetchBlk e w h blk data with ⟨_ | ⟨blk', data'⟩, w'⟩
    · rw [hf] at hfetch
      exact ⟨[], by simpa only [writeLoop, hf, List.nil_append] using hfetch⟩
    · rw [hf] at hfetch
      rcases writeLoop_succ_of_some buf fuel hf with hl | ⟨w'', h', blk'', data'', rest, hw, hl⟩
      · exact ⟨[_], by rw [hl, storeBlk_log, hfetch]; rfl⟩
      · obtain ⟨l, hgrow⟩ := writeLoop_log_grows fuel w'' h' blk'' data'' rest
        exact ⟨l ++ [_], by rw [hl, hgrow, hw, storeBlk_log, hfetch, List.append_assoc]; rfl⟩

/-- **The first block of a write.**  If it is not fetched nothing is recorded; if it is, the first
thing recorded is an encryption, with no value drawn before it. -/
theorem writeLoop_log_first (fuel : Nat) (w : World Digest σ) (h : Cfs) (blk : CfsBlk Digest)
    (data : CfsData) (buf : List UInt8) :
    ((fetchBlk e w h blk data).1 = none ∧
        (writeLoop e (fuel + 1) w h blk data buf).2.log = w.log) ∨
      ((fetchBlk e w h blk data).1 ≠ none ∧ ∃ l k iv p,
        (writeLoop e (fuel + 1) w h blk data buf).2.log = l ++ .encrypt k iv p :: w.log) := by
  have hfetch := fetchBlk_log (e := e) w h blk data
  rcases hf : fetchBlk e w h blk data with ⟨_ | ⟨blk', data'⟩, w'⟩
  · rw [hf] at hfetch
    exact Or.inl ⟨rfl, by simpa only [writeLoop, hf] using hfetch⟩
  · rw [hf] at hfetch
    refine Or.inr ⟨Option.some_ne_none _, ?_⟩
    rcases writeLoop_succ_of_some buf fuel hf with hl | ⟨w'', h', blk'', data'', rest, hw, hl⟩
    · exact ⟨[], _, _, _, by rw [hl, storeBlk_log, hfetch]; rfl⟩
    · obtain ⟨l, hgrow⟩ := writeLoop_log_grows (e := e) fuel w'' h' blk'' data'' rest
      exact ⟨l, _, _, _, by rw [hl, hgrow, hw, storeBlk_log, hfetch]⟩

/-! ## 3. Runs -/

/-- The write is refused before it encrypts anything: the file system is not initialised, or the
seek, the read or the check of the first block fails. -/
def WriteRefused (e : FsEnv Digest σ) (s : FsState Digest σ) (stk : FsStack Digest) : Prop :=
  e.initMagic = false ∨ (fetchBlk e s.world s.handle stk.blk stk.data).1 = none

/-- Every operation but `fs_write`, and the refused writes. -/
def WritesRefused (e : FsEnv Digest σ) (s : FsState Digest σ) : FsOp Digest → Prop
  | .write _ stk => WriteRefused e s stk
  | _ => True

/-- What holds between operations as long as every encrypted block got its own IV: no drawn value
is waiting to be used. -/
structure IvsInv (s : FsState Digest σ) : Prop where
  fresh : FreshIvs s.world.log
  settled : pending s.world.log = []

theorem fsWrite_log (w : World Digest σ) (h : Cfs) (buf : List UInt8) (stk : FsStack Digest) :
    (fsWrite e w h buf stk).2.2.log = if e.initMagic = false then w.log else
      (writeLoop e (buf.length + 1) w h stk.blk stk.data buf).2.log := by
  rw [fsWrite]
  split_ifs
  · rfl
  · rcases writeLoop e (buf.length + 1) w h stk.blk stk.data buf with ⟨_ | _, _⟩ <;> rfl

theorem fsStep_keeps (s : FsState Digest σ) (op : FsOp Digest) (hs : IvsInv s)
    (hop : WritesRefused e s op) : IvsInv (fsStep e s op) := by
  suffices hlog : (fsStep e s op).world.log = s.world.log ∨ ∃ k iv key p,
      (fsStep e s op).world.log = .encrypt k iv p :: .fill key :: .fill iv.toList :: s.world.log by
    rcases hlog with hlog | ⟨k, iv, key, p, hlog⟩
    · exact ⟨hlog ▸ hs.fresh, hlog ▸ hs.settled⟩
    · refine ⟨?_, by rw [hlog]; rfl⟩
      rw [hlog]
      exact ⟨by simp [pending], hs.fresh⟩
  cases op with
  | «open» storename filename flags mode stk =>
    exact fsOpen_log s.world s.handle storename filename flags mode stk
  | lseek offset whence => exact Or.inl (fsLseek_log s.world s.handle offset whence)
  | close => exact Or.inl rfl
  | write buf stk =>
    refine Or.inl ((fsWrite_log _ _ _ _).trans ?_)
    rcases hop with hinit | hnone
    · rw [if_pos hinit]
    · split_ifs
      · rfl
      · rcases writeLoop_log_first (e := e) buf.length s.world s.handle stk.blk stk.data buf with
          ⟨-, hl⟩ | ⟨hsome, -⟩
        · exact hl
        · exact absurd hnone hsome

/-- A write that is not refused leaves an encryption without a fresh IV. -/
theorem fsStep_marks (s : FsState Digest σ) (op : FsOp Digest) (hs : IvsInv s)
    (hop : ¬ WritesRefused e s op) : ¬ FreshIvs (fsStep e s op).world.log := by
  cases op with
  | «open» storename filename flags mode stk => exact absurd trivial hop
  | lseek offset whence => exact absurd trivial hop
  | close => exact absurd trivial hop
  | write buf stk =>
    obtain ⟨hinit, hsome⟩ := not_or.mp hop
    intro hfresh
    have hlog : (fsStep e s (.write buf stk)).world.log = _ := fsWrite_log _ _ _ _
    rw [hlog, if_neg hinit] at hfresh
    rcases writeLoop_log_first (e := e) buf.length s.world s.handle stk.blk stk.data buf with
      ⟨hnone, -⟩ | ⟨-, l, k, iv, p, hl⟩
    · exact hsome hnone
    · rw [hl] at hfresh
      have hmem := (hfresh.of_append l).1
      rw [hs.settled] at hmem
      exact List.not_mem_nil hmem

/-- No operation takes anything out of the log. -/
theorem fsStep_log_grows (s : FsState Digest σ) (op : FsOp Digest) :
    ∃ l, (fsStep e s op).world.log = l ++ s.world.log := by
  cases op with
  | «open» storename filename flags mode stk =>
    rcases fsOpen_log (e := e) s.world s.handle storename filename flags mode stk with
      hl | ⟨k, iv, key, p, hl⟩
    · exact ⟨[], hl⟩
    · exact ⟨[_, _, _], hl⟩
  | lseek offset whence => exact ⟨[], fsLseek_log s.world s.handle offset whence⟩
  | close => exact ⟨[], rfl⟩
  | write buf stk =>
    have hlog : (fsStep e s (.write buf stk)).world.log = _ := fsWrite_log _ _ _ _
    rw [hlog]
    split_ifs
    · exact ⟨[], rfl⟩
    · exact writeLoop_log_grows _ _ _ _ _ _

/-- An encryption without a fresh IV stays one. -/
theorem fsStep_keeps_mark (s : FsState Digest σ) (op : FsOp Digest)
    (hmark : ¬ FreshIvs s.world.log) : ¬ FreshIvs (fsStep e s op).world.log := by
  intro hfresh
  obtain ⟨l, hl⟩ := fsStep_log_grows (e := e) s op
  rw [hl] at hfresh
  exact hmark (hfresh.of_append l)

/-- The start of a run: any file image, any handle, nothing drawn or encrypted yet. -/
def FsState.start (store : σ) (handle : Cfs) : FsState Digest σ := ⟨⟨store, 0, []⟩, handle⟩

/-! ## 4. An honest store, for the runs below -/

/-- A block of zeros. -/
def zeroBlk : CfsBlk SymDigest := ⟨Bytes.zero 16, .sha [], .sha [], Bytes.zero 944⟩

/-- An honest store with one file: its blocks, and the block at the file position. -/
def honestServe : List (CfsBlk SymDigest) × Nat → ReeRequest SymDigest →
    ReeAnswer SymDigest × (List (CfsBlk SymDigest) × Nat)
  | (blks, pos), .open _ _ _ _ => (⟨3, zeroBlk, 0⟩, (blks, pos))
  | (blks, pos), .close _ => (⟨0, zeroBlk, 0⟩, (blks, pos))
  | (blks, pos), .fstat _ => (⟨0, zeroBlk, UInt32.ofNat (1024 * blks.length)⟩, (blks, pos))
  | (blks, _), .lseek _ offset _ => (⟨0, zeroBlk, 0⟩, (blks, offset.toNat / 1024))
  | (blks, pos), .read _ _ =>
    match blks[pos]? with
    | some b => (⟨1024, b, 0⟩, (blks, pos + 1))
    | none => (⟨0, zeroBlk, 0⟩, (blks, pos))
  | (blks, pos), .write _ b _ =>
    (⟨1024, zeroBlk, 0⟩, (blks.take pos ++ b :: blks.drop (pos + 1), pos + 1))

/-- The honest store, with a random stream that counts. -/
def honestEnv : FsEnv SymDigest (List (CfsBlk SymDigest) × Nat) where
  crypto := symCrypto
  random := UInt8.ofNat
  serve := honestServe
  initMagic := true
  secretValue := Bytes.zero 32

def zeroStack : FsStack SymDigest := ⟨zeroBlk, Bytes.zero 944, 0⟩

/-- Create a file, write one byte, seek back, write another. -/
def rewriteOps : List (FsOp SymDigest) :=
  [.open [1] [2] 0 0 zeroStack, .write [1] zeroStack, .lseek 0 seekSet, .write [2] zeroStack]

/-- The log of `rewriteOps` on an empty file. -/
def rewriteLog : List (FsEvent SymDigest) :=
  (exec (fsStep honestEnv) (.start ([], 0) ⟨-1, 0, Bytes.zero 32⟩) rewriteOps).world.log

/-! ## 5. Fresh IVs, exactly -/

/-- **Fresh IVs, exactly.**  Assume `random_fill` repeats no value in a run.  No key/IV pair is used
for two plaintexts and every encrypted block carries an IV drawn for it, if and only if every
`fs_write` of the run is refused before it encrypts its first block. -/
theorem ivs_fresh_iff_writes_refused (e : FsEnv Digest σ) (store : σ) (handle : Cfs)
    (ops : List (FsOp Digest))
    (hrand : (fills (exec (fsStep e) (.start store handle) ops).world.log).Nodup) :
    (NoKeyIvReuse (exec (fsStep e) (.start store handle) ops).world.log ∧
        FreshIvs (exec (fsStep e) (.start store handle) ops).world.log) ↔
      EveryStep (fsStep e) (WritesRefused e) (.start store handle) ops := by
  have hstart : IvsInv (FsState.start store handle : FsState Digest σ) := ⟨trivial, rfl⟩
  constructor
  · rintro ⟨-, hfresh⟩
    by_contra hsteps
    exact exec_mark fsStep_keeps fsStep_marks fsStep_keeps_mark ops _ hsteps hstart hfresh
  · intro hsteps
    have hinv := exec_invariant fsStep_keeps ops _ hsteps hstart
    exact ⟨noKeyIvReuse_of_freshIvs hinv.fresh hrand, hinv.fresh⟩

/-- The condition at work: the writes of `rewriteOps` are not refused. -/
theorem ivs_fresh_iff_writes_refused_rewrite :
    (NoKeyIvReuse rewriteLog ∧ FreshIvs rewriteLog) ↔
      EveryStep (fsStep honestEnv) (WritesRefused honestEnv)
        (.start ([], 0) ⟨-1, 0, Bytes.zero 32⟩) rewriteOps :=
  ivs_fresh_iff_writes_refused honestEnv ([], 0) ⟨-1, 0, Bytes.zero 32⟩ rewriteOps
    (by decide +kernel)

/-- **Rewriting a block reuses its IV**: the two writes of `rewriteOps` encrypt two plaintexts
under one key and one IV, while `random_fill` repeats nothing. -/
theorem iv_reused_on_rewrite : (fills rewriteLog).Nodup ∧ ¬ NoKeyIvReuse rewriteLog := by
  constructor
  · decide +kernel
  · decide +kernel

end AndixOs.Fs
