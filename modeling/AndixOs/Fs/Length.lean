/-
# The length that `fs_fstat` reports

The store knows how many blocks a file has, and the last block says how many of its bytes count.
`fs_fstat` puts the two together.  That is the length of the file as long as the last block still says
where the file ends.  A write that ends inside the last block, before the end of the file, sets its
count back, and so does an empty write.

`fstat_length_run`: in a run of opens, seeks and writes on any number of handles and files, in which no
write sets the end back and none goes past the blocks that a seek reaches, `fs_fstat` succeeds on every
handle and reports the largest end of a write to its file.
-/
import AndixOs.Fs.Content
import AndixOs.Fs.Read
import AndixOs.Lib.Run

namespace AndixOs.Fs

open AndixOs

variable {Digest : Type} [DecidableEq Digest]

/-! ## 1. `fs_fstat` -/

/-- `fs_fstat`: the return value, the `st_size` of the caller's buffer, and the world.  `statSize` is
what the stack holds in the local `stat`. -/
def fsFstat {σ : Type} (e : FsEnv Digest σ) (w : World Digest σ) (h : Cfs) (stSize : UInt32)
    (stk : FsStack Digest) (statSize : UInt32) : Int × UInt32 × World Digest σ :=
  if e.initMagic = false then (-1, stSize, w)
  else
    let (r, plainSize, w) := reeFstat e w h.fd statSize
    if r ≠ 0 then (-1, stSize, w)
    else
      let blkCount := plainSize / 1024
      -- without the info block
      let size := (blkCount - 1) * 940
      if size ≠ 0 then
        let (r, w) := reeLseek e w h.fd ((blkCount - 1) * 1024) seekSet
        if r ≠ 0 then (-1, stSize, w)
        else
          let (n, blk, w) := reeRead e w h.fd stk.blk
          if n ≠ 1024 then (-1, stSize, w)
          else
            let (v, data) := fsDecryptAndVerify e.crypto blk h.keyData.toList stk.data (blkCount - 1)
            if v ≠ 0 then (-1, stSize, w) else (0, size - 940 + data.count, w)
      else (0, size, w)

variable {c : FsCrypto Digest} {secret key : Bytes 32} {blks : List (CfsBlk Digest)}

/-- The block with number `n ≥ 1` of the file decrypts and verifies for its number. -/
def Sealed (c : FsCrypto Digest) (key : Bytes 32) (blks : List (CfsBlk Digest)) (n : Nat)
    (d : CfsData) : Prop := ∃ b, blks[n]? = some b ∧ Opens c key (UInt32.ofNat n) d b

/-- The blocks say that the file is `len` bytes long: it has only the info block, or its last block
holds the bytes up to there.  There may be holes before. -/
structure FileLen (c : FsCrypto Digest) (secret key : Bytes 32) (blks : List (CfsBlk Digest))
    (len : Nat) : Prop where
  info : ∃ b d, blks[0]? = some b ∧ Opens c secret 0 d b ∧ d.keyData = key
  small : blks.length < 4194304
  last : blks.length = 1 ∧ len = 0 ∨ ∃ n d, blks.length = n + 2 ∧ Sealed c key blks (n + 1) d ∧
    d.count.toNat ≤ 940 ∧ len = 940 * n + d.count.toNat

theorem FileLen.pos {len : Nat} (h : FileLen c secret key blks len) : 0 < blks.length := by
  obtain ⟨b, _, hb, -⟩ := h.info
  exact (List.getElem?_eq_some_iff.mp hb).1

variable {random : Nat → UInt8} {hole : CfsBlk Digest} {w : World Digest (Disk Digest)}
  {nm : FileName} {h : Cfs} {len : Nat}

theorem toNat_sub_one {n : UInt32} {m : Nat} (h : n.toNat = m + 1) : n - 1 = UInt32.ofNat m := by
  have hle : (1 : UInt32) ≤ n := UInt32.le_iff_toNat_le.mpr (by rw [h]; exact Nat.le_add_left 1 m)
  have hsub := UInt32.toNat_sub_of_le n 1 hle
  rw [h] at hsub
  have hm : (n - 1).toNat = m := hsub
  rw [← hm, UInt32.ofNat_toNat]

/-- **`fs_fstat` reports the length that the blocks say.** -/
theorem fsFstat_length (hfd : w.store.name h.fd = some nm)
    (hf : FileLen c secret h.keyData (w.store.files nm) len) (stSize : UInt32)
    (stk : FsStack Digest) (statSize : UInt32) :
    ∃ w', fsFstat (diskEnv c random secret hole) w h stSize stk statSize =
        (0, UInt32.ofNat len, w') ∧ len < 4294967296 := by
  have hsmall := hf.small
  have hblkCount : ∀ m, (w.store.files nm).length = m + 1 →
      UInt32.ofNat (1024 * (w.store.files nm).length) / 1024 - 1 = UInt32.ofNat m := by
    intro m hm
    refine toNat_sub_one ?_
    have h1024 : (1024 : UInt32).toNat = 1024 := rfl
    rw [UInt32.toNat_div, UInt32.toNat_ofNat_of_lt' (by rw [UInt32.size]; omega), h1024,
      Nat.mul_div_cancel_left _ (by decide), hm]
  rw [fsFstat, if_neg (diskEnv_initMagic _ _ _ _), reeFstat_disk hfd]
  simp only [ne_eq, not_true_eq_false, if_false]
  rcases hf.last with ⟨hone, hzero⟩ | ⟨n, d, hlen, ⟨b, hb, hopens⟩, hcount, hsum⟩
  · rw [hblkCount 0 hone]
    exact ⟨w, by rw [hzero]; rfl, by omega⟩
  · rw [hblkCount (n + 1) hlen]
    have hnat : (UInt32.ofNat (n + 1)).toNat = n + 1 :=
      UInt32.toNat_ofNat_of_lt' (by rw [UInt32.size]; omega)
    have h940 : (940 : UInt32).toNat = 940 := rfl
    have hsize : (UInt32.ofNat (n + 1) * 940).toNat = 940 * n + 940 := by
      rw [UInt32.toNat_mul, hnat, h940]
      omega
    have hne : ¬ UInt32.ofNat (n + 1) * 940 = 0 := fun hz => by
      rw [hz] at hsize
      exact absurd hsize (by simp)
    have hidx : (w.store.files nm)[blkIdx (UInt32.ofNat (n + 1))]? = some b := by
      rw [blkIdx_eq (by omega), hnat]
      exact hb
    have hverify : fsDecryptAndVerify c b h.keyData.toList stk.data (UInt32.ofNat (n + 1)) = (0, d) :=
      hopens stk.data
    rw [if_pos hne, reeLseek_disk hfd]
    simp only [not_true_eq_false, if_false]
    rw [reeRead_blk World.moved_fds (mod_toNat_mul_1024 _) hidx]
    simp only [diskEnv_crypto, hverify, not_true_eq_false, if_false]
    have hresult : UInt32.ofNat (n + 1) * 940 - 940 + d.count = UInt32.ofNat len := by
      refine UInt32.toNat_inj.mp ?_
      rw [UInt32.toNat_add, UInt32.toNat_sub_of_le _ _ (UInt32.le_iff_toNat_le.mpr (by omega)),
        UInt32.toNat_ofNat_of_lt' (by rw [UInt32.size]; omega), hsize, h940]
      omega
    exact ⟨_, by rw [hresult], by omega⟩

/-! ## 2. A round of `fs_write` on a file with holes -/

/-- The block that a seek to this number ends at is there, and does not verify for the number. -/
def Unreadable (c : FsCrypto Digest) (key : Bytes 32) (blks : List (CfsBlk Digest))
    (blknum : UInt32) : Prop :=
  ∃ b, blks[blkIdx blknum]? = some b ∧ ∀ out, (fsDecryptAndVerify c b key.toList out blknum).1 ≠ 0

/-- Where a data block is written, the file is as long as before, or ends in this block. -/
theorem FileLen.setBlk (hole : CfsBlk Digest) (hf : FileLen c secret key blks len) {k : Nat} (hk : k + 2 < 4194304)
    {b : CfsBlk Digest} {d : CfsData} (hopens : Opens c key (UInt32.ofNat (k + 1)) d b)
    (hcount : d.count.toNat ≤ 940) :
    FileLen c secret key (setBlk hole blks (k + 1) b)
      (if blks.length ≤ k + 2 then 940 * k + d.count.toNat else len) := by
  have hpos := hf.pos
  have hsmall := hf.small
  have hlen : (Fs.setBlk hole blks (k + 1) b).length = max blks.length (k + 2) := length_setBlk
  constructor
  · obtain ⟨b₀, info, hb, hrest⟩ := hf.info
    exact ⟨b₀, info, (setBlk_other (by omega) hpos).trans hb, hrest⟩
  · omega
  · right
    split_ifs with hend
    · exact ⟨k, d, by omega, ⟨b, setBlk_self, hopens⟩, hcount, rfl⟩
    · rcases hf.last with ⟨hone, -⟩ | ⟨n, dn, hn, ⟨bn, hbn, hno⟩, hle, hsum⟩
      · omega
      · exact ⟨n, dn, by omega, ⟨bn, (setBlk_other (by omega) (by omega)).trans hbn, hno⟩, hle, hsum⟩

/-- The last block can be read. -/
theorem FileLen.before_last (hf : FileLen c secret key blks len) {k : Nat}
    (hk : k + 1 < blks.length) (hun : Unreadable c key blks (UInt32.ofNat (k + 1))) :
    k + 3 ≤ blks.length := by
  have hsmall := hf.small
  have hnat : (UInt32.ofNat (k + 1)).toNat = k + 1 :=
    UInt32.toNat_ofNat_of_lt' (by rw [UInt32.size]; omega)
  obtain ⟨b, hb, hrefused⟩ := hun
  rw [blkIdx_eq (by omega), hnat] at hb
  rcases hf.last with ⟨hone, -⟩ | ⟨n, d, hn, ⟨bn, hbn, hno⟩, -, -⟩
  · omega
  · have hne : k ≠ n := by
      rintro rfl
      obtain rfl : b = bn := Option.some.inj (hb.symm.trans hbn)
      exact hrefused (Bytes.zero 944) (congrArg Prod.fst (hno _))
    omega

/-- The files and descriptors that a write to another file leaves. -/
structure SameElse (w w' : World Digest (Disk Digest)) (nm : FileName) : Prop where
  fds : w.store.SameFds w'.store
  files : ∀ nm', nm' ≠ nm → w'.store.files nm' = w.store.files nm'

omit [DecidableEq Digest] in
theorem SameElse.trans {w' w'' : World Digest (Disk Digest)} (h : SameElse w w' nm)
    (h' : SameElse w' w'' nm) : SameElse w w'' nm :=
  ⟨h.fds.trans h'.fds, fun nm' hne => (h'.files nm' hne).trans (h.files nm' hne)⟩

omit [DecidableEq Digest] in
theorem ofNat_blkOf (filepos : UInt32) :
    UInt32.ofNat (filepos.toNat / 940 + 1) = blkOf filepos := by
  rw [← blkOf_toNat, UInt32.ofNat_toNat]

/-- Whether a block verifies does not depend on the buffer for its data. -/
theorem verify_out_iff {b : CfsBlk Digest} {k : List UInt8} {n : UInt32} {out out' : CfsData} :
    (fsDecryptAndVerify c b k out n).1 = 0 ↔ (fsDecryptAndVerify c b k out' n).1 = 0 :=
  fsDecryptAndVerify_accept_iff.trans fsDecryptAndVerify_accept_iff.symm

/-- At an unreadable block the round fails, and nothing has happened. -/
theorem fetchBlk_unreadable (random : Nat → UInt8) (secret : Bytes 32) (hole : CfsBlk Digest)
    (hfd : w.store.name h.fd = some nm)
    (hun : Unreadable c h.keyData (w.store.files nm) (blkOf h.filepos)) (blk : CfsBlk Digest)
    (data : CfsData) :
    ∃ w₁, fetchBlk (diskEnv c random secret hole) w h blk data = (none, w₁) ∧
      w₁.store.files = w.store.files ∧ w.store.SameFds w₁.store := by
  obtain ⟨w₁, hfetch, hfiles, hfds⟩ := fetchBlk_disk c random secret hole hfd blk data
  obtain ⟨b, hb, hrefused⟩ := hun
  rw [hb] at hfetch
  exact ⟨w₁, hfetch.trans (Prod.ext (if_pos (hrefused data)) rfl), hfiles, hfds⟩

/-- At any other block a seek reaches it is written, with the chunk at its end. -/
theorem writeRound_len (random : Nat → UInt8) (secret : Bytes 32) (hole : CfsBlk Digest)
    (hc : c.Ideal) (hfd : w.store.name h.fd = some nm)
    (hread : ¬ Unreadable c h.keyData (w.store.files nm) (blkOf h.filepos))
    (hnum : h.filepos.toNat / 940 + 1 < 4194304) (blk : CfsBlk Digest) (data : CfsData) :
    ∃ blk₁ d w₁, fetchBlk (diskEnv c random secret hole) w h blk data = (some (blk₁, d), w₁) ∧
      ∀ chunk : List UInt8, ∃ blk₂ w₂,
        storeBlk (diskEnv c random secret hole) w₁ h blk₁
          (dataBlk d (blkOffset h.filepos) chunk) = (some blk₂, w₂) ∧
        SameElse w w₂ nm ∧
        w₂.store.files nm = setBlk hole (w.store.files nm) (h.filepos.toNat / 940 + 1) blk₂ ∧
        Opens c h.keyData (UInt32.ofNat (h.filepos.toNat / 940 + 1))
          (dataBlk d (blkOffset h.filepos) chunk) blk₂ := by
  obtain ⟨w₁, hfetch, hfiles₁, hfds₁⟩ := fetchBlk_disk c random secret hole hfd blk data
  have hfd₁ : w₁.store.name h.fd = some nm := (congrFun hfds₁.name _).trans hfd
  have hof := blkOf_toNat h.filepos
  have hidx : blkIdx (blkOf h.filepos) = h.filepos.toNat / 940 + 1 := by
    rw [blkIdx_eq (by omega), hof]
  have hstore : ∀ (blk₁ : CfsBlk Digest) (x : CfsData), ∃ blk₂ w₂,
      storeBlk (diskEnv c random secret hole) w₁ h blk₁ x = (some blk₂, w₂) ∧ SameElse w w₂ nm ∧
      w₂.store.files nm = setBlk hole (w.store.files nm) (h.filepos.toNat / 940 + 1) blk₂ ∧
      Opens c h.keyData (UInt32.ofNat (h.filepos.toNat / 940 + 1)) x blk₂ := by
    intro blk₁ x
    obtain ⟨w₂, hst, hfiles₂, hfds₂⟩ := storeBlk_disk c random secret hole hfd₁ blk₁ x
    refine ⟨_, w₂, hst, ⟨hfds₁.trans hfds₂, fun nm' hne => ?_⟩, ?_, ?_⟩
    · rw [hfiles₂, Function.update_of_ne hne, hfiles₁]
    · rw [hfiles₂, Function.update_self, hfiles₁, hidx]
    · rw [ofNat_blkOf]
      exact opens_made hc.decrypts blk₁ h.keyData x (blkOf h.filepos)
  rcases hb : (w.store.files nm)[blkIdx (blkOf h.filepos)]? with _ | b
  · rw [hb] at hfetch
    exact ⟨blk, Bytes.zero 944, w₁, hfetch, fun chunk => hstore _ _⟩
  · rw [hb] at hfetch
    have hverify : (fsDecryptAndVerify c b h.keyData.toList data (blkOf h.filepos)).1 = 0 := by
      by_contra hrefused
      exact hread ⟨b, hb, fun out hacc => hrefused (verify_out_iff.mp hacc)⟩
    exact ⟨b, _, w₁, hfetch.trans (Prod.ext (if_neg (not_not.mpr hverify)) rfl),
      fun chunk => hstore _ _⟩

/-! ## 3. The loop of `fs_write` on a file with holes -/

/-- The write comes to an unreadable block: its first, or one of the file. -/
def Refused (c : FsCrypto Digest) (key : Bytes 32) (blks : List (CfsBlk Digest)) (filepos : UInt32)
    (count : Nat) : Prop :=
  Unreadable c key blks (blkOf filepos) ∨
    ∃ k, filepos.toNat / 940 < k ∧ k ≤ lastBlk filepos.toNat count ∧ k + 1 < blks.length ∧
      Unreadable c key blks (UInt32.ofNat (k + 1))

/-- The chunk of a round that is not the last one fills its block. -/
structure FullRound (h : Cfs) (buf chunk rest : List UInt8) : Prop where
  next : (h.advance chunk.length).filepos.toNat = 940 * (h.filepos.toNat / 940 + 1)
  full : h.filepos.toNat % 940 + chunk.length = 940
  more : 0 < rest.length
  total : chunk.length + rest.length = buf.length

theorem FullRound.lastBlk_eq {buf chunk rest : List UInt8} (hr : FullRound h buf chunk rest) :
    lastBlk (h.advance chunk.length).filepos.toNat rest.length =
      lastBlk h.filepos.toNat buf.length := by
  have hdiv := Nat.div_add_mod h.filepos.toNat 940
  have hfull := hr.full
  have hmore := hr.more
  have htotal := hr.total
  rw [lastBlk, lastBlk, hr.next]
  congr 1
  omega

theorem FullRound.shorter {buf chunk rest : List UInt8} (hr : FullRound h buf chunk rest) :
    rest.length < buf.length := by
  have hmod := Nat.mod_lt h.filepos.toNat (show 0 < 940 by decide)
  have hfull := hr.full
  have htotal := hr.total
  omega

theorem FullRound.next_blk {buf chunk rest : List UInt8} (hr : FullRound h buf chunk rest) :
    (h.advance chunk.length).filepos.toNat / 940 = h.filepos.toNat / 940 + 1 := by
  rw [hr.next, Nat.mul_div_cancel_left _ (by decide)]

theorem count_round {d : CfsData} {chunk : List UInt8}
    (hfit : h.filepos.toNat % 940 + chunk.length ≤ 940) :
    (dataBlk d (blkOffset h.filepos) chunk).count.toNat =
      h.filepos.toNat % 940 + chunk.length := by
  rw [blkOffset_eq, count_dataBlk hfit]

/-- A round of the loop that is not refused: it is the last one, or the next block follows. -/
theorem writeLoop_split (buf : List UInt8) (hnum : h.filepos.toNat / 940 + 1 < 4194304) :
    ∃ chunk rest, chunk = buf.take (940 - blkOffset h.filepos) ∧
      rest = buf.drop (940 - blkOffset h.filepos) ∧ h.filepos.toNat % 940 + chunk.length ≤ 940 ∧
      (rest = [] ∧ chunk = buf ∧ lastBlk h.filepos.toNat buf.length = h.filepos.toNat / 940 ∨
        rest ≠ [] ∧ FullRound h buf chunk rest) := by
  refine ⟨_, _, rfl, rfl, ?_⟩
  have hoff := blkOffset_eq h.filepos
  have hmod := Nat.mod_lt h.filepos.toNat (show 0 < 940 by decide)
  have hdiv := Nat.div_add_mod h.filepos.toNat 940
  have htake : (buf.take (940 - blkOffset h.filepos)).length =
      min (940 - h.filepos.toNat % 940) buf.length := by rw [List.length_take, hoff]
  have hdrop : (buf.drop (940 - blkOffset h.filepos)).length =
      buf.length - (940 - h.filepos.toNat % 940) := by rw [List.length_drop, hoff]
  refine ⟨by omega, ?_⟩
  rcases eq_or_ne (buf.drop (940 - blkOffset h.filepos)) [] with hnil | hne
  · have hsplit := List.take_append_drop (940 - blkOffset h.filepos) buf
    rw [hnil, List.append_nil] at hsplit
    refine Or.inl ⟨hnil, hsplit, ?_⟩
    rw [hnil, List.length_nil] at hdrop
    rw [lastBlk]
    omega
  · have hrest := List.length_pos_iff.mpr hne
    refine Or.inr ⟨hne, ?_, by omega, hrest, by omega⟩
    rw [Cfs.advance_toNat (by omega)]
    omega

/-- **A refused write** fails and leaves the length. -/
theorem writeLoop_refused (random : Nat → UInt8) (secret : Bytes 32) (hole : CfsBlk Digest)
    (hc : c.Ideal) : ∀ (fuel : Nat) (w : World Digest (Disk Digest)) (h : Cfs)
    (blk : CfsBlk Digest) (data : CfsData) (buf : List UInt8), buf.length < fuel →
    w.store.name h.fd = some nm → FileLen c secret h.keyData (w.store.files nm) len →
    Refused c h.keyData (w.store.files nm) h.filepos buf.length →
    ∃ w', writeLoop (diskEnv c random secret hole) fuel w h blk data buf = (none, w') ∧
      SameElse w w' nm ∧ FileLen c secret h.keyData (w'.store.files nm) len
  | 0, _, _, _, _, _, hfuel, _, _, _ => absurd hfuel (Nat.not_lt_zero _)
  | fuel + 1, w, h, blk, data, buf, hfuel, hfd, hf, hrefused => by
    by_cases hun : Unreadable c h.keyData (w.store.files nm) (blkOf h.filepos)
    · obtain ⟨w₁, hfetch, hfiles, hfds⟩ := fetchBlk_unreadable random secret hole hfd hun blk data
      refine ⟨w₁, by rw [writeLoop, hfetch], ⟨hfds, fun nm' _ => congrFun hfiles nm'⟩, ?_⟩
      rw [hfiles]
      exact hf
    · obtain ⟨k, hfirst, hlast, hin, hk⟩ := hrefused.resolve_left hun
      have hsmall := hf.small
      obtain ⟨blk₁, d, w₁, hfetch, hstore⟩ := writeRound_len random secret hole hc hfd hun (by omega)
        blk data
      have hblk : h.filepos.toNat / 940 + 1 < 4194304 := by omega
      obtain ⟨chunk, rest, hchunk, hrest, hfit, hround⟩ := writeLoop_split buf hblk
      obtain ⟨blk₂, w₂, hst, hsame, hfiles, hopens⟩ := hstore chunk
      rw [writeLoop_round hchunk hrest hfetch hst]
      rcases hround with ⟨-, -, hone⟩ | ⟨hne, hround⟩
      · omega
      · rw [if_neg hne]
        have hlen₂ : FileLen c secret h.keyData (w₂.store.files nm) len := by
          have hset := hf.setBlk hole (by omega) hopens ((count_round hfit).trans_le hfit)
          rwa [if_neg (by omega), ← hfiles] at hset
        have hnext := hround.next_blk
        have hkidx : blkIdx (UInt32.ofNat (k + 1)) = k + 1 := by
          have hnat : (UInt32.ofNat (k + 1)).toNat = k + 1 :=
            UInt32.toNat_ofNat_of_lt' (by rw [UInt32.size]; omega)
          rw [blkIdx_eq (by omega), hnat]
        -- the block that stops the write is still as it was
        have hk₂ : Unreadable c h.keyData (w₂.store.files nm) (UInt32.ofNat (k + 1)) := by
          obtain ⟨b, hb, hbad⟩ := hk
          rw [hkidx] at hb
          exact ⟨b, by rw [hkidx, hfiles, setBlk_other (by omega) hin, hb], hbad⟩
        have hrefused₂ : Refused c h.keyData (w₂.store.files nm) (h.advance chunk.length).filepos
            rest.length := by
          rcases Nat.lt_or_ge (h.filepos.toNat / 940 + 1) k with hlt | hge
          · refine Or.inr ⟨k, hnext.trans_lt hlt, hlast.trans_eq hround.lastBlk_eq.symm, ?_, hk₂⟩
            rw [hfiles, length_setBlk]
            omega
          · obtain rfl : k = h.filepos.toNat / 940 + 1 := by omega
            rw [← hnext, ofNat_blkOf] at hk₂
            exact Or.inl hk₂
        obtain ⟨w', hloop, hsame', hlen'⟩ := writeLoop_refused random secret hole hc fuel w₂
          (h.advance chunk.length) blk₂ _ rest
          (hround.shorter.trans_le (Nat.lt_succ_iff.mp hfuel)) ((congrFun hsame.fds.name _).trans hfd) hlen₂ hrefused₂
        exact ⟨w', hloop, hsame.trans hsame', hlen'⟩

/-- What a write leaves: it failed before the last block, and the length is the same; or the length is
the end of the write, if that is in the last block or behind it. -/
def WriteLen (c : FsCrypto Digest) (secret : Bytes 32) (w : World Digest (Disk Digest))
    (nm : FileName) (h : Cfs) (count len : Nat) (o : Option Cfs) (w' : World Digest (Disk Digest)) :
    Prop :=
  (o = none ∧ h.filepos.toNat / 940 + 3 ≤ (w.store.files nm).length ∧
    FileLen c secret h.keyData (w'.store.files nm) len) ∨
  ∃ h', o = some h' ∧ h'.fd = h.fd ∧ h'.keyData = h.keyData ∧
    FileLen c secret h.keyData (w'.store.files nm)
      (if (w.store.files nm).length ≤ lastBlk h.filepos.toNat count + 2 then
        h.filepos.toNat + count else len)

/-- **The loop of `fs_write`** where a seek reaches its blocks. -/
theorem writeLoop_len (random : Nat → UInt8) (secret : Bytes 32) (hole : CfsBlk Digest)
    (hc : c.Ideal) : ∀ (fuel : Nat) (w : World Digest (Disk Digest)) (h : Cfs)
    (blk : CfsBlk Digest) (data : CfsData) (buf : List UInt8) (len : Nat), buf.length < fuel →
    w.store.name h.fd = some nm → FileLen c secret h.keyData (w.store.files nm) len →
    lastBlk h.filepos.toNat buf.length + 2 < 4194304 →
    ∃ o w', writeLoop (diskEnv c random secret hole) fuel w h blk data buf = (o, w') ∧
      SameElse w w' nm ∧ WriteLen c secret w nm h buf.length len o w'
  | 0, _, _, _, _, _, _, hfuel, _, _, _ => absurd hfuel (Nat.not_lt_zero _)
  | fuel + 1, w, h, blk, data, buf, len, hfuel, hfd, hf, hreach => by
    have hfirst : h.filepos.toNat / 940 ≤ lastBlk h.filepos.toNat buf.length :=
      Nat.div_le_div_right (Nat.le_add_right _ _)
    by_cases hun : Unreadable c h.keyData (w.store.files nm) (blkOf h.filepos)
    · obtain ⟨w₁, hfetch, hfiles, hfds⟩ := fetchBlk_unreadable random secret hole hfd hun blk data
      have hin : h.filepos.toNat / 940 + 1 < (w.store.files nm).length := by
        obtain ⟨b, hb, -⟩ := hun
        rw [blkIdx_eq (by rw [blkOf_toNat]; omega), blkOf_toNat] at hb
        exact (List.getElem?_eq_some_iff.mp hb).1
      rw [← ofNat_blkOf] at hun
      refine ⟨none, w₁, by rw [writeLoop, hfetch], ⟨hfds, fun nm' _ => congrFun hfiles nm'⟩,
        Or.inl ⟨rfl, hf.before_last hin hun, ?_⟩⟩
      rw [hfiles]
      exact hf
    · obtain ⟨blk₁, d, w₁, hfetch, hstore⟩ := writeRound_len random secret hole hc hfd hun (by omega)
        blk data
      have hblk : h.filepos.toNat / 940 + 1 < 4194304 := by omega
      obtain ⟨chunk, rest, hchunk, hrest, hfit, hround⟩ := writeLoop_split buf hblk
      obtain ⟨blk₂, w₂, hst, hsame, hfiles, hopens⟩ := hstore chunk
      have hdiv := Nat.div_add_mod h.filepos.toNat 940
      have hset := hf.setBlk hole (by omega) hopens ((count_round hfit).trans_le hfit)
      rw [count_round hfit, ← Nat.add_assoc, hdiv, ← hfiles] at hset
      rw [writeLoop_round hchunk hrest hfetch hst]
      rcases hround with ⟨hnil, hall, hone⟩ | ⟨hne, hround⟩
      · rw [if_pos hnil]
        rw [hall] at hset
        refine ⟨_, w₂, rfl, hsame, Or.inr ⟨_, rfl, rfl, rfl, ?_⟩⟩
        rw [hone]
        exact hset
      · rw [if_neg hne]
        have hblks : (w₂.store.files nm).length =
            max (w.store.files nm).length (h.filepos.toNat / 940 + 2) := by
          rw [hfiles, length_setBlk]
        obtain ⟨o, w', hloop, hsame', hwrite⟩ := writeLoop_len random secret hole hc fuel w₂
          (h.advance chunk.length) blk₂ _ rest _
          (hround.shorter.trans_le (Nat.lt_succ_iff.mp hfuel)) ((congrFun hsame.fds.name _).trans hfd)
          hset (hround.lastBlk_eq.symm ▸ hreach)
        refine ⟨o, w', hloop, hsame.trans hsame', ?_⟩
        have hnext := hround.next
        have htotal := hround.total
        have hfull := hround.full
        have hmore := hround.more
        rcases hwrite with ⟨rfl, hbefore, hlen'⟩ | ⟨h', rfl, hfd', hkey', hlen'⟩
        · rw [hround.next_blk, hblks] at hbefore
          rw [if_neg (by omega)] at hlen'
          exact Or.inl ⟨rfl, by omega, hlen'⟩
        · refine Or.inr ⟨h', rfl, hfd', hkey', ?_⟩
          rw [hround.lastBlk_eq, hblks] at hlen'
          have hlast : h.filepos.toNat / 940 + 1 ≤ lastBlk h.filepos.toNat buf.length := by
            rw [← hround.lastBlk_eq, ← hround.next_blk]
            exact Nat.div_le_div_right (Nat.le_add_right _ _)
          have hsum : (if max (w.store.files nm).length (h.filepos.toNat / 940 + 2) ≤
              lastBlk h.filepos.toNat buf.length + 2 then
                (h.advance chunk.length).filepos.toNat + rest.length
              else if (w.store.files nm).length ≤ h.filepos.toNat / 940 + 2 then
                h.filepos.toNat + chunk.length else len) =
              if (w.store.files nm).length ≤ lastBlk h.filepos.toNat buf.length + 2 then
                h.filepos.toNat + buf.length else len := by
            split_ifs <;> omega
          rw [← hsum]
          exact hlen'

/-! ## 4. What a write does to the length -/

/-- A write of `count` bytes to a file of `len` bytes leaves an end that `fs_fstat` finds: it is
refused; or a seek reaches its blocks and, where it gets to the last block, it does not end before the
end of the file, nor is it empty elsewhere than there. -/
def KeepsLength (c : FsCrypto Digest) (key : Bytes 32) (blks : List (CfsBlk Digest)) (len : Nat)
    (filepos : UInt32) (count : Nat) : Prop :=
  Refused c key blks filepos count ∨
    lastBlk filepos.toNat count + 2 < 4194304 ∧
      (blks.length ≤ lastBlk filepos.toNat count + 2 →
        len ≤ filepos.toNat + count ∧ (count = 0 → filepos.toNat = len))

/-- A write that ends before the last block ends inside the file. -/
theorem FileLen.inside (hf : FileLen c secret key blks len) {p count : Nat}
    (hbefore : lastBlk p count + 2 < blks.length) (hcount : 0 < count) : p + count ≤ len := by
  have hdiv := Nat.div_add_mod (p + (count - 1)) 940
  have hmod := Nat.mod_lt (p + (count - 1)) (show 0 < 940 by decide)
  rw [lastBlk] at hbefore
  rcases hf.last with ⟨hone, -⟩ | ⟨n, d, hn, -, -, hsum⟩ <;> omega

/-- **`fs_write` and the length**: after a write that succeeds and is not empty it is the end of the
write, if that is behind the old end. -/
theorem fsWrite_len (random : Nat → UInt8) (hole : CfsBlk Digest) (hc : c.Ideal)
    (hfd : w.store.name h.fd = some nm) (hf : FileLen c secret h.keyData (w.store.files nm) len)
    {buf : List UInt8} (hok : KeepsLength c h.keyData (w.store.files nm) len h.filepos buf.length)
    (stk : FsStack Digest) :
    ∃ r h' w', fsWrite (diskEnv c random secret hole) w h buf stk = (r, h', w') ∧
      SameElse w w' nm ∧ h'.fd = h.fd ∧ h'.keyData = h.keyData ∧
      FileLen c secret h.keyData (w'.store.files nm)
        (if r ≠ -1 ∧ buf ≠ [] then max len (h.filepos.toNat + buf.length) else len) := by
  rw [fsWrite, if_neg (diskEnv_initMagic _ _ _ _)]
  have hfail : ¬ ((-1 : Int) ≠ -1 ∧ buf ≠ []) := fun hboth => hboth.1 rfl
  rcases hok with hrefused | ⟨hreach, hend⟩
  · obtain ⟨w', hloop, hsame, hlen⟩ := writeLoop_refused random secret hole hc (buf.length + 1) w h
      stk.blk stk.data buf (Nat.lt_succ_self _) hfd hf hrefused
    rw [hloop]
    exact ⟨-1, h, w', rfl, hsame, rfl, rfl, by rwa [if_neg hfail]⟩
  · obtain ⟨o, w', hloop, hsame, hwrite⟩ := writeLoop_len random secret hole hc (buf.length + 1) w h
      stk.blk stk.data buf len (Nat.lt_succ_self _) hfd hf hreach
    rw [hloop]
    rcases hwrite with ⟨rfl, -, hlen⟩ | ⟨h', rfl, hfd', hkey', hlen⟩
    · exact ⟨-1, h, w', rfl, hsame, rfl, rfl, by rwa [if_neg hfail]⟩
    · refine ⟨_, h', w', rfl, hsame, hfd', hkey', ?_⟩
      have hne : toInt32 (UInt32.ofNat buf.length) ≠ -1 := by
        have hdiv := Nat.div_add_mod (h.filepos.toNat + (buf.length - 1)) 940
        rw [lastBlk] at hreach
        refine toInt32_ne ?_
        rw [UInt32.toNat_ofNat_of_lt' (by rw [UInt32.size]; omega)]
        omega
      have hsum : (if (w.store.files nm).length ≤ lastBlk h.filepos.toNat buf.length + 2 then
            h.filepos.toNat + buf.length else len) =
          if toInt32 (UInt32.ofNat buf.length) ≠ -1 ∧ buf ≠ [] then
            max len (h.filepos.toNat + buf.length) else len := by
        rcases Nat.lt_or_ge (lastBlk h.filepos.toNat buf.length + 2) (w.store.files nm).length with
          hin | hlast
        · rw [if_neg (Nat.not_le.mpr hin)]
          rcases eq_or_ne buf [] with rfl | hbuf
          · rw [if_neg fun hboth => hboth.2 rfl]
          · rw [if_pos ⟨hne, hbuf⟩,
              Nat.max_eq_left (hf.inside hin (List.length_pos_iff.mpr hbuf))]
        · obtain ⟨hle, hempty⟩ := hend hlast
          rw [if_pos hlast]
          rcases eq_or_ne buf [] with rfl | hbuf
          · rw [if_neg fun hboth => hboth.2 rfl, List.length_nil, Nat.add_zero]
            exact hempty rfl
          · rw [if_pos ⟨hne, hbuf⟩, Nat.max_eq_right hle]
      rw [← hsum]
      exact hlen

/-! ## 5. `fs_open` on the store -/

/-- The file is empty, or it says that it is `len` bytes long under some key. -/
def HasLen (c : FsCrypto Digest) (secret : Bytes 32) (blks : List (CfsBlk Digest)) (len : Nat) :
    Prop := blks = [] ∧ len = 0 ∨ ∃ key, FileLen c secret key blks len

/-- The name that `fs_open` gives a file. -/
def openName (c : FsCrypto Digest) (storename filename : List UInt8) : FileName :=
  (c.digestBytes (c.sha2 storename), c.digestBytes (c.sha2 filename))

/-- The key of a file is the one in its info block. -/
theorem FileLen.key_unique {key' : Bytes 32} {len' : Nat} (hf : FileLen c secret key blks len)
    (hf' : FileLen c secret key' blks len') : key = key' := by
  obtain ⟨b, d, hb, hopens, rfl⟩ := hf.info
  obtain ⟨b', d', hb', hopens', rfl⟩ := hf'.info
  obtain rfl : b = b' := Option.some.inj (hb.symm.trans hb')
  have hd := (hopens (Bytes.zero 944)).symm.trans (hopens' (Bytes.zero 944))
  exact congrArg CfsData.keyData (congrArg Prod.snd hd)

theorem keyData_infoBlk (d : CfsData) (key filename storename : Bytes 32) :
    (infoBlk d key filename storename).keyData = key := by
  have hkey : ∀ x : CfsData, x.keyData.toList = x.slice 0 32 := fun x => rfl
  have hlen : ∀ x : Bytes 32, x.toList.length = 32 := fun x => x.toList_length
  refine List.Vector.toList_injective ?_
  rw [hkey, infoBlk, Bytes.slice_write_other (Or.inl (by omega)),
    Bytes.slice_write_other (Or.inl (by omega))]
  have hself := Bytes.slice_write_self (d := d) (p := 0) (b := key.toList) (by rw [hlen]; omega)
  rw [hlen] at hself
  exact hself

/-- A new file has only its info block. -/
theorem fileLen_created (hc : c.Decrypts) {blks' : List (CfsBlk Digest)} (hnil : blks = [])
    {blk : CfsBlk Digest} {d : CfsData} (hkey : d.keyData = key)
    (hnew : blks' = setBlk hole blks 0 (fsEncryptAndSign c blk secret.toList d 0).2) :
    FileLen c secret key blks' 0 := by
  subst hnil hnew
  exact ⟨⟨_, d, rfl, opens_made hc blk secret d 0, hkey⟩, by simp [length_setBlk],
    Or.inl ⟨rfl, rfl⟩⟩

omit [DecidableEq Digest] in
@[simp] theorem encryptBlk_store {e : FsEnv Digest (Disk Digest)} (blk : CfsBlk Digest)
    (k : List UInt8) (d : CfsData) (n : UInt32) :
    (encryptBlk e w blk k d n).2.store = w.store := rfl

omit [DecidableEq Digest] in
@[simp] theorem randomFill_store {e : FsEnv Digest (Disk Digest)} (n : Nat) :
    (randomFill e w n).2.store = w.store := rfl

/-- What a successful `fs_open` leaves: a new descriptor for the file, the file's length as it was,
and its key in the handle. -/
structure Opened (c : FsCrypto Digest) (secret : Bytes 32) (w w' : World Digest (Disk Digest))
    (nm : FileName) (len : Nat) (h' : Cfs) : Prop where
  fd : h'.fd = w.store.opened + 1
  opened : w'.store.opened = w.store.opened + 1
  name : w'.store.name = Function.update w.store.name (w.store.opened + 1 : Int) (some nm)
  files : ∀ nm', nm' ≠ nm → w'.store.files nm' = w.store.files nm'
  length : FileLen c secret h'.keyData (w'.store.files nm) len
  key : ∀ key, FileLen c secret key (w.store.files nm) len → h'.keyData = key

/-- `fs_open` of a file that is not empty, and whose info block opens. -/
theorem fsOpen_finds (random : Nat → UInt8) (hole : CfsBlk Digest) (w : World Digest (Disk Digest)) (h₀ : Cfs)
    (st fn : List UInt8) (flags mode : Int) (stk : FsStack Digest) (hmany : w.store.opened + 1 < 2147483648)
    {b : CfsBlk Digest} {d : CfsData} (hb : (w.store.files (openName c st fn))[0]? = some b)
    (hopens : Opens c secret 0 d b) (hsmall : (w.store.files (openName c st fn)).length < 4194304) :
    fsOpen (diskEnv c random secret hole) w h₀ st fn flags mode stk =
      (0, ⟨w.store.opened + 1, 0, d.keyData⟩,
        (w.opening (openName c st fn)).moved (w.store.opened + 1) (openName c st fn) 1024) := by
  have hnm : openName c st fn = (c.digestBytes (c.sha2 st), c.digestBytes (c.sha2 fn)) := rfl
  generalize openName c st fn = nm at hb hsmall hnm ⊢
  have hpos : 0 < (w.store.files nm).length := (List.getElem?_eq_some_iff.mp hb).1
  have hfd : ¬ (w.store.opened + 1 : Int) ≤ 0 := by omega
  have hname : (w.opening nm).store.name (w.store.opened + 1) = some nm := by
    rw [World.opening_name, Function.update_self]
  have hsize : ¬ UInt32.ofNat (1024 * ((w.opening nm).store.files nm).length) = 0 := by
    intro hz
    have hnat := congrArg UInt32.toNat hz
    have hlt : 1024 * ((w.opening nm).store.files nm).length < UInt32.size :=
      Nat.mul_lt_mul_of_pos_left hsmall (by decide)
    rw [UInt32.toNat_ofNat_of_lt' hlt] at hnat
    exact absurd hnat (Nat.mul_pos (by decide) hpos).ne'
  have hverify : fsDecryptAndVerify c b (diskEnv c random secret hole).secretValue.toList
    stk.data 0 = (0, d) := hopens stk.data
  rw [fsOpen, if_neg (diskEnv_initMagic _ _ _ _)]
  simp only [diskEnv_crypto, reeOpen_disk c random secret hole w _ _ flags mode stk.mode hmany, ← hnm,
    reeFstat_disk hname, if_neg hfd, if_neg hsize, reeRead_blk World.opening_fds (by decide) hb, hverify, ne_eq,
    not_true_eq_false, if_false]

/-- `fs_open` of an empty file makes its info block, with a new key. -/
theorem fsOpen_creates (random : Nat → UInt8) (secret : Bytes 32) (hole : CfsBlk Digest)
    (w : World Digest (Disk Digest)) (h₀ : Cfs) (st fn : List UInt8) (flags mode : Int) (stk : FsStack Digest)
    (hmany : w.store.opened + 1 < 2147483648) (hnil : w.store.files (openName c st fn) = []) :
    ∃ blk d w', fsOpen (diskEnv c random secret hole) w h₀ st fn flags mode stk =
        (0, ⟨w.store.opened + 1, 0, d.keyData⟩, w') ∧
      w'.store.files = Function.update w.store.files (openName c st fn)
        (setBlk hole (w.store.files (openName c st fn)) 0 (fsEncryptAndSign c blk secret.toList d 0).2) ∧
      (w.opening (openName c st fn)).store.SameFds w'.store := by
  have hnm : openName c st fn = (c.digestBytes (c.sha2 st), c.digestBytes (c.sha2 fn)) := rfl
  generalize openName c st fn = nm at hnil hnm ⊢
  have hfd : ¬ (w.store.opened + 1 : Int) ≤ 0 := by omega
  have hname : (w.opening nm).store.name (w.store.opened + 1) = some nm := by
    rw [World.opening_name, Function.update_self]
  have hsize : UInt32.ofNat (1024 * ((w.opening nm).store.files nm).length) = 0 := by
    have hfiles : (w.opening nm).store.files nm = [] := hnil
    rw [hfiles]
    rfl
  obtain ⟨iv, hiv⟩ : ∃ iv, iv = randomFill (diskEnv c random secret hole) (w.opening nm) 16 := ⟨_, rfl⟩
  obtain ⟨key, hkey⟩ : ∃ key, key = randomFill (diskEnv c random secret hole) iv.2 32 := ⟨_, rfl⟩
  obtain ⟨info, hinfo⟩ : ∃ info, info = infoBlk stk.data key.1 (c.digestBytes (c.sha2 fn))
    (c.digestBytes (c.sha2 st)) := ⟨_, rfl⟩
  have hfresh : info.keyData = key.1 := hinfo ▸ keyData_infoBlk _ _ _ _
  obtain ⟨blk, hblk⟩ : ∃ blk, blk = encryptBlk (diskEnv c random secret hole) key.2 { stk.blk with iv := iv.1 }
    secret.toList info 0 := ⟨_, rfl⟩
  have hstore : blk.2.store = (w.opening nm).store := by
    rw [hblk, encryptBlk_store, hkey, randomFill_store, hiv, randomFill_store]
  have hwrite : reeWrite (diskEnv c random secret hole) blk.2 (w.store.opened + 1) blk.1 =
      (1024, blk.2.wrote hole (w.store.opened + 1) nm 0 blk.1) :=
    reeWrite_disk (hstore ▸ World.opening_fds) rfl _
  refine ⟨{ stk.blk with iv := iv.1 }, info, blk.2.wrote hole (w.store.opened + 1) nm 0 blk.1, ?_, ?_, ?_⟩
  · rw [fsOpen, if_neg (diskEnv_initMagic _ _ _ _)]
    simp only [diskEnv_crypto, reeOpen_disk c random secret hole w _ _ flags mode stk.mode hmany, ← hnm,
      reeFstat_disk hname, if_neg hfd, hsize, ne_eq, not_true_eq_false, if_false, if_true, ← hiv, ← hkey]
    rw [← hinfo, show (diskEnv c random secret hole).secretValue = secret from rfl, ← hblk, hwrite, hfresh]
    exact if_neg (not_not.mpr rfl)
  · rw [World.wrote, Disk.moved_files, Disk.put, hstore, hblk]
    rfl
  · rw [World.wrote, hstore]
    exact ⟨Disk.moved_name hname _, rfl⟩

/-- **`fs_open`** on this store: there are no descriptors left, or the file is open. -/
theorem fsOpen_disk (random : Nat → UInt8) (secret : Bytes 32) (hole : CfsBlk Digest)
    (hc : c.Decrypts) (w : World Digest (Disk Digest)) (h₀ : Cfs) (st fn : List UInt8)
    (flags mode : Int) (stk : FsStack Digest)
    (hlen : HasLen c secret (w.store.files (openName c st fn)) len) :
    ∃ r h' w', fsOpen (diskEnv c random secret hole) w h₀ st fn flags mode stk = (r, h', w') ∧
      (r ≠ 0 ∧ w'.store = w.store ∨ r = 0 ∧ Opened c secret w w' (openName c st fn) len h') := by
  rcases Nat.lt_or_ge (w.store.opened + 1) 2147483648 with hmany | hmany
  · rcases hlen with ⟨hnil, hzero⟩ | ⟨key, hf⟩
    · obtain ⟨blk, d, w', hopen, hfiles, hfds⟩ :=
        fsOpen_creates random secret hole w h₀ st fn flags mode stk hmany hnil
      refine ⟨_, _, _, hopen, Or.inr ⟨rfl, rfl, hfds.opened, hfds.name.trans World.opening_name, ?_, ?_, ?_⟩⟩
      · intro nm' hne
        rw [hfiles, Function.update_of_ne hne]
      · rw [hzero]
        exact fileLen_created hc hnil rfl (by rw [hfiles, Function.update_self])
      · intro key hf
        exact absurd (congrArg List.length hnil) hf.pos.ne'
    · obtain ⟨b, d, hb, hopens, hkey⟩ := hf.info
      have hname : (w.opening (openName c st fn)).store.name (w.store.opened + 1) = some (openName c st fn) := by
        rw [World.opening_name, Function.update_self]
      refine ⟨_, _, _, fsOpen_finds random hole w h₀ st fn flags mode stk hmany hb hopens hf.small,
        Or.inr ⟨rfl, rfl, rfl, (Disk.moved_name hname _).trans World.opening_name, fun _ _ => rfl, ?_, ?_⟩⟩
      · exact hkey.symm ▸ hf
      · intro key' hf'
        exact hkey.trans (hf.key_unique hf')
  · refine ⟨-1, h₀, w, ?_, Or.inl ⟨by decide, rfl⟩⟩
    rw [fsOpen, if_neg (diskEnv_initMagic _ _ _ _)]
    simp only [diskEnv_crypto, reeOpen_full c random secret hole w _ _ flags mode stk.mode hmany]
    rfl

/-! ## 6. Runs on many handles -/

/-- What the clients of the file system do: handles go by number. -/
inductive FilesOp (Digest : Type) where
  | open (i : Nat) (storename filename : List UInt8) (flags mode : Int) (stk : FsStack Digest)
  | lseek (i : Nat) (offset : UInt32)
  | write (i : Nat) (buf : List UInt8) (stk : FsStack Digest)

/-- The world, the open handles and, on record, the file and the end of each write that succeeded and
was not empty. -/
structure FilesState (Digest : Type) where
  world : World Digest (Disk Digest)
  handles : Nat → Option Cfs
  written : List (FileName × Nat)

/-- Nothing is open, and no file has been written. -/
def FilesState.start : FilesState Digest := ⟨⟨Disk.empty, 0, []⟩, fun _ => none, []⟩

/-- One operation.  What is done to a handle that is not open does nothing. -/
def filesStep (e : FsEnv Digest (Disk Digest)) (s : FilesState Digest) :
    FilesOp Digest → FilesState Digest
  | .open i storename filename flags mode stk =>
    let (r, h, w) := fsOpen e s.world ((s.handles i).getD ⟨-1, 0, Bytes.zero 32⟩) storename filename
      flags mode stk
    { s with world := w, handles := Function.update s.handles i (if r = 0 then some h else none) }
  | .lseek i offset =>
    match s.handles i with
    | none => s
    | some h =>
      let (_, h, w) := fsLseek e s.world h offset seekSet
      { s with world := w, handles := Function.update s.handles i (some h) }
  | .write i buf stk =>
    match s.handles i with
    | none => s
    | some h =>
      let (r, h', w) := fsWrite e s.world h buf stk
      let written := match s.world.store.name h.fd with
        | none => s.written
        | some nm =>
          if r ≠ -1 ∧ buf ≠ [] then (nm, h.filepos.toNat + buf.length) :: s.written else s.written
      { world := w, handles := Function.update s.handles i (some h'), written := written }

/-- **The logical length of a file**: the largest end of a write to it, and 0 if there was none. -/
def logicalLength (nm : FileName) : List (FileName × Nat) → Nat
  | [] => 0
  | (nm', n) :: rest => if nm' = nm then max (logicalLength nm rest) n else logicalLength nm rest

/-- The condition on a step: a write keeps the length that the blocks say. -/
def FilesOk (c : FsCrypto Digest) (s : FilesState Digest) : FilesOp Digest → Prop
  | .write i buf _ => ∀ h nm, s.handles i = some h → s.world.store.name h.fd = some nm →
    KeepsLength c h.keyData (s.world.store.files nm) (logicalLength nm s.written) h.filepos buf.length
  | _ => True

/-- Every file says that it is as long as its logical length, and every handle has the key of its
file. -/
structure FilesInv (c : FsCrypto Digest) (secret : Bytes 32) (s : FilesState Digest) : Prop where
  unopened : ∀ fd : Int, (s.world.store.opened : Int) < fd → s.world.store.name fd = none
  files : ∀ nm, HasLen c secret (s.world.store.files nm) (logicalLength nm s.written)
  handles : ∀ i h, s.handles i = some h → ∃ nm, s.world.store.name h.fd = some nm ∧
    FileLen c secret h.keyData (s.world.store.files nm) (logicalLength nm s.written)

theorem filesInv_start : FilesInv c secret (FilesState.start : FilesState Digest) where
  unopened := fun _ _ => rfl
  files := fun _ => Or.inl ⟨rfl, rfl⟩
  handles := fun _ _ h => absurd h (Option.some_ne_none _).symm

variable {s : FilesState Digest}

/-- An operation on handle `i`. -/
theorem FilesInv.update {w' : World Digest (Disk Digest)} {written : List (FileName × Nat)} {i : Nat}
    {o : Option Cfs}
    (hun : ∀ fd : Int, (w'.store.opened : Int) < fd → w'.store.name fd = none)
    (hfiles : ∀ nm, HasLen c secret (w'.store.files nm) (logicalLength nm written))
    (hnew : ∀ h, o = some h → ∃ nm, w'.store.name h.fd = some nm ∧
      FileLen c secret h.keyData (w'.store.files nm) (logicalLength nm written))
    (hold : ∀ j h, s.handles j = some h → ∃ nm, w'.store.name h.fd = some nm ∧
      FileLen c secret h.keyData (w'.store.files nm) (logicalLength nm written)) :
    FilesInv c secret ⟨w', Function.update s.handles i o, written⟩ := by
  refine ⟨hun, hfiles, fun j h hj => ?_⟩
  rcases eq_or_ne j i with rfl | hne
  · have hself : Function.update s.handles j o j = some h := hj
    rw [Function.update_self] at hself
    exact hnew h hself
  · have hother : Function.update s.handles i o j = some h := hj
    rw [Function.update_of_ne hne] at hother
    exact hold j h hother

/-- `fs_open` keeps the lengths, and the keys of the other handles. -/
theorem FilesInv.open (hc : c.Ideal) (hs : FilesInv c secret s) (i : Nat)
    (storename filename : List UInt8) (flags mode : Int) (stk : FsStack Digest) :
    FilesInv c secret (filesStep (diskEnv c random secret hole) s
      (.open i storename filename flags mode stk)) := by
  obtain ⟨r, h', w', hopen, hcases⟩ := fsOpen_disk random secret hole hc.decrypts s.world
    ((s.handles i).getD ⟨-1, 0, Bytes.zero 32⟩) storename filename flags mode stk
    (hs.files (openName c storename filename))
  simp only [filesStep, hopen]
  rcases hcases with ⟨hfail, hsame⟩ | ⟨hzero, ho⟩
  · rw [if_neg hfail]
    refine FilesInv.update ?_ ?_ nofun ?_ <;> rw [hsame]
    · exact hs.unopened
    · exact hs.files
    · exact hs.handles
  · rw [if_pos hzero]
    refine FilesInv.update ?_ ?_ ?_ ?_
    · intro fd hfd
      rw [ho.opened] at hfd
      rw [ho.name, Function.update_of_ne (by omega)]
      exact hs.unopened fd (by omega)
    · intro nm
      rcases eq_or_ne nm (openName c storename filename) with rfl | hne
      · exact Or.inr ⟨_, ho.length⟩
      · rw [ho.files nm hne]
        exact hs.files nm
    · rintro h ⟨⟩
      refine ⟨_, ?_, ho.length⟩
      rw [ho.name, ho.fd, Function.update_self]
    · intro j h hj
      obtain ⟨nm, hname, hlen⟩ := hs.handles j h hj
      have hfd : h.fd ≠ s.world.store.opened + 1 := by
        intro heq
        rw [heq, hs.unopened _ (Int.lt_succ _)] at hname
        exact Option.some_ne_none nm hname.symm
      refine ⟨nm, by rw [ho.name, Function.update_of_ne hfd, hname], ?_⟩
      rcases eq_or_ne nm (openName c storename filename) with rfl | hother
      · exact ho.key _ hlen ▸ ho.length
      · rw [ho.files nm hother]
        exact hlen

omit [DecidableEq Digest] in
theorem fsLseek_disk (random : Nat → UInt8) (secret : Bytes 32) (hole : CfsBlk Digest)
    (hfd : w.store.name h.fd = some nm) (offset : UInt32) :
    ∃ r h' w', fsLseek (diskEnv c random secret hole) w h offset seekSet = (r, h', w') ∧
      w'.store.files = w.store.files ∧ w.store.SameFds w'.store ∧ h'.fd = h.fd ∧
      h'.keyData = h.keyData := by
  have hmoved := Disk.sameFds_moved hfd offset.toNat
  have hset : seekSet ≠ seekCur := by decide
  simp only [fsLseek, reeLseek_set hfd]
  rcases eq_or_ne offset 0xFFFFFFFF with rfl | hne
  · exact ⟨_, _, _, rfl, rfl, hmoved, rfl, rfl⟩
  · simp only [if_neg hne, if_neg hset, if_true]
    exact ⟨_, _, _, rfl, rfl, hmoved, rfl, rfl⟩

/-- A seek changes no file. -/
theorem FilesInv.lseek (hs : FilesInv c secret s) (i : Nat) (offset : UInt32) :
    FilesInv c secret (filesStep (diskEnv c random secret hole) s (.lseek i offset)) := by
  rw [filesStep]
  split
  · exact hs
  · rename_i h hi
    obtain ⟨nm, hname, hlen⟩ := hs.handles i h hi
    obtain ⟨r, h', w', hseek, hfiles, hfds, hfd', hkey'⟩ :=
      fsLseek_disk (c := c) random secret hole hname offset
    rw [hseek]
    refine FilesInv.update ?_ ?_ ?_ ?_
    · rw [hfds.name, hfds.opened]
      exact hs.unopened
    · rw [hfiles]
      exact hs.files
    · rintro h ⟨⟩
      rw [hfds.name, hfiles, hfd', hkey']
      exact ⟨nm, hname, hlen⟩
    · rw [hfds.name, hfiles]
      exact hs.handles

/-- A write that meets the condition keeps the lengths. -/
theorem FilesInv.write (hc : c.Ideal) (hs : FilesInv c secret s) (i : Nat) (buf : List UInt8)
    (stk : FsStack Digest) (hok : FilesOk c s (.write i buf stk)) :
    FilesInv c secret (filesStep (diskEnv c random secret hole) s (.write i buf stk)) := by
  rw [filesStep]
  split
  · exact hs
  · rename_i h hi
    obtain ⟨nm, hname, hlen⟩ := hs.handles i h hi
    obtain ⟨r, h', w', hwrite, hsame, hfd', hkey', hlen'⟩ :=
      fsWrite_len random hole hc hname hlen (hok h nm hi hname) stk
    simp only [hwrite, hname]
    have hlogical : ∀ nm', logicalLength nm' (if r ≠ -1 ∧ buf ≠ [] then
        (nm, h.filepos.toNat + buf.length) :: s.written else s.written) =
          if nm' = nm then (if r ≠ -1 ∧ buf ≠ [] then
            max (logicalLength nm s.written) (h.filepos.toNat + buf.length)
            else logicalLength nm s.written)
          else logicalLength nm' s.written := by
      intro nm'
      by_cases hsucc : r ≠ -1 ∧ buf ≠ [] <;> by_cases heq : nm' = nm
      · rw [if_pos hsucc, if_pos hsucc, if_pos heq, logicalLength, if_pos heq.symm, heq]
      · rw [if_pos hsucc, if_neg heq, logicalLength, if_neg (Ne.symm heq)]
      · rw [if_neg hsucc, if_neg hsucc, if_pos heq, heq]
      · rw [if_neg hsucc, if_neg heq]
    have hkept : ∀ j h₁, s.handles j = some h₁ → ∃ nm₁, w'.store.name h₁.fd = some nm₁ ∧
        FileLen c secret h₁.keyData (w'.store.files nm₁) (logicalLength nm₁ (if r ≠ -1 ∧ buf ≠ [] then
          (nm, h.filepos.toNat + buf.length) :: s.written else s.written)) := by
      intro j h₁ hj
      obtain ⟨nm₁, hname₁, hlen₁⟩ := hs.handles j h₁ hj
      refine ⟨nm₁, by rw [hsame.fds.name, hname₁], ?_⟩
      rw [hlogical]
      rcases eq_or_ne nm₁ nm with rfl | hne
      · rw [if_pos rfl, hlen₁.key_unique hlen]
        exact hlen'
      · rw [if_neg hne, hsame.files nm₁ hne]
        exact hlen₁
    refine FilesInv.update ?_ ?_ ?_ hkept
    · rw [hsame.fds.name, hsame.fds.opened]
      exact hs.unopened
    · intro nm₁
      rw [hlogical]
      rcases eq_or_ne nm₁ nm with rfl | hne
      · rw [if_pos rfl]
        exact Or.inr ⟨_, hlen'⟩
      · rw [if_neg hne, hsame.files nm₁ hne]
        exact hs.files nm₁
    · rintro h₂ ⟨⟩
      rw [hfd', hkey']
      exact hkept i h hi

/-- **One step** that meets the condition keeps the lengths. -/
theorem filesInv_step (hc : c.Ideal) (hs : FilesInv c secret s) : ∀ op : FilesOp Digest,
    FilesOk c s op → FilesInv c secret (filesStep (diskEnv c random secret hole) s op)
  | .open i storename filename flags mode stk, _ =>
    hs.open hc i storename filename flags mode stk
  | .lseek i offset, _ => hs.lseek i offset
  | .write i buf stk, hok => hs.write hc i buf stk hok

/-- **The length that `fs_fstat` reports.**  In every state that a run from an empty store reaches
whose writes all keep the length, and for every open handle, `fs_fstat` succeeds and reports the
logical length of the handle's file. -/
theorem fstat_length_run (c : FsCrypto Digest) (hc : c.Ideal) (random : Nat → UInt8)
    (secret : Bytes 32) (hole : CfsBlk Digest) (ops : List (FilesOp Digest))
    (hops : EveryStep (filesStep (diskEnv c random secret hole)) (FilesOk c) .start ops)
    (i : Nat) (h : Cfs)
    (hi : (exec (filesStep (diskEnv c random secret hole)) .start ops).handles i = some h)
    (stSize : UInt32) (stk : FsStack Digest) (statSize : UInt32) :
    ∃ nm w' size, (exec (filesStep (diskEnv c random secret hole)) .start ops).world.store.name h.fd =
        some nm ∧
      fsFstat (diskEnv c random secret hole)
        (exec (filesStep (diskEnv c random secret hole)) .start ops).world h stSize stk statSize =
          (0, size, w') ∧
      size.toNat =
        logicalLength nm (exec (filesStep (diskEnv c random secret hole)) .start ops).written := by
  have hstart : FilesInv c secret FilesState.start := filesInv_start
  have hinv := exec_invariant (fun s op hs hok => filesInv_step hc hs op hok) ops _ hops hstart
  obtain ⟨nm, hname, hlen⟩ := hinv.handles i h hi
  obtain ⟨w', hstat, hlt⟩ := fsFstat_length hname hlen stSize stk statSize
  exact ⟨nm, w', _, hname, hstat, UInt32.toNat_ofNat_of_lt' hlt⟩

/-! ## 7. A file of two bytes -/

/-- Open a file, write two bytes. -/
def createOps : List (FilesOp SymDigest) :=
  [.open 0 [1] [2] 0 0 zeroStack, .write 0 [1, 2] zeroStack]

/-- Then write one byte over the first. -/
def overwriteOps : List (FilesOp SymDigest) := createOps ++ [.lseek 0 0, .write 0 [9] zeroStack]

def symEnv : FsEnv SymDigest (Disk SymDigest) :=
  diskEnv symCrypto (fun n => UInt8.ofNat n) (Bytes.zero 32) zeroBlk

/-- What `fs_fstat` says about handle 0, and its file's logical length. -/
def statOf (ops : List (FilesOp SymDigest)) : Option (Int × UInt32 × Nat) :=
  let s := exec (filesStep symEnv) .start ops
  match s.handles 0 with
  | none => none
  | some h =>
    let (r, size, _) := fsFstat symEnv s.world h 0 zeroStack 0
    some (r, size, logicalLength (openName symCrypto [1] [2]) s.written)

example : statOf createOps = some (0, 2, 2) := by decide +kernel

theorem createOps_ok : EveryStep (filesStep symEnv) (FilesOk symCrypto) .start createOps := by
  have hpos : ((filesStep symEnv .start (.open 0 [1] [2] 0 0 zeroStack)).handles 0).map Cfs.filepos =
      some 0 := by decide +kernel
  refine ⟨trivial, ?_, trivial⟩
  intro h nm hi hname
  rw [hi] at hpos
  have hzero : h.filepos = 0 := Option.some.inj hpos
  rw [hzero]
  exact Or.inr ⟨by decide, fun _ => ⟨Nat.zero_le _, nofun⟩⟩

/-- The file that was made and written once. -/
theorem fstat_length_run_create :
    ∃ h, (exec (filesStep symEnv) .start createOps).handles 0 = some h ∧ ∃ nm w' size,
      (exec (filesStep symEnv) .start createOps).world.store.name h.fd = some nm ∧
      fsFstat symEnv (exec (filesStep symEnv) .start createOps).world h 0 zeroStack 0 =
        (0, size, w') ∧
      size.toNat = logicalLength nm (exec (filesStep symEnv) .start createOps).written := by
  obtain ⟨h, hi⟩ := Option.isSome_iff_exists.mp (show
    ((exec (filesStep symEnv) .start createOps).handles 0).isSome = true by decide +kernel)
  exact ⟨h, hi, fstat_length_run symCrypto symCrypto_ideal _ _ _ createOps createOps_ok 0 h hi 0
    zeroStack 0⟩

/-- **A write in the middle shortens the file**: the logical length is 2, and `fs_fstat` reports 1. -/
theorem overwrite_shortens : statOf overwriteOps = some (0, 1, 2) := by decide +kernel

end AndixOs.Fs
