/-
# Writes that keep a file

`fs_write` on a well-formed file leaves one, where it does not cut off the rest of its last block: with the bytes
over the content, and all other files as they were (`fsWrite_keeps`).  The other calls on a handle leave every file
alone (`fsRead_leaves`, `fsLseek_to`, `fsFstat_leaves`, `fsClose_disk`), and `fs_open` makes a file or finds one
(`fsOpen_new`, `fsOpen_old`).
-/
import AndixOs.Fs.Length
import AndixOs.Fs.ReadBack

namespace AndixOs.Fs

open AndixOs

variable {Digest : Type} [DecidableEq Digest] {c : FsCrypto Digest} {secret key : Bytes 32}
  {blks : List (CfsBlk Digest)} {ds : List CfsData} {d : CfsData} {p : Nat} {h : Cfs} {nm : FileName}
  {w : World Digest (Disk Digest)}

/-! ## 1. A round -/

/-- What a round leaves that keeps the rest. -/
structure Kept (c : FsCrypto Digest) (secret key : Bytes 32) (blks : List (CfsBlk Digest)) (ds : List CfsData) (p : Nat)
    (chunk : List UInt8) (ds' : List CfsData) : Prop where
  file : IsFile c secret key blks ds'
  content : content ds' = overlay (content ds) p chunk
  blocks : ds'.length = max ds.length (p / 940 + 1)

/-- In a block of the file: if others are behind it, it is full again. -/
theorem Rewritten.kept {pre post : List CfsData} {chunk : List UInt8}
    (hnew : Rewritten c secret key blks ds p chunk (pre ++ dataBlk d (p % 940) chunk :: post))
    (hds : ds = pre ++ d :: post) (hblk : pre.length = p / 940) (hpre : Full 940 (pre.map CfsData.bytes))
    (hrest : Chunked 940 (d.bytes :: post.map CfsData.bytes)) (hcount : d.count.toNat ≤ 940)
    (hoff : p % 940 ≤ d.bytes.length) (hfit : p % 940 + chunk.length ≤ 940)
    (hkeep : KeepsRest (content ds).length p chunk.length) :
    Kept c secret key blks ds p chunk (pre ++ dataBlk d (p % 940) chunk :: post) := by
  refine ⟨⟨hnew.holds, ?_⟩, hnew.overlays.mpr hkeep, ?_⟩
  · have hbytes : (dataBlk d (p % 940) chunk).bytes.length = p % 940 + chunk.length := by
      rw [bytes_dataBlk hfit, slice_eq_take (by rwa [length_bytes hcount] at hoff), List.length_append,
        List.length_take_of_le hoff]
    have hlen : (pre.map CfsData.bytes ++ d.bytes :: post.map CfsData.bytes).flatten.length =
        (content ds).length := by
      rw [content, hds, List.map_append, List.map_cons]
    have hover := (keepsRest_iff hlen hpre hrest (by rw [List.length_map, hblk]) hfit).mpr hkeep
    have hold : Chunked 940 (pre.map CfsData.bytes ++ d.bytes :: post.map CfsData.bytes) :=
      chunked_append.mpr ⟨hpre, hrest⟩
    rw [List.map_append, List.map_cons]
    refine hold.replace (hbytes.trans_le hfit) fun hpost => ?_
    have hfull := hrest.head_full hpost
    omega
  · rw [hds, List.length_append, List.length_append, List.length_cons, List.length_cons, hblk]
    omega

/-- **A round of `fs_write`** whose block a seek reaches. -/
theorem writeRound_keeps (random : Nat → UInt8) (hole : CfsBlk Digest) (hc : c.Decrypts)
    (hfd : w.store.name h.fd = some nm) (hf : IsFile c secret h.keyData (w.store.files nm) ds)
    (hp : h.filepos.toNat ≤ (content ds).length) (hnum : h.filepos.toNat / 940 + 1 < 4194304)
    (blk : CfsBlk Digest) (data : CfsData) :
    ∃ blk₁ d w₁, fetchBlk (diskEnv c random secret hole) w h blk data = (some (blk₁, d), w₁) ∧
      ∀ chunk : List UInt8, h.filepos.toNat % 940 + chunk.length ≤ 940 →
        KeepsRest (content ds).length h.filepos.toNat chunk.length → ∃ blk₂ w₂ ds',
          storeBlk (diskEnv c random secret hole) w₁ h blk₁ (dataBlk d (blkOffset h.filepos) chunk) =
            (some blk₂, w₂) ∧
          SameElse w w₂ nm ∧ Kept c secret h.keyData (w₂.store.files nm) ds h.filepos.toNat chunk ds' := by
  rw [blkOffset_eq]
  obtain ⟨w₁, hfetch, hfiles₁, hfds₁⟩ := fetchBlk_disk c random secret hole hfd blk data
  have hfd₁ : w₁.store.name h.fd = some nm := (congrFun hfds₁.name _).trans hfd
  have hidx : blkIdx (blkOf h.filepos) = h.filepos.toNat / 940 + 1 := by
    rw [blkIdx_eq (by rwa [blkOf_toNat]), blkOf_toNat]
  have hstore (blk₁ : CfsBlk Digest) (x : CfsData) : ∃ blk₂ w₂,
      storeBlk (diskEnv c random secret hole) w₁ h blk₁ x = (some blk₂, w₂) ∧ SameElse w w₂ nm ∧
      w₂.store.files nm = setBlk hole (w.store.files nm) (h.filepos.toNat / 940 + 1)
        (fsEncryptAndSign c blk₁ h.keyData.toList x (UInt32.ofNat (h.filepos.toNat / 940 + 1))).2 := by
    obtain ⟨w₂, hst, hfiles₂, hfds₂⟩ := storeBlk_disk c random secret hole hfd₁ blk₁ x
    refine ⟨_, w₂, hst, ⟨hfds₁.trans hfds₂, fun nm' hne => ?_⟩, ?_⟩
    · rw [hfiles₂, Function.update_of_ne hne, hfiles₁]
    · rw [hfiles₂, Function.update_self, hfiles₁, hidx, ofNat_blkOf]
  rcases Nat.lt_or_ge (h.filepos.toNat / 940) ds.length with hin | hend
  · obtain ⟨pre, d, post, hds, hblk, hpre, hrest, hoff⟩ := hf.locate hp hin
    have hd : ds[h.filepos.toNat / 940]? = some d := by
      rw [hds, ← hblk, List.getElem?_append_right (Nat.le_refl _), Nat.sub_self, List.getElem?_cons_zero]
    obtain ⟨b, hb, hopens⟩ := hf.found hd hnum
    rw [hb, foundBlk, hopens data] at hfetch
    refine ⟨b, d, w₁, hfetch, fun chunk hfit hkeep => ?_⟩
    obtain ⟨blk₂, w₂, hst, hsame, hfiles₂⟩ := hstore b (dataBlk d (h.filepos.toNat % 940) chunk)
    have hnew := hf.rewritten hole hc b hds hblk hpre hrest hoff hfit
    rw [← hfiles₂] at hnew
    have hcount : d.count.toNat ≤ 940 := hf.counts d (hds ▸ List.mem_append_right _ List.mem_cons_self)
    exact ⟨blk₂, w₂, _, hst, hsame, hnew.kept hds hblk hpre hrest hcount hoff hfit hkeep⟩
  · obtain ⟨hfull, hpos⟩ := hf.locate_end hp hend
    rw [hf.notFound hend hnum, foundBlk] at hfetch
    refine ⟨blk, Bytes.zero 944, w₁, hfetch, fun chunk hfit hkeep => ?_⟩
    have hlen : chunk.length ≤ 940 := (Nat.le_add_left _ _).trans hfit
    obtain ⟨blk₂, w₂, hst, hsame, hfiles₂⟩ :=
      hstore blk (dataBlk (Bytes.zero 944) (h.filepos.toNat % 940) chunk)
    have hnew := hf.pushed (d := Bytes.zero 944) hole hc blk hfull hpos hlen
    rw [← hfiles₂] at hnew
    refine ⟨blk₂, w₂, _, hst, hsame, ⟨⟨hnew.holds, ?_⟩, hnew.overlays.mpr hkeep, ?_⟩⟩
    · have hbytes : (dataBlk (Bytes.zero 944) (h.filepos.toNat % 940) chunk).bytes.length ≤ 940 := by
        rw [bytes_dataBlk hfit, List.length_append, Bytes.slice, List.length_take]
        omega
      rw [List.map_append, List.map_singleton]
      exact chunked_append.mpr ⟨hfull, hbytes⟩
    · rw [List.length_append, List.length_singleton]
      omega

/-! ## 2. The loop -/

/-- What a write leaves: the handle behind it, the other files as they were, and the bytes over the content. -/
structure Overwritten (c : FsCrypto Digest) (secret : Bytes 32) (w w' : World Digest (Disk Digest)) (nm : FileName)
    (h h' : Cfs) (ds : List CfsData) (buf : List UInt8) (ds' : List CfsData) : Prop where
  fd : h'.fd = h.fd
  key : h'.keyData = h.keyData
  filepos : h'.filepos.toNat = h.filepos.toNat + buf.length
  same : SameElse w w' nm
  file : IsFile c secret h.keyData (w'.store.files nm) ds'
  content : content ds' = overlay (content ds) h.filepos.toNat buf
  blocks : ds'.length = max ds.length (lastBlk h.filepos.toNat buf.length + 1)

/-- Two writes one behind the other. -/
theorem Overwritten.trans {w₁ w₂ : World Digest (Disk Digest)} {h₁ h₂ : Cfs} {ds₁ ds₂ : List CfsData}
    {a b : List UInt8} (h1 : Overwritten c secret w w₁ nm h h₁ ds a ds₁)
    (h2 : Overwritten c secret w₁ w₂ nm h₁ h₂ ds₁ b ds₂) (hp : h.filepos.toNat ≤ (Fs.content ds).length)
    (hb : 0 < b.length) : Overwritten c secret w w₂ nm h h₂ ds (a ++ b) ds₂ where
  fd := h2.fd.trans h1.fd
  key := h2.key.trans h1.key
  filepos := by rw [h2.filepos, h1.filepos, List.length_append, Nat.add_assoc]
  same := h1.same.trans h2.same
  file := h1.key ▸ h2.file
  content := by rw [h2.content, h1.content, h1.filepos, overlay_overlay hp]
  blocks := by
    have hle : (h.filepos.toNat + (a.length - 1)) / 940 ≤ (h.filepos.toNat + a.length + (b.length - 1)) / 940 :=
      Nat.div_le_div_right (by omega)
    rw [h2.blocks, h1.blocks, h1.filepos, lastBlk, lastBlk, lastBlk, List.length_append,
      show h.filepos.toNat + (a.length + b.length - 1) = h.filepos.toNat + a.length + (b.length - 1) from by omega]
    omega

/-- A round that is a write. -/
theorem Kept.overwritten {w' : World Digest (Disk Digest)} {chunk : List UInt8} {ds' : List CfsData}
    (hsame : SameElse w w' nm) (hfit : h.filepos.toNat % 940 + chunk.length ≤ 940)
    (hpos : h.filepos.toNat + chunk.length < 4294967296)
    (hkept : Kept c secret h.keyData (w'.store.files nm) ds h.filepos.toNat chunk ds') :
    Overwritten c secret w w' nm h (h.advance chunk.length) ds chunk ds' where
  fd := rfl
  key := rfl
  filepos := Cfs.advance_toNat hpos
  same := hsame
  file := hkept.file
  content := hkept.content
  blocks := by
    have hmod := Nat.mod_lt h.filepos.toNat (show 0 < 940 by decide)
    rw [hkept.blocks, lastBlk]
    congr 2
    omega

/-- **The loop of `fs_write`**, where it keeps the rest and a seek reaches its blocks. -/
theorem writeLoop_keeps (random : Nat → UInt8) (hole : CfsBlk Digest) (hc : c.Decrypts) : ∀ (fuel : Nat)
    (w : World Digest (Disk Digest)) (h : Cfs) (blk : CfsBlk Digest) (data : CfsData) (buf : List UInt8)
    (ds : List CfsData), buf.length < fuel → w.store.name h.fd = some nm →
    IsFile c secret h.keyData (w.store.files nm) ds → h.filepos.toNat ≤ (content ds).length →
    lastBlk h.filepos.toNat buf.length + 1 < 4194304 → KeepsRest (content ds).length h.filepos.toNat buf.length →
    ∃ h' w' ds', writeLoop (diskEnv c random secret hole) fuel w h blk data buf = (some h', w') ∧
      Overwritten c secret w w' nm h h' ds buf ds'
  | 0, _, _, _, _, _, _, hfuel, _, _, _, _, _ => absurd hfuel (Nat.not_lt_zero _)
  | fuel + 1, w, h, blk, data, buf, ds, hfuel, hfd, hf, hp, hreach, hkeep => by
    have hfirst : h.filepos.toNat / 940 ≤ lastBlk h.filepos.toNat buf.length :=
      Nat.div_le_div_right (Nat.le_add_right _ _)
    obtain ⟨blk₁, d, w₁, hfetch, hstore⟩ := writeRound_keeps random hole hc hfd hf hp (by omega) blk data
    have hoff : blkOffset h.filepos = h.filepos.toNat % 940 := blkOffset_eq _
    have hmod := Nat.mod_lt h.filepos.toNat (show 0 < 940 by decide)
    have hlt := h.filepos.toNat_lt
    obtain ⟨chunk, hchunk⟩ : ∃ chunk, chunk = buf.take (940 - blkOffset h.filepos) := ⟨_, rfl⟩
    obtain ⟨rest, hrest⟩ : ∃ rest, rest = buf.drop (940 - blkOffset h.filepos) := ⟨_, rfl⟩
    have hsplit : chunk ++ rest = buf := by rw [hchunk, hrest, List.take_append_drop]
    have htake : chunk.length = min (940 - h.filepos.toNat % 940) buf.length := by
      rw [hchunk, List.length_take, hoff]
    have hlen : chunk.length + rest.length = buf.length := by rw [← hsplit, List.length_append]
    have hdiv := Nat.div_add_mod h.filepos.toNat 940
    rcases eq_or_ne rest [] with hlast | hmore
    · rw [hlast, List.append_nil] at hsplit
      obtain ⟨blk₂, w₂, ds₁, hst, hsame, hkept⟩ := hstore chunk (by omega) (hsplit ▸ hkeep)
      rw [writeLoop_round hchunk hrest hfetch hst, if_pos hlast]
      have hdone := hkept.overwritten (h := h) hsame (by omega) (by omega)
      rw [hsplit] at hdone
      exact ⟨_, w₂, ds₁, by rw [hsplit], hdone⟩
    · -- the block is full, and the rest is written behind it
      have hpos : 0 < rest.length := List.length_pos_iff.mpr hmore
      have hfull : h.filepos.toNat % 940 + chunk.length = 940 := by omega
      have hround : KeepsRest (content ds).length h.filepos.toNat chunk.length := Or.inr (by omega)
      obtain ⟨blk₂, w₂, ds₁, hst, hsame, hkept⟩ := hstore chunk (by omega) hround
      have hone := hkept.overwritten (h := h) hsame (by omega) (by omega)
      have hsize : (content ds₁).length = max (content ds).length (h.filepos.toNat + chunk.length) := by
        rw [hkept.content, length_overlay hp]
      have hnextLast : lastBlk (h.advance chunk.length).filepos.toNat rest.length =
          lastBlk h.filepos.toNat buf.length := by
        rw [lastBlk, lastBlk, hone.filepos]
        congr 1
        omega
      have hnextKeep : KeepsRest (content ds₁).length (h.advance chunk.length).filepos.toNat rest.length := by
        rw [hsize, hone.filepos, KeepsRest.second hpos, hlen]
        exact hkeep
      obtain ⟨h', w', ds', hloop, hrun⟩ := writeLoop_keeps random hole hc fuel w₂ (h.advance chunk.length) blk₂
        (dataBlk d (blkOffset h.filepos) chunk) rest ds₁ (by omega) ((congrFun hsame.fds.name _).trans hfd)
        hone.file (by rw [hone.filepos]; omega) (by omega) hnextKeep
      refine ⟨h', w', ds', ?_, hsplit ▸ hone.trans hrun hp hpos⟩
      rw [writeLoop_round hchunk hrest hfetch hst, if_neg hmore, hloop]

/-- **`fs_write`** leaves a well-formed file. -/
theorem fsWrite_keeps (random : Nat → UInt8) (hole : CfsBlk Digest) (hc : c.Decrypts)
    (hfd : w.store.name h.fd = some nm) (hf : IsFile c secret h.keyData (w.store.files nm) ds)
    (hp : h.filepos.toNat ≤ (content ds).length) {buf : List UInt8} (hcount : buf.length < 2147483648)
    (hreach : lastBlk h.filepos.toNat buf.length + 1 < 4194304)
    (hkeep : KeepsRest (content ds).length h.filepos.toNat buf.length) (stk : FsStack Digest) :
    ∃ h' w' ds', fsWrite (diskEnv c random secret hole) w h buf stk = ((buf.length : Int), h', w') ∧
      Overwritten c secret w w' nm h h' ds buf ds' := by
  obtain ⟨h', w', ds', hloop, hover⟩ := writeLoop_keeps random hole hc (buf.length + 1) w h stk.blk stk.data buf ds
    (Nat.lt_succ_self _) hfd hf hp hreach hkeep
  have hret : toInt32 (UInt32.ofNat buf.length) = buf.length := by
    rw [toInt32, UInt32.toNat_ofNat_of_lt' (by rw [UInt32.size]; omega), if_pos hcount]
  refine ⟨h', w', ds', ?_, hover⟩
  rw [fsWrite, if_neg (diskEnv_initMagic _ _ _ _), hloop, ← hret]

/-! ## 3. Calls that write nothing -/

/-- The files and descriptors are as they were; positions of descriptors may differ. -/
structure SameStore (w w' : World Digest (Disk Digest)) : Prop where
  files : w'.store.files = w.store.files
  fds : w.store.SameFds w'.store

omit [DecidableEq Digest] in
theorem SameStore.trans {w' w'' : World Digest (Disk Digest)} (h : SameStore w w') (h' : SameStore w' w'') :
    SameStore w w'' :=
  ⟨h'.files.trans h.files, h.fds.trans h'.fds⟩

omit [DecidableEq Digest] in
theorem sameStore_moved {fd : Int} (hfd : w.store.name fd = some nm) (pos : Nat) :
    SameStore w (w.moved fd nm pos) :=
  ⟨rfl, Disk.sameFds_moved hfd pos⟩

omit [DecidableEq Digest] in
/-- Reading a block, whether it is there or not. -/
theorem reeRead_leaves (c : FsCrypto Digest) (random : Nat → UInt8) (secret : Bytes 32) (hole : CfsBlk Digest)
    {fd : Int} {pos : Nat} (hfd : w.store.fds fd = some (nm, pos)) (hpos : pos % 1024 = 0) (buf : CfsBlk Digest) :
    SameStore w (reeRead (diskEnv c random secret hole) w fd buf).2.2 := by
  rcases hblk : (w.store.files nm)[pos / 1024]? with _ | b
  · rw [reeRead_end hfd hpos hblk]
    exact ⟨rfl, Disk.SameFds.rfl⟩
  · rw [reeRead_blk hfd hpos hblk]
    exact sameStore_moved (by rw [Disk.name, hfd, Option.map_some]) _

theorem readRound_leaves (c : FsCrypto Digest) (random : Nat → UInt8) (secret : Bytes 32) (hole : CfsBlk Digest)
    {s : ReadState Digest (Disk Digest)} (hfd : s.world.store.name h.fd = some nm) :
    SameStore s.world (readRound (diskEnv c random secret hole) h s).2.world := by
  have hmoved := sameStore_moved hfd (blkOf s.filepos * 1024).toNat
  have hread := hmoved.trans (reeRead_leaves c random secret hole World.moved_fds (mod_toNat_mul_1024 _) s.blk)
  rw [readRound, reeLseek_disk hfd]
  simp only [ne_eq, not_true_eq_false, if_false]
  split_ifs <;> exact hread

theorem readLoop_leaves (c : FsCrypto Digest) (random : Nat → UInt8) (secret : Bytes 32) (hole : CfsBlk Digest)
    (count : UInt32) : ∀ (fuel : Nat) (s : ReadState Digest (Disk Digest)) {r : Bool × ReadState Digest (Disk Digest)},
    s.world.store.name h.fd = some nm → readLoop (diskEnv c random secret hole) h count fuel s = some r →
      SameStore s.world r.2.world
  | 0, _, _, _, hloop => absurd hloop (Option.some_ne_none _).symm
  | fuel + 1, s, r, hfd, hloop => by
    have hround := readRound_leaves c random secret hole hfd
    rw [readLoop] at hloop
    generalize readRound (diskEnv c random secret hole) h s = q at hround hloop
    obtain ⟨_ | len, t⟩ := q
    · obtain rfl := Option.some.inj hloop
      exact hround
    · dsimp only at hloop hround
      split_ifs at hloop
      · obtain rfl := Option.some.inj hloop
        exact hround
      · exact hround.trans
          (readLoop_leaves c random secret hole count fuel t ((congrFun hround.fds.name _).trans hfd) hloop)
      · obtain rfl := Option.some.inj hloop
        exact hround

/-- What a read leaves: everything as it was, but for the position of the handle. -/
structure ReadOnly (w : World Digest (Disk Digest)) (h : Cfs) (r : ReadResult Digest (Disk Digest)) : Prop where
  same : SameStore w r.world
  fd : r.handle.fd = h.fd
  key : r.handle.keyData = h.keyData

/-- **`fs_read`** of a file with no block that a seek misses: it gives the content, or fails and leaves the
position. -/
theorem fsRead_leaves (random : Nat → UInt8) (hole : CfsBlk Digest) (hfd : w.store.name h.fd = some nm)
    (hf : IsFile c secret h.keyData (w.store.files nm) ds) (hsmall : ds.length + 1 < 4194304)
    (hp : h.filepos.toNat ≤ (content ds).length) {count : UInt32} (hcount : count.toNat < 2147483648)
    (mem : Nat → UInt8) (stk : FsStack Digest) :
    ∃ r, fsRead (diskEnv c random secret hole) w h mem count stk = some r ∧ ReadOnly w h r ∧
      (Served (content ds).length ds.length h.filepos.toNat count.toNat →
        ReadsContent (content ds) h.filepos.toNat count.toNat mem r) ∧
      (¬ Served (content ds).length ds.length h.filepos.toNat count.toNat →
        r.ret = -1 ∧ r.handle.filepos = h.filepos) := by
  obtain ⟨hok, hfail⟩ := readLoop_file random hole (Or.inl hsmall) count (count.toNat + 1)
    (readStart w h mem count stk) (Nat.lt_succ_self _) hfd hf hp (Nat.zero_add _)
  have hsame {b : Bool} {t : ReadState Digest (Disk Digest)} (hloop : readLoop (diskEnv c random secret hole) h count
      (count.toNat + 1) (readStart w h mem count stk) = some (b, t)) : SameStore w t.world :=
    readLoop_leaves c random secret hole count _ (readStart w h mem count stk) hfd hloop
  rw [fsRead, if_neg (diskEnv_initMagic _ _ _ _)]
  by_cases hserved : Served (content ds).length ds.length h.filepos.toNat count.toNat
  · obtain ⟨t, hloop, hpos, hread, hbuf⟩ := hok hserved
    have htotal : t.totalread.toNat = min count.toNat ((content ds).length - h.filepos.toNat) :=
      hread.trans (Nat.zero_add _)
    have hret : toInt32 t.totalread = (min count.toNat ((content ds).length - h.filepos.toNat) : Nat) := by
      rw [toInt32, if_pos (by omega), htotal]
    rw [hloop]
    refine ⟨_, rfl, ⟨hsame hloop, rfl, rfl⟩, fun _ => ⟨?_, hbuf, hpos⟩, fun hnot => absurd hserved hnot⟩
    exact hret
  · obtain ⟨t, hloop⟩ := hfail hserved
    rw [hloop]
    exact ⟨_, rfl, ⟨hsame hloop, rfl, rfl⟩, fun hyes => absurd hyes hserved, fun _ => ⟨rfl, rfl⟩⟩

omit [DecidableEq Digest] in
/-- **`fs_lseek`** from the start. -/
theorem fsLseek_to (c : FsCrypto Digest) (random : Nat → UInt8) (secret : Bytes 32) (hole : CfsBlk Digest)
    (hfd : w.store.name h.fd = some nm) {offset : UInt32} (hoff : offset ≠ 0xFFFFFFFF) :
    fsLseek (diskEnv c random secret hole) w h offset seekSet =
      (0, { h with filepos := offset }, w.moved h.fd nm offset.toNat) := by
  have hset : seekSet ≠ seekCur := by decide
  have hzero : (0 : UInt32) ≠ 0xFFFFFFFF := by decide
  simp only [fsLseek, reeLseek_set hfd, if_neg hoff, if_neg hzero, if_neg hset, if_true]

/-- The descriptor is gone. -/
def World.shut (w : World Digest (Disk Digest)) (fd : Int) : World Digest (Disk Digest) :=
  { w with store := { w.store with fds := Function.update w.store.fds fd none } }

omit [DecidableEq Digest] in
theorem World.shut_name (w : World Digest (Disk Digest)) (fd : Int) :
    (w.shut fd).store.name = Function.update w.store.name fd none := by
  funext fd'
  rcases eq_or_ne fd' fd with rfl | hne
  · rw [Function.update_self]
    have hgone : (w.shut fd').store.fds fd' = none := Function.update_self _ _ _
    rw [Disk.name, hgone, Option.map_none]
  · rw [Function.update_of_ne hne]
    have hother : (w.shut fd).store.fds fd' = w.store.fds fd' := Function.update_of_ne hne _ _
    rw [Disk.name, hother, Disk.name]

omit [DecidableEq Digest] in
/-- **`fs_close`.** -/
theorem fsClose_disk (c : FsCrypto Digest) (random : Nat → UInt8) (secret : Bytes 32) (hole : CfsBlk Digest)
    (hfd : w.store.name h.fd = some nm) : fsClose (diskEnv c random secret hole) w h = (0, w.shut h.fd) := by
  obtain ⟨⟨nm', pos⟩, hpos, -⟩ := Option.map_eq_some_iff.mp hfd
  have hzero : toInt32 0 = 0 := by decide
  simp only [fsClose, reeClose, serviceDoRequest, diskEnv, Disk.serve, hpos, hzero, World.shut]

/-! ## 4. Opening and asking for the length -/

/-- The length that the blocks of a well-formed file say. -/
theorem IsFile.fileLen (hf : IsFile c secret key blks ds) (hsmall : ds.length + 1 < 4194304) :
    FileLen c secret key blks (content ds).length := by
  refine ⟨hf.info, hf.length ▸ hsmall, ?_⟩
  rcases List.eq_nil_or_concat ds with rfl | ⟨pre, d, rfl⟩
  · exact Or.inl ⟨hf.length, rfl⟩
  · rw [List.concat_eq_append] at *
    have hchunked := hf.chunked
    rw [List.map_append, List.map_singleton] at hchunked
    have hcount : d.count.toNat ≤ 940 := hf.counts d (by simp)
    obtain ⟨b, hb, hopens⟩ := hf.data pre.length d (by simp)
    refine Or.inr ⟨pre.length, d, by rw [hf.length]; simp, ⟨b, hb, hopens⟩, hcount, ?_⟩
    rw [content, List.map_append, List.map_singleton, (chunked_append.mp hchunked).1.length_snoc, List.length_map,
      length_bytes hcount]

/-- The key and the data of a file are those that its blocks open to. -/
theorem IsFile.unique {key' : Bytes 32} {ds' : List CfsData} (hf : IsFile c secret key blks ds)
    (hf' : IsFile c secret key' blks ds') : key = key' ∧ ds = ds' := by
  obtain ⟨b, d, hb, hopens, hkey⟩ := hf.info
  obtain ⟨b', d', hb', hopens', hkey'⟩ := hf'.info
  obtain rfl : b = b' := Option.some.inj (hb.symm.trans hb')
  have hd : d = d' := congrArg Prod.snd ((hopens (Bytes.zero 944)).symm.trans (hopens' (Bytes.zero 944)))
  have hsame : key = key' := by rw [← hkey, ← hkey', hd]
  subst hsame
  exact ⟨rfl, hf.toHolds.unique hf'.toHolds⟩

/-- What a successful `fs_open` leaves: a new descriptor at the start of the file, with its key in the handle. -/
structure OpensFile (c : FsCrypto Digest) (secret : Bytes 32) (w w' : World Digest (Disk Digest)) (nm : FileName)
    (h' : Cfs) (ds : List CfsData) : Prop where
  fd : h'.fd = w.store.opened + 1
  filepos : h'.filepos = 0
  fds : (w.opening nm).store.SameFds w'.store
  files : ∀ nm', nm' ≠ nm → w'.store.files nm' = w.store.files nm'
  file : IsFile c secret h'.keyData (w'.store.files nm) ds

/-- **`fs_open`** of a name that has no file: it makes an empty one. -/
theorem fsOpen_new (random : Nat → UInt8) (secret : Bytes 32) (hole : CfsBlk Digest) (hc : c.Decrypts)
    (w : World Digest (Disk Digest)) (h₀ : Cfs) (st fn : List UInt8) (flags mode : Int) (stk : FsStack Digest)
    (hmany : w.store.opened + 1 < 2147483648) (hnil : w.store.files (openName c st fn) = []) :
    ∃ h' w', fsOpen (diskEnv c random secret hole) w h₀ st fn flags mode stk = (0, h', w') ∧
      OpensFile c secret w w' (openName c st fn) h' [] := by
  obtain ⟨blk, d, w', hopen, hfiles, hfds⟩ := fsOpen_creates random secret hole w h₀ st fn flags mode stk hmany hnil
  refine ⟨_, w', hopen, rfl, rfl, hfds, fun nm' hne => ?_, ⟨⟨?_, ?_, nofun, nofun⟩, trivial⟩⟩
  · rw [hfiles, Function.update_of_ne hne]
  · rw [hfiles, Function.update_self, hnil]
    exact ⟨_, d, rfl, opens_made hc blk secret d 0, rfl⟩
  · rw [hfiles, Function.update_self, hnil]
    rfl

/-- **`fs_open`** of a file that is there. -/
theorem fsOpen_old (random : Nat → UInt8) (hole : CfsBlk Digest) (w : World Digest (Disk Digest)) (h₀ : Cfs)
    (st fn : List UInt8) (flags mode : Int) (stk : FsStack Digest) (hmany : w.store.opened + 1 < 2147483648)
    (hf : IsFile c secret key (w.store.files (openName c st fn)) ds) (hsmall : ds.length + 1 < 4194304) :
    ∃ h' w', fsOpen (diskEnv c random secret hole) w h₀ st fn flags mode stk = (0, h', w') ∧
      OpensFile c secret w w' (openName c st fn) h' ds ∧ w'.store.files = w.store.files := by
  obtain ⟨b, d, hb, hopens, hkey⟩ := hf.info
  have hname : (w.opening (openName c st fn)).store.name (w.store.opened + 1) = some (openName c st fn) := by
    rw [World.opening_name, Function.update_self]
  exact ⟨_, _, fsOpen_finds random hole w h₀ st fn flags mode stk hmany hb hopens (hf.length ▸ hsmall),
    ⟨rfl, rfl, ⟨Disk.moved_name hname _, rfl⟩, fun _ _ => rfl, hkey.symm ▸ hf⟩, rfl⟩

/-- `fs_open` with all descriptors in use. -/
theorem fsOpen_full (c : FsCrypto Digest) (random : Nat → UInt8) (secret : Bytes 32) (hole : CfsBlk Digest)
    (w : World Digest (Disk Digest)) (h₀ : Cfs) (st fn : List UInt8) (flags mode : Int) (stk : FsStack Digest)
    (hmany : 2147483648 ≤ w.store.opened + 1) :
    fsOpen (diskEnv c random secret hole) w h₀ st fn flags mode stk = (-1, h₀, w) := by
  rw [fsOpen, if_neg (diskEnv_initMagic _ _ _ _)]
  simp only [diskEnv_crypto, reeOpen_full c random secret hole w _ _ flags mode stk.mode hmany]
  rfl

/-- **`fs_fstat`** reports the length, and changes nothing. -/
theorem fsFstat_leaves (random : Nat → UInt8) (hole : CfsBlk Digest) (hfd : w.store.name h.fd = some nm)
    (hf : IsFile c secret h.keyData (w.store.files nm) ds) (hsmall : ds.length + 1 < 4194304) (stSize : UInt32)
    (stk : FsStack Digest) (statSize : UInt32) :
    ∃ w', fsFstat (diskEnv c random secret hole) w h stSize stk statSize =
        (0, UInt32.ofNat (content ds).length, w') ∧ SameStore w w' := by
  obtain ⟨w', hstat⟩ : ∃ w', fsFstat (diskEnv c random secret hole) w h stSize stk statSize =
      (0, UInt32.ofNat (content ds).length, w') := by
    obtain ⟨w', hstat, -⟩ := fsFstat_length hfd (hf.fileLen hsmall) stSize stk statSize
    exact ⟨w', hstat⟩
  refine ⟨w', hstat, ?_⟩
  have hsame : SameStore w (fsFstat (diskEnv c random secret hole) w h stSize stk statSize).2.2 := by
    rw [fsFstat, if_neg (diskEnv_initMagic _ _ _ _), reeFstat_disk hfd]
    generalize hn : UInt32.ofNat (1024 * (w.store.files nm).length) / 1024 - 1 = n
    have hread := (sameStore_moved hfd (n * 1024).toNat).trans
      (reeRead_leaves c random secret hole World.moved_fds (mod_toNat_mul_1024 n) stk.blk)
    simp only [hn, reeLseek_disk hfd, ne_eq, not_true_eq_false, if_false]
    split_ifs
    · exact ⟨rfl, Disk.SameFds.rfl⟩
    all_goals exact hread
  rw [hstat] at hsame
  exact hsame

end AndixOs.Fs
