/-
# What `fs_read` gives back

On an honest store `fs_read` walks through the blocks of the file from the position of the handle on.
It knows that it is at the end by a block that is not full.  Where the last block is full there is no
such block: the next round finds nothing, and the call fails, although the bytes that remain (or none)
have been read.

`fsRead_content_iff` says exactly when the call gives the bytes that remain.
-/
import AndixOs.Fs.Content
import AndixOs.Fs.Read

namespace AndixOs.Fs

open AndixOs

variable {Digest : Type} [DecidableEq Digest] {c : FsCrypto Digest} {random : Nat → UInt8}
  {secret : Bytes 32} {hole : CfsBlk Digest} {ds : List CfsData} {h : Cfs} {nm : FileName}
  {s : ReadState Digest (Disk Digest)}

/-! ## 1. A round of `fs_read` -/

/-- A round that finds its block. -/
theorem readRound_found (random : Nat → UInt8) (secret : Bytes 32) (hole : CfsBlk Digest)
    {b : CfsBlk Digest} {d : CfsData} (hfd : s.world.store.name h.fd = some nm)
    (hb : (s.world.store.files nm)[blkIdx (blkOf s.filepos)]? = some b)
    (hopens : Opens c h.keyData (blkOf s.filepos) d b) (hcount : d.count.toNat ≤ 940)
    (hoff : blkOffset s.filepos ≤ d.count.toNat) :
    ∃ w reading, readRound (diskEnv c random secret hole) h s =
        (some d.count, (s.fetched w b d).copied reading) ∧
      w.store.files = s.world.store.files ∧ s.world.store.SameFds w.store ∧
      reading.toNat = min (d.count.toNat - blkOffset s.filepos) s.left.toNat := by
  have hmoved := Disk.sameFds_moved hfd (blkOf s.filepos * 1024).toNat
  have hnext := hmoved.trans (Disk.sameFds_moved ((congrFun hmoved.name _).trans hfd)
    ((blkOf s.filepos * 1024).toNat + 1024))
  have hlen : ¬ d.count > 940 := UInt32.not_lt.mpr (UInt32.le_iff_toNat_le.mpr hcount)
  obtain ⟨hneg, hreading⟩ := reading_eq hlen (blkOffset_lt s.filepos)
  have hverify : fsDecryptAndVerify (diskEnv c random secret hole).crypto b h.keyData.toList s.data
      (blkOf s.filepos) = (0, d) := hopens s.data
  refine ⟨(s.world.moved h.fd nm _).moved h.fd nm _,
    if d.count - UInt32.ofNat (blkOffset s.filepos) > s.left then s.left
    else d.count - UInt32.ofNat (blkOffset s.filepos), ?_, rfl, hnext, ?_⟩
  · simp only [readRound, reeLseek_disk hfd]
    rw [reeRead_blk World.moved_fds (mod_toNat_mul_1024 _) hb]
    simp only [hverify, ne_eq, not_true_eq_false, if_false]
    rw [if_neg hlen, if_neg (hneg.mpr hoff)]
    rfl
  · rw [← hreading hoff]
    split_ifs with hleft
    · exact (Nat.min_eq_right (UInt32.lt_iff_toNat_lt.mp hleft).le).symm
    · exact (Nat.min_eq_left (UInt32.le_iff_toNat_le.mp (UInt32.not_lt.mp hleft))).symm

/-- A round that finds no block, or one that does not verify. -/
theorem readRound_lost (hfd : s.world.store.name h.fd = some nm)
    (hb : ∀ b, (s.world.store.files nm)[blkIdx (blkOf s.filepos)]? = some b →
      (fsDecryptAndVerify c b h.keyData.toList s.data (blkOf s.filepos)).1 ≠ 0) :
    ∃ t, readRound (diskEnv c random secret hole) h s = (none, t) := by
  simp only [readRound, reeLseek_disk hfd]
  rcases hblk : (s.world.store.files nm)[blkIdx (blkOf s.filepos)]? with _ | b
  · rw [reeRead_end World.moved_fds (mod_toNat_mul_1024 _) hblk]
    exact ⟨_, rfl⟩
  · rw [reeRead_blk World.moved_fds (mod_toNat_mul_1024 _) hblk]
    simp [hb b hblk]

/-! ## 2. The loop -/

/-- A read of `n` bytes at `p` of a content of length `len` in `blocks` data blocks never asks for a
block that is not there: it does not run past a full last block, nor stand behind one, and a seek
reaches the last block that it asks for. -/
def Served (len blocks p n : Nat) : Prop :=
  ¬ (len = 940 * blocks ∧ (p = len ∨ len < p + n)) ∧ min (p + (n - 1)) len / 940 + 1 < 4194304

/-- A read that goes on behind a full block. -/
theorem Served.next {len blocks p n m : Nat} (hp : p < len) (hm : 0 < m) :
    Served len blocks (p + n) m ↔ Served len blocks p (n + m) := by
  have hlast : p + n + (m - 1) = p + (n + m - 1) := by omega
  rw [Served, Served, hlast]
  refine and_congr_left' (not_congr (and_congr_right' ?_))
  omega

variable {blks : List (CfsBlk Digest)} {p : Nat}

/-- What lies in the block of the position, and behind it. -/
structure InBlock (ds : List CfsData) (p : Nat) (d : CfsData) : Prop where
  data : ds[p / 940]? = some d
  count : d.count.toNat ≤ 940
  offset : p % 940 ≤ d.count.toNat
  bytes : ∀ n, n ≤ d.count.toNat - p % 940 → d.slice (4 + p % 940) n = ((content ds).drop p).take n
  inside : p + (d.count.toNat - p % 940) ≤ (content ds).length
  last : d.count.toNat < 940 → p + (d.count.toNat - p % 940) = (content ds).length ∧
    (content ds).length < 940 * ds.length

/-- A position whose block is in the file. -/
theorem IsFile.inBlock {key : Bytes 32} (hf : IsFile c secret key blks ds)
    (hp : p ≤ (content ds).length) (hblk : p / 940 < ds.length) : ∃ d, InBlock ds p d := by
  obtain ⟨pre, d, post, rfl, hlen, hpre, hrest, hoff⟩ := hf.locate hp hblk
  have hcount : d.count.toNat ≤ 940 := hf.counts d (List.mem_append_right _ List.mem_cons_self)
  rw [length_bytes hcount] at hoff
  have hdiv := Nat.div_add_mod p 940
  have hcontent : content (pre ++ d :: post) =
      (pre.map CfsData.bytes ++ d.bytes :: post.map CfsData.bytes).flatten := by
    rw [content, List.map_append, List.map_cons]
  have hdrop : (content (pre ++ d :: post)).drop p =
      d.bytes.drop (p % 940) ++ (post.map CfsData.bytes).flatten := by
    have hflat : (pre.map CfsData.bytes ++ d.bytes :: post.map CfsData.bytes).flatten.drop
        (940 * (pre.map CfsData.bytes).length + p % 940) = _ :=
      drop_flatten hpre (hoff.trans (length_bytes hcount).ge)
    rw [List.length_map, hlen, hdiv] at hflat
    rw [hcontent, hflat]
  have hbehind := congrArg List.length hdrop
  rw [List.length_drop, List.length_append, List.length_drop, length_bytes hcount] at hbehind
  refine ⟨d, ⟨?_, hcount, hoff, fun n hn => ?_, by omega, fun hpartial => ?_⟩⟩
  · rw [← hlen, List.getElem?_append_right (Nat.le_refl _), Nat.sub_self, List.getElem?_cons_zero]
  · have hin : n ≤ (d.bytes.drop (p % 940)).length := by
      rw [List.length_drop, length_bytes hcount]
      exact hn
    rw [hdrop, List.take_append_of_le_length hin, CfsData.bytes, ← Bytes.slice_drop_take,
      Bytes.slice, Bytes.slice, List.take_take, Nat.min_eq_left hn]
  · -- a block that is not full has none behind it
    have hpost : post = [] := by
      by_contra hne
      have hfull := hrest.head_full fun hnil => hne (List.map_eq_nil_iff.mp hnil)
      rw [length_bytes hcount] at hfull
      omega
    subst hpost
    rw [List.map_nil, List.flatten_nil, List.length_nil] at hbehind
    rw [List.length_append, List.length_singleton]
    omega

theorem take_to_end {l : List UInt8} {n m : Nat} (hle : n ≤ m) (h : m ≤ n ∨ l.length ≤ p + n) :
    (l.drop p).take n = (l.drop p).take m := by
  rcases h with hge | hend
  · rw [Nat.le_antisymm hle hge]
  · rw [List.take_of_length_le (by rw [List.length_drop]; omega),
      List.take_of_length_le (by rw [List.length_drop]; omega)]

/-- The next bytes of a string behind the ones before. -/
theorem place_take (buf : Nat → UInt8) {l : List UInt8} {n m dst : Nat} (h : p + n ≤ l.length)
    (hle : n ≤ m) : place (place buf dst ((l.drop p).take n)) (dst + n)
      ((l.drop (p + n)).take (m - n)) = place buf dst ((l.drop p).take m) := by
  have hlen : ((l.drop p).take n).length = n :=
    List.length_take_of_le (by rw [List.length_drop]; omega)
  have happend := place_append buf dst ((l.drop p).take n) ((l.drop (p + n)).take (m - n))
  rw [hlen] at happend
  rw [happend, ← List.drop_drop, ← List.take_add, Nat.add_sub_cancel' hle]

/-- From `s` to `t`, the next `n` bytes of the content have come into the buffer. -/
structure PassedOn (ds : List CfsData) (s t : ReadState Digest (Disk Digest)) (n : Nat) : Prop where
  files : t.world.store.files = s.world.store.files
  fds : s.world.store.SameFds t.world.store
  filepos : t.filepos.toNat = s.filepos.toNat + n
  totalread : t.totalread.toNat = s.totalread.toNat + n
  left : t.left.toNat = s.left.toNat - n
  buf : t.buf = place s.buf s.totalread.toNat (((content ds).drop s.filepos.toNat).take n)

/-- A round that finds its block, and how the loop goes on after it. -/
theorem readLoop_round (random : Nat → UInt8) (secret : Bytes 32) (hole : CfsBlk Digest)
    {b : CfsBlk Digest} {d : CfsData} {count : UInt32} (fuel : Nat)
    (hfd : s.world.store.name h.fd = some nm)
    (hb : (s.world.store.files nm)[blkIdx (blkOf s.filepos)]? = some b)
    (hopens : Opens c h.keyData (blkOf s.filepos) d b) (hd : InBlock ds s.filepos.toNat d)
    (hnum : s.filepos.toNat / 940 + 1 < 4194304)
    (htotal : s.totalread.toNat + s.left.toNat = count.toNat) :
    ∃ t n, n = min (d.count.toNat - s.filepos.toNat % 940) s.left.toNat ∧ PassedOn ds s t n ∧
      readLoop (diskEnv c random secret hole) h count (fuel + 1) s =
        if d.count < 940 ∧ t.totalread < count then some (true, t)
        else if t.totalread < count then readLoop (diskEnv c random secret hole) h count fuel t
        else some (true, t) := by
  have hcountlt := count.toNat_lt
  have hoff := blkOffset_eq s.filepos
  have hcount := hd.count
  obtain ⟨w, reading, hround, hfiles, hfds, hreading⟩ :=
    readRound_found random secret hole hfd hb hopens hd.count (hoff.symm ▸ hd.offset)
  rw [hoff] at hreading
  refine ⟨(s.fetched w b d).copied reading, reading.toNat, hreading,
    ⟨hfiles, hfds, ?_, ?_, ?_, ?_⟩, ?_⟩
  · have hadd := UInt32.toNat_add s.filepos reading
    rw [Nat.mod_eq_of_lt (by omega)] at hadd
    exact hadd
  · have hadd := UInt32.toNat_add s.totalread reading
    rw [Nat.mod_eq_of_lt (by omega)] at hadd
    exact hadd
  · have hfits : reading ≤ s.left := UInt32.le_iff_toNat_le.mpr (by omega)
    exact UInt32.toNat_sub_of_le _ _ hfits
  · rw [← hd.bytes _ (by omega), ← hoff]
    rfl
  · rw [readLoop, hround]

/-- **The loop of `fs_read`** on a well-formed file.  Its last block is one that a seek reaches, or the block that
the seek ends at does not open under the number asked for. -/
theorem readLoop_file (random : Nat → UInt8) (hole : CfsBlk Digest) (hc : ds.length + 1 < 4194304 ∨ c.Ideal)
    (count : UInt32) : ∀ (fuel : Nat)
    (s : ReadState Digest (Disk Digest)), s.left.toNat < fuel →
    s.world.store.name h.fd = some nm →
    IsFile c secret h.keyData (s.world.store.files nm) ds → s.filepos.toNat ≤ (content ds).length →
    s.totalread.toNat + s.left.toNat = count.toNat →
    (Served (content ds).length ds.length s.filepos.toNat s.left.toNat → ∃ t,
      readLoop (diskEnv c random secret hole) h count fuel s = some (true, t) ∧
      t.filepos.toNat =
        s.filepos.toNat + min s.left.toNat ((content ds).length - s.filepos.toNat) ∧
      t.totalread.toNat =
        s.totalread.toNat + min s.left.toNat ((content ds).length - s.filepos.toNat) ∧
      t.buf = place s.buf s.totalread.toNat
        (((content ds).drop s.filepos.toNat).take s.left.toNat)) ∧
    (¬ Served (content ds).length ds.length s.filepos.toNat s.left.toNat → ∃ t,
      readLoop (diskEnv c random secret hole) h count fuel s = some (false, t))
  | 0, _, hfuel, _, _, _, _ => absurd hfuel (Nat.not_lt_zero _)
  | fuel + 1, s, hfuel, hfd, hf, hp, htotal => by
    have hcountlt := count.toNat_lt
    have hlost : (∃ t, readRound (diskEnv c random secret hole) h s = (none, t)) →
        ∃ t, readLoop (diskEnv c random secret hole) h count (fuel + 1) s = some (false, t) := by
      rintro ⟨t, hround⟩
      exact ⟨t, by rw [readLoop, hround]⟩
    have hle := hf.content_le
    rcases Nat.lt_or_ge (s.filepos.toNat / 940 + 1) 4194304 with hnum | hnum
    · rcases Nat.lt_or_ge (s.filepos.toNat / 940) ds.length with hin | hend
      · obtain ⟨d, hd⟩ := hf.inBlock hp hin
        obtain ⟨b, hb, hopens⟩ := hf.found hd.data hnum
        have hdiv := Nat.div_add_mod s.filepos.toNat 940
        have hinside := hd.inside
        have hcount := hd.count
        obtain ⟨t, n, hn, hpassed, hstep⟩ :=
          readLoop_round random secret hole fuel hfd hb hopens hd hnum htotal
        have hfilepos := hpassed.filepos
        have hread := hpassed.totalread
        have hleft := hpassed.left
        have hmore : t.totalread < count ↔ n < s.left.toNat := by
          rw [UInt32.lt_iff_toNat_lt]
          omega
        have hpart : d.count < 940 ↔ d.count.toNat < 940 := UInt32.lt_iff_toNat_lt
        simp only [hstep, hmore, hpart]
        rcases Nat.lt_or_ge d.count.toNat 940 with hpartial | hfull
        · -- the last block
          obtain ⟨hend, hshort⟩ := hd.last hpartial
          have hserved : Served (content ds).length ds.length s.filepos.toNat s.left.toNat :=
            ⟨fun hbad => hshort.ne hbad.1, by omega⟩
          have htake := take_to_end (l := content ds) (p := s.filepos.toNat)
            (show n ≤ s.left.toNat by omega) (by omega)
          refine ⟨fun _ => ⟨t, ?_, by omega, by omega, hpassed.buf.trans (by rw [htake])⟩,
            fun hnot => absurd hserved hnot⟩
          split_ifs <;> first | rfl | omega
        · rcases Nat.lt_or_ge n s.left.toNat with hgo | hstop
          · rw [if_neg (fun hlast => by omega), if_pos hgo]
            have hnext := readLoop_file random hole hc count fuel t (by omega)
              ((congrFun hpassed.fds.name _).trans hfd)
              (hpassed.files.symm ▸ hf) (by omega) (by omega)
            have hiff : Served (content ds).length ds.length t.filepos.toNat t.left.toNat ↔
                Served (content ds).length ds.length s.filepos.toNat s.left.toNat := by
              rw [hfilepos, Served.next (by omega) (by omega), hleft,
                Nat.add_sub_cancel' hgo.le]
            rw [hiff] at hnext
            refine ⟨fun hserved => ?_, hnext.2⟩
            obtain ⟨u, hloop, hupos, huread, hubuf⟩ := hnext.1 hserved
            refine ⟨u, hloop, by omega, by omega, ?_⟩
            rw [hubuf, hpassed.buf, hread, hfilepos, hleft]
            exact place_take _ (by omega) hgo.le
          · have hserved : Served (content ds).length ds.length s.filepos.toNat s.left.toNat :=
              ⟨fun hbad => by omega, by omega⟩
            have htake := take_to_end (l := content ds) (p := s.filepos.toNat)
              (show n ≤ s.left.toNat by omega) (Or.inl hstop)
            refine ⟨fun _ => ⟨t, ?_, by omega, by omega, hpassed.buf.trans (by rw [htake])⟩,
              fun hnot => absurd hserved hnot⟩
            split_ifs <;> first | rfl | omega
      · -- all blocks are full, and the position is the end
        obtain ⟨hfull, hpos⟩ := hf.locate_end hp hend
        have hlen : (content ds).length = 940 * ds.length := by
          rw [content, hfull.length_flatten, List.length_map]
        refine ⟨fun hserved => absurd ⟨hlen, Or.inl (hpos.trans hlen.symm)⟩ hserved.1, fun _ => ?_⟩
        refine hlost (readRound_lost hfd fun b hb => ?_)
        rw [hf.notFound hend hnum] at hb
        exact absurd hb (Option.some_ne_none b).symm
    · obtain hsmall | hc := hc
      · omega
      obtain ⟨b, hb, hrefused⟩ := hf.misled hc s.filepos (by omega) hnum
      refine ⟨fun hserved => ?_, fun _ => hlost (readRound_lost hfd fun b' hb' => ?_)⟩
      · have hreach := hserved.2
        omega
      · obtain rfl : b = b' := Option.some.inj (hb.symm.trans hb')
        exact hrefused s.data

/-! ## 3. When `fs_read` gives the content -/

/-- What is asked of a read of `count` bytes at `p`: it returns how many of them there are, they are in
the buffer, and the position is behind them. -/
structure ReadsContent (bytes : List UInt8) (p count : Nat) (mem : Nat → UInt8)
    (r : ReadResult Digest (Disk Digest)) : Prop where
  ret : r.ret = min count (bytes.length - p)
  buf : r.buf = place mem 0 ((bytes.drop p).take count)
  filepos : r.handle.filepos.toNat = p + min count (bytes.length - p)

/-- What the call returns, in both cases. -/
theorem fsRead_file (random : Nat → UInt8) (hole : CfsBlk Digest) (hc : c.Ideal)
    {w : World Digest (Disk Digest)} (hfd : w.store.name h.fd = some nm)
    (hf : IsFile c secret h.keyData (w.store.files nm) ds)
    (hp : h.filepos.toNat ≤ (content ds).length) {count : UInt32} (hcount : count.toNat < 2147483648)
    (mem : Nat → UInt8) (stk : FsStack Digest) :
    ∃ r, fsRead (diskEnv c random secret hole) w h mem count stk = some r ∧
      (Served (content ds).length ds.length h.filepos.toNat count.toNat →
        ReadsContent (content ds) h.filepos.toNat count.toNat mem r) ∧
      (¬ Served (content ds).length ds.length h.filepos.toNat count.toNat → r.ret = -1) := by
  obtain ⟨hok, hfail⟩ := readLoop_file random hole (Or.inr hc) count (count.toNat + 1)
    (readStart w h mem count stk) (Nat.lt_succ_self _) hfd hf hp (Nat.zero_add _)
  rw [fsRead, if_neg (diskEnv_initMagic _ _ _ _)]
  by_cases hserved : Served (content ds).length ds.length h.filepos.toNat count.toNat
  · obtain ⟨t, hloop, hpos, hread, hbuf⟩ := hok hserved
    rw [hloop]
    refine ⟨_, rfl, fun _ => ⟨?_, hbuf, hpos⟩, fun hnot => absurd hserved hnot⟩
    have htotal : t.totalread.toNat = min count.toNat ((content ds).length - h.filepos.toNat) :=
      hread.trans (Nat.zero_add _)
    rw [toInt32, if_pos (by omega), htotal]
  · obtain ⟨t, hloop⟩ := hfail hserved
    rw [hloop]
    exact ⟨_, rfl, fun hyes => absurd hyes hserved, fun _ => rfl⟩

/-- **When `fs_read` gives the content.**  On a well-formed file and an honest store, a read of fewer
than `2 ^ 31` bytes gives those that remain, up to the count, exactly when it never asks for a block
behind a full last one, or for one that a seek does not reach. -/
theorem fsRead_content_iff (random : Nat → UInt8) (hole : CfsBlk Digest) (hc : c.Ideal)
    {w : World Digest (Disk Digest)} (hfd : w.store.name h.fd = some nm)
    (hf : IsFile c secret h.keyData (w.store.files nm) ds)
    (hp : h.filepos.toNat ≤ (content ds).length) {count : UInt32} (hcount : count.toNat < 2147483648)
    (mem : Nat → UInt8) (stk : FsStack Digest) :
    (∃ r, fsRead (diskEnv c random secret hole) w h mem count stk = some r ∧
        ReadsContent (content ds) h.filepos.toNat count.toNat mem r) ↔
      Served (content ds).length ds.length h.filepos.toNat count.toNat := by
  obtain ⟨r, hrun, hok, hfail⟩ := fsRead_file random hole hc hfd hf hp hcount mem stk
  constructor
  · rintro ⟨r', hrun', hreads⟩
    obtain rfl : r = r' := Option.some.inj (hrun.symm.trans hrun')
    by_contra hnot
    have hret := hreads.ret
    rw [hfail hnot] at hret
    omega
  · exact fun hserved => ⟨r, hrun, hok hserved⟩

/-- Five bytes asked for at the second of two. -/
theorem fsRead_content_iff_twoBytes :
    (∃ r, fsRead (diskEnv symCrypto (fun _ => 0) (Bytes.zero 32) zeroBlk) twoByteWorld
          (fileHandle 1) (fun _ => 0) 5 zeroStack = some r ∧
        ReadsContent [1, 2] 1 5 (fun _ => 0) r) ↔ Served 2 1 1 5 := by
  have hfile : IsFile symCrypto (Bytes.zero 32) (fileHandle 1).keyData
      (twoByteWorld.store.files (Bytes.zero 32, Bytes.zero 32)) [bytesBlk [1, 2]] :=
    isFile_oneBlock (by decide)
  have hcontent : content [bytesBlk [1, 2]] = [1, 2] := content_bytesBlk (by decide)
  have hiff := fsRead_content_iff (fun _ => 0) zeroBlk symCrypto_ideal rfl hfile
    (by rw [hcontent]; decide) (show (5 : UInt32).toNat < 2147483648 by decide) (fun _ => 0) zeroStack
  rw [hcontent] at hiff
  exact hiff

/-- A file of one full block. -/
def fullWorld : World SymDigest (Disk SymDigest) :=
  ⟨fileDisk (oneBlockFile (List.replicate 940 7)), 0, []⟩

/-- **A read at the end of a full block fails**, where nothing remains and the call should return 0. -/
theorem read_at_end_fails :
    IsFile symCrypto (Bytes.zero 32) (Bytes.zero 32) (oneBlockFile (List.replicate 940 7))
        [bytesBlk (List.replicate 940 7)] ∧
      (content [bytesBlk (List.replicate 940 7)]).length = 940 ∧
      ∃ r, fsRead (diskEnv symCrypto (fun _ => 0) (Bytes.zero 32) zeroBlk) fullWorld
          (fileHandle 940) (fun _ => 0) 1 zeroStack = some r ∧ r.ret = -1 ∧
        ¬ ReadsContent (content [bytesBlk (List.replicate 940 7)]) 940 1 (fun _ => 0) r := by
  have hlen : (List.replicate 940 (7 : UInt8)).length = 940 := List.length_replicate
  have hfile : IsFile symCrypto (Bytes.zero 32) (fileHandle 940).keyData
      (fullWorld.store.files (Bytes.zero 32, Bytes.zero 32)) [bytesBlk (List.replicate 940 7)] :=
    isFile_oneBlock hlen.le
  have hcontent : (content [bytesBlk (List.replicate 940 7)]).length = 940 := by
    rw [content_bytesBlk hlen.le, hlen]
  obtain ⟨r, hrun, -, hfail⟩ := fsRead_file (fun _ => 0) zeroBlk symCrypto_ideal rfl hfile
    hcontent.ge (show (1 : UInt32).toNat < 2147483648 by decide) (fun _ => 0) zeroStack
  have hret := hfail fun hserved => hserved.1 ⟨hcontent, Or.inl hcontent.symm⟩
  refine ⟨hfile, hcontent, r, hrun, hret, fun hreads => ?_⟩
  have hmin := hreads.ret
  rw [hret] at hmin
  omega

end AndixOs.Fs
