/-
# Files as byte strings

A file on the store is an info block and data blocks, and its content is what the data blocks hold
(`content`).  `fs_write` puts bytes over the content at the position of the handle, and does it block
by block.  In each block it sets the count to the end of what it wrote.  So a write that ends inside the
content, and not at the end of a block, cuts off the rest of that block.

* `writeRound_file`: a round of `fs_write` on a well-formed file;
* `fsWrite_overlays_iff`: `fs_write` leaves the overlaid content exactly when it does not end like
  that, and its blocks have numbers that a seek reaches.
-/
import AndixOs.Fs.Disk
import AndixOs.Lib.Chunks

namespace AndixOs.Fs

open AndixOs

variable {Digest : Type} [DecidableEq Digest]

/-! ## 1. Well-formed files -/

/-- The bytes of content in a data block. -/
def CfsData.bytes (d : CfsData) : List UInt8 := d.slice 4 d.count.toNat

/-- The byte string that data blocks stand for. -/
def content (ds : List CfsData) : List UInt8 := (ds.map CfsData.bytes).flatten

/-- The block decrypts and verifies under the key and the number, and holds the data. -/
def Opens (c : FsCrypto Digest) (key : Bytes 32) (n : UInt32) (d : CfsData) (b : CfsBlk Digest) :
    Prop := ∀ out, fsDecryptAndVerify c b key.toList out n = (0, d)

/-- The blocks of a file with this key: an info block, and a data block for each number from 1 on. -/
structure Holds (c : FsCrypto Digest) (secret key : Bytes 32) (blks : List (CfsBlk Digest))
    (ds : List CfsData) : Prop where
  info : ∃ b d, blks[0]? = some b ∧ Opens c secret 0 d b ∧ d.keyData = key
  length : blks.length = ds.length + 1
  data : ∀ i d, ds[i]? = some d →
    ∃ b, blks[i + 1]? = some b ∧ Opens c key (UInt32.ofNat (i + 1)) d b
  counts : ∀ d ∈ ds, d.count.toNat ≤ 940

/-- A well-formed file: every data block but the last is full. -/
structure IsFile (c : FsCrypto Digest) (secret key : Bytes 32) (blks : List (CfsBlk Digest))
    (ds : List CfsData) : Prop extends Holds c secret key blks ds where
  chunked : Chunked 940 (ds.map CfsData.bytes)

variable {c : FsCrypto Digest} {secret key : Bytes 32} {blks : List (CfsBlk Digest)}
  {b : CfsBlk Digest} {d : CfsData} {ds : List CfsData} {n : UInt32}

theorem length_bytes (h : d.count.toNat ≤ 940) : d.bytes.length = d.count.toNat := by
  rw [CfsData.bytes, Bytes.slice, List.length_take, List.length_drop, List.Vector.toList_length]
  omega

/-- A block opens under one key and one number only. -/
theorem Opens.bound (hc : c.Ideal) (h : Opens c key n d b) {key' : Bytes 32} {n' : UInt32}
    {out : CfsData} (hacc : (fsDecryptAndVerify c b key'.toList out n').1 = 0) : n' = n := by
  rw [(fsDecryptAndVerify_accept_iff_made hc).mp (h d)] at hacc
  exact (fsDecryptAndVerify_accept_inv hc hacc).2

/-- What `__fs_encrypt_and_sign` makes opens. -/
theorem opens_made (hc : c.Decrypts) (blk : CfsBlk Digest) (key : Bytes 32) (d : CfsData)
    (n : UInt32) : Opens c key n d (fsEncryptAndSign c blk key.toList d n).2 := fun out =>
  hc.opens blk key.toList d out n

/-- The blocks determine the data. -/
theorem Holds.unique {ds' : List CfsData} (h : Holds c secret key blks ds)
    (h' : Holds c secret key blks ds') : ds = ds' := by
  have hlen : ds.length = ds'.length := Nat.succ_injective (h.length.symm.trans h'.length)
  refine List.ext_getElem? fun i => ?_
  rcases hi : ds[i]? with _ | d
  · rw [List.getElem?_eq_none_iff, hlen, ← List.getElem?_eq_none_iff] at hi
    exact hi.symm
  · have hlt : i < ds'.length := hlen ▸ (List.getElem?_eq_some_iff.mp hi).1
    obtain ⟨b, hb, hopens⟩ := h.data i d hi
    obtain ⟨b', hb', hopens'⟩ := h'.data i _ (List.getElem?_eq_getElem hlt)
    obtain rfl : b = b' := Option.some.inj (hb.symm.trans hb')
    rw [List.getElem?_eq_getElem hlt]
    exact congrArg some (congrArg Prod.snd ((hopens d).symm.trans (hopens' d)))

/-- No block holds more than 940 bytes. -/
theorem Holds.content_le (h : Holds c secret key blks ds) : (content ds).length ≤ 940 * ds.length := by
  have hcounts := h.counts
  clear h
  induction ds with
  | nil => exact Nat.le_refl _
  | cons d ds ih =>
    have hd := hcounts d List.mem_cons_self
    have hrest := ih fun x hx => hcounts x (List.mem_cons_of_mem _ hx)
    rw [content, List.map_cons, List.flatten_cons, List.length_append, length_bytes hd,
      List.length_cons, Nat.mul_succ]
    rw [content] at hrest
    omega

/-- The blocks around a position of a well-formed file. -/
theorem IsFile.locate {p : Nat} (h : IsFile c secret key blks ds) (hp : p ≤ (content ds).length)
    (hblk : p / 940 < ds.length) : ∃ pre d post, ds = pre ++ d :: post ∧ pre.length = p / 940 ∧
      Full 940 (pre.map CfsData.bytes) ∧
      Chunked 940 (d.bytes :: post.map CfsData.bytes) ∧ p % 940 ≤ d.bytes.length := by
  obtain ⟨pre, x, post, hsplit, hlen, hpre, hrest, hoff⟩ :=
    h.chunked.locate (by decide) hp (by rw [List.length_map]; exact hblk)
  obtain ⟨pre, tail, rfl, rfl, htail⟩ := List.map_eq_append_iff.mp hsplit
  obtain ⟨d, post, rfl, rfl, rfl⟩ := List.map_eq_cons_iff.mp htail
  exact ⟨pre, d, post, rfl, (List.length_map _).symm.trans hlen, hpre, hrest, hoff⟩

/-- The end of a file whose blocks are all full. -/
theorem IsFile.locate_end {p : Nat} (h : IsFile c secret key blks ds)
    (hp : p ≤ (content ds).length) (hblk : ds.length ≤ p / 940) :
    Full 940 (ds.map CfsData.bytes) ∧ p = 940 * ds.length := by
  obtain ⟨hfull, hend⟩ := h.chunked.locate_end hp (by rw [List.length_map]; exact hblk)
  rw [List.length_map] at hend
  exact ⟨hfull, hend⟩

/-! ## 2. The block at a position -/

variable {h : Cfs}

/-- A position inside the file, in a block that a seek reaches: its block is there. -/
theorem Holds.found (hf : Holds c secret key blks ds) {filepos : UInt32} {d : CfsData}
    (hd : ds[filepos.toNat / 940]? = some d) (hnum : filepos.toNat / 940 + 1 < 4194304) :
    ∃ b, blks[blkIdx (blkOf filepos)]? = some b ∧ Opens c key (blkOf filepos) d b := by
  have hof := blkOf_toNat filepos
  obtain ⟨b, hb, hopens⟩ := hf.data _ d hd
  refine ⟨b, ?_, ?_⟩
  · rw [blkIdx_eq (by omega), hof]
    exact hb
  · rwa [← hof, UInt32.ofNat_toNat] at hopens

/-- Behind the last block there is none. -/
theorem Holds.notFound (hf : Holds c secret key blks ds) {filepos : UInt32}
    (hend : ds.length ≤ filepos.toNat / 940) (hnum : filepos.toNat / 940 + 1 < 4194304) :
    blks[blkIdx (blkOf filepos)]? = none := by
  have hof := blkOf_toNat filepos
  rw [blkIdx_eq (by omega), hof, List.getElem?_eq_none_iff, hf.length]
  omega

/-- A seek that does not reach the block ends at one with another number, which does not verify. -/
theorem Holds.misled (hc : c.Ideal) (hf : Holds c secret key blks ds) (filepos : UInt32)
    (hin : filepos.toNat / 940 ≤ ds.length) (hnum : 4194304 ≤ filepos.toNat / 940 + 1) :
    ∃ b, blks[blkIdx (blkOf filepos)]? = some b ∧
      ∀ out, (fsDecryptAndVerify c b key.toList out (blkOf filepos)).1 ≠ 0 := by
  have hof := blkOf_toNat filepos
  have hlt := filepos.toNat_lt
  have hidx : blkIdx (blkOf filepos) = filepos.toNat / 940 + 1 - 4194304 := by
    rw [blkIdx_mod, hof]
    omega
  rcases Nat.eq_zero_or_pos (filepos.toNat / 940 + 1 - 4194304) with hzero | hpos
  · obtain ⟨b, info, hb, hopens, -⟩ := hf.info
    refine ⟨b, by rw [hidx, hzero]; exact hb, fun out hacc => ?_⟩
    have hn := congrArg UInt32.toNat (hopens.bound hc hacc)
    have h0 : (0 : UInt32).toNat = 0 := rfl
    omega
  · obtain ⟨i, hi⟩ := Nat.exists_eq_succ_of_ne_zero hpos.ne'
    have hlen : i < ds.length := by omega
    obtain ⟨b, hb, hopens⟩ := hf.data i _ (List.getElem?_eq_getElem hlen)
    refine ⟨b, by rw [hidx, hi]; exact hb, fun out hacc => ?_⟩
    have hn := congrArg UInt32.toNat (hopens.bound hc hacc)
    rw [hof, UInt32.toNat_ofNat_of_lt' (by rw [UInt32.size]; omega)] at hn
    omega

/-! ## 3. A round of `fs_write` -/

/-- A data block is replaced, or added at the end. -/
theorem Holds.setBlk {hole : CfsBlk Digest} {k : Nat} {ds' : List CfsData} {d' : CfsData}
    (hf : Holds c secret key blks ds) (hk : k ≤ ds.length) (hself : ds'[k]? = some d')
    (hother : ∀ i, i ≠ k → ds'[i]? = ds[i]?) (hlen : ds'.length = max ds.length (k + 1))
    (hopens : Opens c key (UInt32.ofNat (k + 1)) d' b) (hcount : d'.count.toNat ≤ 940) :
    Holds c secret key (setBlk hole blks (k + 1) b) ds' := by
  have hblks := hf.length
  constructor
  · obtain ⟨b₀, info, hb, hrest⟩ := hf.info
    refine ⟨b₀, info, ?_, hrest⟩
    rw [setBlk_other (by omega) (by omega), hb]
  · rw [length_setBlk, hlen, hblks]
    omega
  · intro i x hx
    rcases eq_or_ne i k with rfl | hne
    · obtain rfl : d' = x := Option.some.inj (hself.symm.trans hx)
      exact ⟨b, setBlk_self, hopens⟩
    · rw [hother i hne] at hx
      obtain ⟨bi, hbi, hbo⟩ := hf.data i x hx
      have hlt := (List.getElem?_eq_some_iff.mp hx).1
      exact ⟨bi, (setBlk_other (by omega) (by omega)).trans hbi, hbo⟩
  · intro x hx
    obtain ⟨i, hi⟩ := List.mem_iff_getElem?.mp hx
    rcases eq_or_ne i k with rfl | hne
    · obtain rfl : d' = x := Option.some.inj (hself.symm.trans hi)
      exact hcount
    · rw [hother i hne] at hi
      exact hf.counts x (List.mem_iff_getElem?.mpr ⟨i, hi⟩)

variable {off p : Nat} {buf : List UInt8}

theorem toList_write_zero {l : List UInt8} (h : l.length ≤ 944) :
    (d.write 0 l).toList = l ++ d.toList.drop l.length := by
  have hwrite : (d.write 0 l).toList = overlay d.toList 0 l :=
    congrArg List.Vector.toList (dif_pos (by omega))
  rw [hwrite, overlay, List.take_zero, List.nil_append, Nat.zero_add]

theorem count_dataBlk (hfit : off + buf.length ≤ 940) :
    (dataBlk d off buf).count.toNat = off + buf.length := by
  rw [CfsData.count, dataBlk, toList_write_zero (by rw [le32_length]; omega), ofLe32_le32,
    UInt32.toNat_ofNat_of_lt' (by rw [UInt32.size]; omega)]

/-- The bytes before the copy, and the copy. -/
theorem bytes_dataBlk (hfit : off + buf.length ≤ 940) :
    (dataBlk d off buf).bytes = d.slice 4 off ++ buf := by
  rw [CfsData.bytes, count_dataBlk hfit, dataBlk,
    Bytes.slice_write_other (Or.inr (by rw [le32_length])), Bytes.slice_write_append (by omega)]

theorem slice_eq_take (h : off ≤ d.count.toNat) : d.slice 4 off = d.bytes.take off := by
  rw [CfsData.bytes, Bytes.slice, Bytes.slice, List.take_take, Nat.min_eq_left h]

/-- A write of `n` bytes at `p` into a content of length `len` keeps what is behind it: it ends at the
end or behind it, or at the end of a block. -/
def KeepsRest (len p n : Nat) : Prop := len ≤ p + n ∨ 0 < n ∧ (p + n) % 940 = 0

/-- A write in two parts keeps what the second part keeps, if that is not empty. -/
theorem KeepsRest.second {len n m : Nat} (hm : 0 < m) :
    KeepsRest (max len (p + n)) (p + n) m ↔ KeepsRest len p (n + m) := by
  rw [KeepsRest, KeepsRest]
  omega

/-- In the block of the position: the bytes of the block behind the copy. -/
theorem keepsRest_iff {pre post : List (List UInt8)} {x : List UInt8} {len : Nat}
    (hlen : (pre ++ x :: post).flatten.length = len) (hpre : Full 940 pre)
    (hrest : Chunked 940 (x :: post)) (hblk : pre.length = p / 940)
    (hfit : p % 940 + buf.length ≤ 940) :
    x.length ≤ p % 940 + buf.length ↔ KeepsRest len p buf.length := by
  have hx : x.length ≤ 940 := hrest.head_le
  have hdiv := Nat.div_add_mod p 940
  have hmod := Nat.mod_lt p (show 0 < 940 by decide)
  rw [List.flatten_append, List.flatten_cons, List.length_append, List.length_append,
    hpre.length_flatten, hblk] at hlen
  rw [KeepsRest]
  rcases eq_or_ne post [] with rfl | hpost
  · rw [List.flatten_nil, List.length_nil] at hlen
    omega
  · have hfull := hrest.head_full hpost
    omega

variable {random : Nat → UInt8} {hole : CfsBlk Digest} {w : World Digest (Disk Digest)}
  {nm : FileName}

/-- What a round leaves: the content with the chunk over it, or one that is cut off there. -/
structure Rewritten (c : FsCrypto Digest) (secret key : Bytes 32) (blks : List (CfsBlk Digest))
    (ds : List CfsData) (p : Nat) (chunk : List UInt8) (ds' : List CfsData) : Prop where
  holds : Holds c secret key blks ds'
  overlays : content ds' = overlay (content ds) p chunk ↔
    KeepsRest (content ds).length p chunk.length
  chunked : p % 940 + chunk.length = 940 → Chunked 940 (ds'.map CfsData.bytes)

/-- In a block of the file. -/
theorem IsFile.rewritten (hole : CfsBlk Digest) (hc : c.Decrypts) (hf : IsFile c secret key blks ds) (blk : CfsBlk Digest)
    {pre post : List CfsData} (hds : ds = pre ++ d :: post) (hblk : pre.length = p / 940)
    (hpre : Full 940 (pre.map CfsData.bytes))
    (hrest : Chunked 940 (d.bytes :: post.map CfsData.bytes)) (hoff : p % 940 ≤ d.bytes.length)
    (hfit : p % 940 + buf.length ≤ 940) :
    Rewritten c secret key
      (setBlk hole blks (p / 940 + 1)
        (fsEncryptAndSign c blk key.toList (dataBlk d (p % 940) buf)
          (UInt32.ofNat (p / 940 + 1))).2)
      ds p buf (pre ++ dataBlk d (p % 940) buf :: post) := by
  subst hds
  have hcount : d.count.toNat ≤ 940 := hf.counts d (List.mem_append_right _ List.mem_cons_self)
  have hbytes : (dataBlk d (p % 940) buf).bytes = d.bytes.take (p % 940) ++ buf := by
    rw [bytes_dataBlk hfit, slice_eq_take (by rwa [length_bytes hcount] at hoff)]
  have hpos : p = 940 * (pre.map CfsData.bytes).length + p % 940 := by
    rw [List.length_map, hblk]
    exact (Nat.div_add_mod p 940).symm
  have hlen : (dataBlk d (p % 940) buf).bytes.length = p % 940 + buf.length := by
    rw [hbytes, List.length_append, List.length_take_of_le hoff]
  have hmap : ∀ x : CfsData, (pre ++ x :: post).map CfsData.bytes =
      pre.map CfsData.bytes ++ x.bytes :: post.map CfsData.bytes := fun x => by
    rw [List.map_append, List.map_cons]
  constructor
  · refine hf.toHolds.setBlk (k := p / 940) ?_ ?_ ?_ ?_ (opens_made hc _ _ _ _) ?_
    · rw [List.length_append]
      omega
    · rw [← hblk, List.getElem?_append_right (Nat.le_refl _), Nat.sub_self, List.getElem?_cons_zero]
    · intro i hi
      rw [← hblk] at hi
      rcases Nat.lt_or_gt_of_ne hi with hlt | hgt
      · rw [List.getElem?_append_left hlt, List.getElem?_append_left hlt]
      · obtain ⟨j, rfl⟩ := Nat.exists_eq_add_of_lt hgt
        rw [List.getElem?_append_right (by omega), List.getElem?_append_right (by omega),
          show pre.length + j + 1 - pre.length = j + 1 by omega, List.getElem?_cons_succ,
          List.getElem?_cons_succ]
    · simp only [List.length_append, List.length_cons]
      omega
    · rw [count_dataBlk hfit]
      exact hfit
  · rw [content, content, hmap, hmap, hbytes,
      ← keepsRest_iff rfl hpre hrest ((List.length_map _).trans hblk) hfit]
    nth_rewrite 2 [hpos]
    refine overlay_flatten_iff hpre fun hpost => ?_
    rw [hrest.head_full hpost]
    exact hfit
  · intro hend
    have hchunked := hf.chunked
    rw [hmap] at hchunked ⊢
    exact hchunked.replace (hlen.trans hend).le fun _ => hlen.trans hend

/-- In a new block behind the file. -/
theorem IsFile.pushed (hole : CfsBlk Digest) (hc : c.Decrypts) (hf : IsFile c secret key blks ds) (blk : CfsBlk Digest)
    (hfull : Full 940 (ds.map CfsData.bytes)) (hp : p = 940 * ds.length)
    (hfit : buf.length ≤ 940) :
    Rewritten c secret key
      (setBlk hole blks (p / 940 + 1)
        (fsEncryptAndSign c blk key.toList (dataBlk d (p % 940) buf)
          (UInt32.ofNat (p / 940 + 1))).2)
      ds p buf (ds ++ [dataBlk d (p % 940) buf]) := by
  have hdiv : p / 940 = ds.length := by omega
  have hmod : p % 940 = 0 := by omega
  rw [hdiv, hmod]
  have hbytes : (dataBlk d 0 buf).bytes = buf := by
    rw [bytes_dataBlk (by omega), Bytes.slice, List.take_zero, List.nil_append]
  have hmap : (ds ++ [dataBlk d 0 buf]).map CfsData.bytes = ds.map CfsData.bytes ++ [buf] := by
    rw [List.map_append, List.map_singleton, hbytes]
  have hlen : (content ds).length = p := by
    rw [content, hfull.length_flatten, List.length_map, hp]
  have hover : content (ds ++ [dataBlk d 0 buf]) = overlay (content ds) p buf := by
    have hend := overlay_full hfull buf
    rw [List.length_map, ← hp] at hend
    rw [content, hmap, content, hend]
  constructor
  · refine hf.toHolds.setBlk (k := ds.length) (Nat.le_refl _) ?_ ?_ ?_ (opens_made hc _ _ _ _) ?_
    · rw [List.getElem?_append_right (Nat.le_refl _), Nat.sub_self, List.getElem?_cons_zero]
    · intro i hi
      rcases Nat.lt_or_gt_of_ne hi with hlt | hgt
      · rw [List.getElem?_append_left hlt]
      · rw [List.getElem?_eq_none (by rw [List.length_append, List.length_singleton]; omega),
          List.getElem?_eq_none hgt.le]
    · rw [List.length_append, List.length_singleton]
      omega
    · rw [count_dataBlk (by omega)]
      omega
  · exact iff_of_true hover (Or.inl (hlen.le.trans (Nat.le_add_right _ _)))
  · intro hend
    rw [hmap]
    exact chunked_append.mpr ⟨hfull, (show buf.length ≤ 940 from hfit)⟩

/-- **A round of `fs_write`.**  On a well-formed file, at a position whose block a seek reaches, both
halves of the round succeed. -/
theorem writeRound_file (random : Nat → UInt8) (hole : CfsBlk Digest) (hc : c.Ideal) (hfd : w.store.name h.fd = some nm)
    (hf : IsFile c secret h.keyData (w.store.files nm) ds)
    (hp : h.filepos.toNat ≤ (content ds).length) (hnum : h.filepos.toNat / 940 + 1 < 4194304)
    (blk : CfsBlk Digest) (data : CfsData) :
    ∃ blk₁ d w₁, fetchBlk (diskEnv c random secret hole) w h blk data = (some (blk₁, d), w₁) ∧
      ∀ chunk : List UInt8, h.filepos.toNat % 940 + chunk.length ≤ 940 → ∃ blk₂ w₂ ds',
        storeBlk (diskEnv c random secret hole) w₁ h blk₁
          (dataBlk d (blkOffset h.filepos) chunk) = (some blk₂, w₂) ∧
        w₂.store.name h.fd = some nm ∧
        Rewritten c secret h.keyData (w₂.store.files nm) ds h.filepos.toNat chunk ds' := by
  rw [blkOffset_eq]
  obtain ⟨w₁, hfetch, hfiles₁, hfds₁⟩ := fetchBlk_disk c random secret hole hfd blk data
  have hfd₁ : w₁.store.name h.fd = some nm := (congrFun hfds₁.name _).trans hfd
  have hof := blkOf_toNat h.filepos
  have hnumber : blkOf h.filepos = UInt32.ofNat (h.filepos.toNat / 940 + 1) := by
    rw [← hof, UInt32.ofNat_toNat]
  have hidx : blkIdx (blkOf h.filepos) = h.filepos.toNat / 940 + 1 := by
    rw [blkIdx_eq (by omega), hof]
  -- what the write half makes of the block and data that the read half found
  have hstore : ∀ (blk₁ : CfsBlk Digest) (x : CfsData), ∃ blk₂ w₂,
      storeBlk (diskEnv c random secret hole) w₁ h blk₁ x = (some blk₂, w₂) ∧
      w₂.store.name h.fd = some nm ∧
      w₂.store.files nm = setBlk hole (w.store.files nm) (h.filepos.toNat / 940 + 1)
        (fsEncryptAndSign c blk₁ h.keyData.toList x
          (UInt32.ofNat (h.filepos.toNat / 940 + 1))).2 := by
    intro blk₁ x
    obtain ⟨w₂, hst, hfiles₂, hfds₂⟩ := storeBlk_disk c random secret hole hfd₁ blk₁ x
    refine ⟨_, w₂, hst, (congrFun hfds₂.name _).trans hfd₁, ?_⟩
    rw [hfiles₂, Function.update_self, hfiles₁, hidx, hnumber]
  rcases Nat.lt_or_ge (h.filepos.toNat / 940) ds.length with hin | hend
  · obtain ⟨pre, d, post, hds, hblk, hpre, hrest, hoff⟩ := hf.locate hp hin
    have hd : ds[h.filepos.toNat / 940]? = some d := by
      rw [hds, ← hblk, List.getElem?_append_right (Nat.le_refl _), Nat.sub_self,
        List.getElem?_cons_zero]
    obtain ⟨b, hb, hopens⟩ := hf.found hd hnum
    rw [hb, foundBlk, hopens data] at hfetch
    refine ⟨b, d, w₁, hfetch, fun chunk hfit => ?_⟩
    obtain ⟨blk₂, w₂, hst, hfd₂, hfiles₂⟩ := hstore b (dataBlk d (h.filepos.toNat % 940) chunk)
    have hnew := hf.rewritten hole hc.decrypts b hds hblk hpre hrest hoff hfit
    exact ⟨blk₂, w₂, _, hst, hfd₂, hfiles₂ ▸ hnew⟩
  · obtain ⟨hfull, hpos⟩ := hf.locate_end hp hend
    rw [hf.notFound hend hnum, foundBlk] at hfetch
    refine ⟨blk, Bytes.zero 944, w₁, hfetch, fun chunk hfit => ?_⟩
    have hlen : chunk.length ≤ 940 := (Nat.le_add_left _ _).trans hfit
    obtain ⟨blk₂, w₂, hst, hfd₂, hfiles₂⟩ :=
      hstore blk (dataBlk (Bytes.zero 944) (h.filepos.toNat % 940) chunk)
    have hnew := hf.pushed (d := Bytes.zero 944) hole hc.decrypts blk hfull hpos hlen
    exact ⟨blk₂, w₂, _, hst, hfd₂, hfiles₂ ▸ hnew⟩

/-- A block that a seek does not reach: the round fails. -/
theorem writeRound_misled (random : Nat → UInt8) (hole : CfsBlk Digest) (hc : c.Ideal) (hfd : w.store.name h.fd = some nm)
    (hf : IsFile c secret h.keyData (w.store.files nm) ds)
    (hp : h.filepos.toNat ≤ (content ds).length) (hnum : 4194304 ≤ h.filepos.toNat / 940 + 1)
    (blk : CfsBlk Digest) (data : CfsData) :
    ∃ w₁, fetchBlk (diskEnv c random secret hole) w h blk data = (none, w₁) := by
  obtain ⟨w₁, hfetch, -, -⟩ := fetchBlk_disk c random secret hole hfd blk data
  have hle := hf.content_le
  obtain ⟨b, hb, hrefused⟩ := hf.misled hc h.filepos (by omega) hnum
  rw [hb] at hfetch
  have hnone : foundBlk c h.keyData (blkOf h.filepos) blk data (some b) = none :=
    if_pos (hrefused data)
  exact ⟨w₁, hnone ▸ hfetch⟩

/-! ## 4. The loop of `fs_write` -/

/-- The block of the last byte of `n` at `p`; for no byte the block of `p`. -/
def lastBlk (p n : Nat) : Nat := (p + (n - 1)) / 940

/-- The handle `n` bytes further on. -/
def Cfs.advance (h : Cfs) (n : Nat) : Cfs := { h with filepos := h.filepos + UInt32.ofNat n }

theorem Cfs.advance_toNat {n : Nat} (hn : h.filepos.toNat + n < 4294967296) :
    (h.advance n).filepos.toNat = h.filepos.toNat + n := by
  rw [Cfs.advance, UInt32.toNat_add, UInt32.toNat_ofNat_of_lt' (by rw [UInt32.size]; omega)]
  omega

/-- A round whose halves succeed. -/
theorem writeLoop_round {σ : Type} {e : FsEnv Digest σ} {w w₁ w₂ : World Digest σ}
    {blk blk₁ blk₂ : CfsBlk Digest} {data : CfsData} {fuel : Nat} {chunk rest : List UInt8}
    (hchunk : chunk = buf.take (940 - blkOffset h.filepos))
    (hrest : rest = buf.drop (940 - blkOffset h.filepos))
    (hfetch : fetchBlk e w h blk data = (some (blk₁, d), w₁))
    (hstore : storeBlk e w₁ h blk₁ (dataBlk d (blkOffset h.filepos) chunk) = (some blk₂, w₂)) :
    writeLoop e (fuel + 1) w h blk data buf =
      if rest = [] then (some (h.advance chunk.length), w₂)
      else writeLoop e fuel w₂ (h.advance chunk.length) blk₂
        (dataBlk d (blkOffset h.filepos) chunk) rest := by
  rw [hchunk] at hstore ⊢
  rw [hrest, writeLoop, hfetch]
  simp only [cfsBlkSize, hstore]
  rfl

/-- **The loop of `fs_write`** on a well-formed file: where a seek reaches all its blocks, it writes all
the bytes, and leaves the overlaid content exactly if that keeps the rest; else it fails. -/
theorem writeLoop_file (random : Nat → UInt8) (hole : CfsBlk Digest) (hc : c.Ideal) : ∀ (fuel : Nat) (w : World Digest (Disk Digest)) (h : Cfs)
    (blk : CfsBlk Digest) (data : CfsData) (buf : List UInt8) (ds : List CfsData),
    buf.length < fuel → w.store.name h.fd = some nm →
    IsFile c secret h.keyData (w.store.files nm) ds → h.filepos.toNat ≤ (content ds).length →
    (lastBlk h.filepos.toNat buf.length + 1 < 4194304 → ∃ h' w' ds',
      writeLoop (diskEnv c random secret hole) fuel w h blk data buf = (some h', w') ∧
      h'.filepos.toNat = h.filepos.toNat + buf.length ∧
      Holds c secret h.keyData (w'.store.files nm) ds' ∧
      (content ds' = overlay (content ds) h.filepos.toNat buf ↔
        KeepsRest (content ds).length h.filepos.toNat buf.length)) ∧
    (4194304 ≤ lastBlk h.filepos.toNat buf.length + 1 → ∃ w',
      writeLoop (diskEnv c random secret hole) fuel w h blk data buf = (none, w'))
  | 0, _, _, _, _, _, _, hfuel, _, _, _ => absurd hfuel (Nat.not_lt_zero _)
  | fuel + 1, w, h, blk, data, buf, ds, hfuel, hfd, hf, hp => by
    have hfirst : h.filepos.toNat / 940 ≤ lastBlk h.filepos.toNat buf.length :=
      Nat.div_le_div_right (Nat.le_add_right _ _)
    rcases Nat.lt_or_ge (h.filepos.toNat / 940 + 1) 4194304 with hnum | hnum
    · obtain ⟨blk₁, d, w₁, hfetch, hstore⟩ := writeRound_file random hole hc
        hfd hf hp hnum blk data
      have hoff : blkOffset h.filepos = h.filepos.toNat % 940 := blkOffset_eq _
      have hmod := Nat.mod_lt h.filepos.toNat (show 0 < 940 by decide)
      have hlt := h.filepos.toNat_lt
      obtain ⟨chunk, hchunk⟩ : ∃ chunk, chunk = buf.take (940 - blkOffset h.filepos) := ⟨_, rfl⟩
      obtain ⟨rest, hrest⟩ : ∃ rest, rest = buf.drop (940 - blkOffset h.filepos) := ⟨_, rfl⟩
      have hsplit : chunk ++ rest = buf := by rw [hchunk, hrest, List.take_append_drop]
      have htake : chunk.length = min (940 - h.filepos.toNat % 940) buf.length := by
        rw [hchunk, List.length_take, hoff]
      obtain ⟨blk₂, w₂, ds₁, hst, hfd₂, hnew⟩ := hstore chunk (by omega)
      rw [writeLoop_round hchunk hrest hfetch hst]
      have hpos : (h.advance chunk.length).filepos.toNat = h.filepos.toNat + chunk.length :=
        Cfs.advance_toNat (by omega)
      split_ifs with hlast
      · rw [hlast, List.append_nil] at hsplit
        rw [hsplit] at hpos hnew htake ⊢
        refine ⟨fun _ => ⟨_, w₂, ds₁, rfl, hpos, hnew.holds, hnew.overlays⟩, fun hover => ?_⟩
        rw [lastBlk] at hover
        omega
      · -- the block is full, so the file is well-formed and the chunk lies over its content
        have hlen : chunk.length + rest.length = buf.length := by
          rw [← hsplit, List.length_append]
        have hrestpos : 0 < rest.length := List.length_pos_iff.mpr hlast
        have hfull : h.filepos.toNat % 940 + chunk.length = 940 := by omega
        have hover : content ds₁ = overlay (content ds) h.filepos.toNat chunk :=
          hnew.overlays.mpr (Or.inr (by omega))
        have hlen₁ := length_overlay (b := chunk) hp
        rw [← hover] at hlen₁
        obtain ⟨ihok, ihfail⟩ := writeLoop_file random hole hc fuel w₂ (h.advance chunk.length) blk₂
          (dataBlk d (blkOffset h.filepos) chunk) rest ds₁ (by omega) hfd₂
          ⟨hnew.holds, hnew.chunked hfull⟩ (by omega)
        have hlastBlk : lastBlk (h.advance chunk.length).filepos.toNat rest.length =
            lastBlk h.filepos.toNat buf.length := by
          rw [lastBlk, lastBlk, hpos]
          congr 1
          omega
        rw [hlastBlk] at ihok ihfail
        refine ⟨fun hreach => ?_, ihfail⟩
        obtain ⟨h', w', ds', hloop, hpos', hholds, hkeeps⟩ := ihok hreach
        refine ⟨h', w', ds', hloop, by omega, hholds, ?_⟩
        rw [hover, hpos, overlay_overlay hp, hsplit] at hkeeps
        rw [hkeeps, ← hover, hlen₁, ← hlen]
        exact KeepsRest.second hrestpos
    · obtain ⟨w₁, hfetch⟩ := writeRound_misled random hole hc hfd hf hp hnum
        blk data
      refine ⟨fun hlast => by omega, fun _ => ⟨w₁, ?_⟩⟩
      rw [writeLoop, hfetch]

/-! ## 5. When `fs_write` overlays the content -/

/-- What is asked of a write of `buf` at `p`: all its bytes are reported, the position is behind them,
and the file holds the old content with them over it. -/
structure WriteOverlays (c : FsCrypto Digest) (secret key : Bytes 32) (nm : FileName)
    (ds : List CfsData) (p : Nat) (buf : List UInt8)
    (r : Int × Cfs × World Digest (Disk Digest)) : Prop where
  ret : r.1 = buf.length
  filepos : r.2.1.filepos.toNat = p + buf.length
  content : ∃ ds', Holds c secret key (r.2.2.store.files nm) ds' ∧
    content ds' = overlay (content ds) p buf

/-- `fs_write` on a well-formed file, where its result is the count it was given. -/
theorem fsWrite_file (random : Nat → UInt8) (hole : CfsBlk Digest) (hc : c.Ideal)
    (hfd : w.store.name h.fd = some nm) (hf : IsFile c secret h.keyData (w.store.files nm) ds)
    (hp : h.filepos.toNat ≤ (content ds).length) (hcount : buf.length < 2147483648)
    (stk : FsStack Digest) :
    WriteOverlays c secret h.keyData nm ds h.filepos.toNat buf
        (fsWrite (diskEnv c random secret hole) w h buf stk) ↔
      lastBlk h.filepos.toNat buf.length + 1 < 4194304 ∧
        KeepsRest (content ds).length h.filepos.toNat buf.length := by
  obtain ⟨hok, hfail⟩ := writeLoop_file random hole hc (buf.length + 1) w h stk.blk
    stk.data buf ds (Nat.lt_succ_self _) hfd hf hp
  have hret : toInt32 (UInt32.ofNat buf.length) = buf.length := by
    rw [toInt32, UInt32.toNat_ofNat_of_lt' (by rw [UInt32.size]; omega), if_pos hcount]
  rcases Nat.lt_or_ge (lastBlk h.filepos.toNat buf.length + 1) 4194304 with hreach | hreach
  · obtain ⟨h', w', ds', hloop, hpos, hholds, hkeeps⟩ := hok hreach
    have hrun : fsWrite (diskEnv c random secret hole) w h buf stk = ((buf.length : Int), h', w') := by
      rw [← hret, fsWrite, if_neg (diskEnv_initMagic _ _ _ _), hloop]
    rw [hrun]
    constructor
    · rintro ⟨-, -, ds'', hholds'', hover⟩
      rw [hholds''.unique hholds] at hover
      exact ⟨hreach, hkeeps.mp hover⟩
    · rintro ⟨-, hkeep⟩
      exact ⟨rfl, hpos, ds', hholds, hkeeps.mpr hkeep⟩
  · obtain ⟨w', hloop⟩ := hfail hreach
    have hrun : fsWrite (diskEnv c random secret hole) w h buf stk = (-1, h, w') := by
      rw [fsWrite, if_neg (diskEnv_initMagic _ _ _ _), hloop]
    rw [hrun]
    constructor
    · rintro ⟨hret', -, -⟩
      exact absurd hret' (by omega)
    · rintro ⟨hreach', -⟩
      omega

/-- **When `fs_write` overlays the content.**  On a well-formed file and an honest store: exactly when
the count is positive as an `int32_t`, a seek reaches all the blocks, and the write does not end inside
the content in the middle of a block. -/
theorem fsWrite_overlays_iff (random : Nat → UInt8) (hole : CfsBlk Digest) (hc : c.Ideal)
    (hfd : w.store.name h.fd = some nm) (hf : IsFile c secret h.keyData (w.store.files nm) ds)
    (hp : h.filepos.toNat ≤ (content ds).length) (hbuf : buf.length < 4294967296)
    (stk : FsStack Digest) :
    WriteOverlays c secret h.keyData nm ds h.filepos.toNat buf
        (fsWrite (diskEnv c random secret hole) w h buf stk) ↔
      buf.length < 2147483648 ∧ lastBlk h.filepos.toNat buf.length + 1 < 4194304 ∧
        KeepsRest (content ds).length h.filepos.toNat buf.length := by
  rcases Nat.lt_or_ge buf.length 2147483648 with hcount | hcount
  · rw [fsWrite_file random hole hc hfd hf hp hcount stk]
    exact (and_iff_right hcount).symm
  · refine iff_of_false (fun hmeets => ?_) fun hcond => absurd hcond.1 (Nat.not_lt.mpr hcount)
    -- the count comes back as a negative number
    have hret := hmeets.ret
    have hneg : toInt32 (UInt32.ofNat buf.length) < 0 := by
      rw [toInt32, UInt32.toNat_ofNat_of_lt' (by rw [UInt32.size]; omega),
        if_neg (Nat.not_lt.mpr hcount)]
      omega
    rw [fsWrite] at hret
    split_ifs at hret
    · omega
    · split at hret
      · simp only at hret
        omega
      · omega

/-! ## 6. A file of two bytes -/

/-- The blocks of a file, made from an info block and data. -/
def makeFile (c : FsCrypto Digest) (secret key : Bytes 32) (blk : CfsBlk Digest) (info : CfsData)
    (ds : List CfsData) : List (CfsBlk Digest) :=
  (fsEncryptAndSign c blk secret.toList info 0).2 ::
    ds.mapIdx fun i d => (fsEncryptAndSign c blk key.toList d (UInt32.ofNat (i + 1))).2

omit [DecidableEq Digest] in
theorem length_makeFile (blk : CfsBlk Digest) (info : CfsData) :
    (makeFile c secret key blk info ds).length = ds.length + 1 := by
  rw [makeFile, List.length_cons, List.length_mapIdx]

theorem isFile_makeFile (hc : c.Decrypts) (blk : CfsBlk Digest) {info : CfsData}
    (hkey : info.keyData = key) (hcounts : ∀ d ∈ ds, d.count.toNat ≤ 940)
    (hchunked : Chunked 940 (ds.map CfsData.bytes)) :
    IsFile c secret key (makeFile c secret key blk info ds) ds where
  info := ⟨_, info, List.getElem?_cons_zero, opens_made hc _ _ _ _, hkey⟩
  length := length_makeFile blk info
  data := fun i d hd => ⟨_, by
    rw [makeFile, List.getElem?_cons_succ, List.getElem?_mapIdx, hd, Option.map_some],
    opens_made hc _ _ _ _⟩
  counts := hcounts
  chunked := hchunked

/-- A disk with one file, opened as descriptor 1. -/
def fileDisk (blks : List (CfsBlk Digest)) : Disk Digest :=
  ⟨fun _ => blks, fun _ => some ((Bytes.zero 32, Bytes.zero 32), 0), 1⟩

/-- A handle for it. -/
def fileHandle (filepos : UInt32) : Cfs := ⟨1, filepos, Bytes.zero 32⟩

/-- A data block that holds some bytes. -/
def bytesBlk (bytes : List UInt8) : CfsData := dataBlk (Bytes.zero 944) 0 bytes

theorem bytes_bytesBlk (h : buf.length ≤ 940) : (bytesBlk buf).bytes = buf := by
  rw [bytesBlk, bytes_dataBlk (by omega), Bytes.slice, List.take_zero, List.nil_append]

theorem content_bytesBlk (h : buf.length ≤ 940) : content [bytesBlk buf] = buf := by
  rw [content, List.map_singleton, bytes_bytesBlk h, List.flatten_singleton]

/-- A file of one block, in the symbolic instance and under the zero key. -/
def oneBlockFile (bytes : List UInt8) : List (CfsBlk SymDigest) :=
  makeFile symCrypto (Bytes.zero 32) (Bytes.zero 32) zeroBlk (Bytes.zero 944) [bytesBlk bytes]

theorem keyData_zero : CfsData.keyData (Bytes.zero 944) = Bytes.zero 32 := rfl

theorem isFile_oneBlock (h : buf.length ≤ 940) :
    IsFile symCrypto (Bytes.zero 32) (Bytes.zero 32) (oneBlockFile buf) [bytesBlk buf] := by
  refine isFile_makeFile symCrypto_ideal.decrypts zeroBlk keyData_zero ?_ ?_
  · rw [List.forall_mem_singleton, bytesBlk, count_dataBlk (by omega)]
    omega
  · rw [List.map_singleton, bytes_bytesBlk h]
    exact h

/-- A file of the bytes 1 and 2, opened at its first byte. -/
def twoByteWorld : World SymDigest (Disk SymDigest) := ⟨fileDisk (oneBlockFile [1, 2]), 0, []⟩

/-- Two bytes over two bytes. -/
theorem fsWrite_overlays_iff_twoBytes :
    WriteOverlays symCrypto (Bytes.zero 32) (Bytes.zero 32) (Bytes.zero 32, Bytes.zero 32)
        [bytesBlk [1, 2]] 0 [8, 9]
        (fsWrite (diskEnv symCrypto (fun _ => 0) (Bytes.zero 32) zeroBlk) twoByteWorld
          (fileHandle 0) [8, 9] zeroStack) ↔
      2 < 2147483648 ∧ lastBlk 0 2 + 1 < 4194304 ∧ KeepsRest 2 0 2 := by
  have hfile : IsFile symCrypto (Bytes.zero 32) (fileHandle 0).keyData
      (twoByteWorld.store.files (Bytes.zero 32, Bytes.zero 32)) [bytesBlk [1, 2]] :=
    isFile_oneBlock (by decide)
  have hiff := fsWrite_overlays_iff (fun _ => 0) zeroBlk symCrypto_ideal rfl hfile
    (Nat.zero_le _) (show [8, 9].length < 4294967296 by decide) zeroStack
  rw [content_bytesBlk (by decide)] at hiff
  exact hiff

/-- **A write in the middle cuts off the rest of the block**: a byte over the first of two bytes leaves
a file that does not hold the second. -/
theorem overwrite_cuts_content :
    IsFile symCrypto (Bytes.zero 32) (Bytes.zero 32) (oneBlockFile [1, 2]) [bytesBlk [1, 2]] ∧
      content [bytesBlk [1, 2]] = [1, 2] ∧
      ¬ WriteOverlays symCrypto (Bytes.zero 32) (Bytes.zero 32) (Bytes.zero 32, Bytes.zero 32)
        [bytesBlk [1, 2]] 0 [9]
        (fsWrite (diskEnv symCrypto (fun _ => 0) (Bytes.zero 32) zeroBlk) twoByteWorld
          (fileHandle 0) [9] zeroStack) := by
  have hcontent : content [bytesBlk [1, 2]] = [1, 2] := content_bytesBlk (by decide)
  have hfile : IsFile symCrypto (Bytes.zero 32) (fileHandle 0).keyData
      (twoByteWorld.store.files (Bytes.zero 32, Bytes.zero 32)) [bytesBlk [1, 2]] :=
    isFile_oneBlock (by decide)
  refine ⟨hfile, hcontent, fun hmeets => ?_⟩
  have hiff := fsWrite_file (fun _ => 0) zeroBlk symCrypto_ideal rfl hfile (Nat.zero_le _)
    (show [9].length < 2147483648 by decide) zeroStack
  have hkeeps := (hiff.mp hmeets).2
  rw [hcontent, KeepsRest] at hkeeps
  exact absurd hkeeps (by decide)

end AndixOs.Fs
