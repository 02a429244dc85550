/-
# Reading from an untrusted store

`fs_read` asks the normal world for one block after another and copies what it decrypts into the
caller's buffer.  The store may answer anything; what a block says of its own length counts only
once the block has verified, and is checked against the size of a block before it is used.

`fsRead_safe`: for every store the call returns; every copy stays inside the block and inside the
buffer and takes its bytes from a block that verified for its number; and a failed call puts the
file position back and leaves zeros wherever it had written.
-/
import AndixOs.Fs.File
import Mathlib.Data.List.GetD

namespace AndixOs.Fs

open AndixOs

variable {Digest σ : Type}

/-! ## 1. `fs_read` -/

/-- The caller's buffer, as the bytes from its address on, after a `memcpy` to position `dst`. -/
def place (buf : Nat → UInt8) (dst : Nat) (bytes : List UInt8) : Nat → UInt8 := fun i =>
  if dst ≤ i ∧ i < dst + bytes.length then bytes.getD (i - dst) 0 else buf i

/-- One `memcpy` of `fs_read`, on record: the bytes of `data.blk.blk` from `src` on, which block
they were decrypted from, and where in the buffer they go. -/
structure ReadCopy (Digest : Type) where
  blknum : UInt32
  blk : CfsBlk Digest
  data : CfsData
  src : Nat
  dst : Nat
  len : Nat

/-- The locals of `fs_read`, the position of the handle and the caller's buffer. -/
structure ReadState (Digest σ : Type) where
  world : World Digest σ
  filepos : UInt32
  blk : CfsBlk Digest
  data : CfsData
  buf : Nat → UInt8
  totalread : UInt32
  left : UInt32
  copies : List (ReadCopy Digest)

/-- The `memcpy` of `reading` bytes, and the counts after it. -/
def ReadState.copied (s : ReadState Digest σ) (reading : UInt32) : ReadState Digest σ :=
  { s with
    filepos := s.filepos + reading
    buf := place s.buf s.totalread.toNat (s.data.slice (4 + blkOffset s.filepos) reading.toNat)
    totalread := s.totalread + reading
    left := s.left - reading
    copies := ⟨blkOf s.filepos, s.blk, s.data, blkOffset s.filepos, s.totalread.toNat,
      reading.toNat⟩ :: s.copies }

variable [DecidableEq Digest]

/-- A round of `fs_read`: the count of the block that it read, or `none` where it goes to
`cleanup`. -/
def readRound (e : FsEnv Digest σ) (h : Cfs) (s : ReadState Digest σ) :
    Option UInt32 × ReadState Digest σ :=
  let blknum := blkOf s.filepos
  let blkoffset := blkOffset s.filepos
  let (r, w) := reeLseek e s.world h.fd (blknum * 1024) seekSet
  if r ≠ 0 then (none, { s with world := w })
  else
    let (n, blk, w) := reeRead e w h.fd s.blk
    if n ≠ 1024 then (none, { s with world := w, blk := blk })
    else
      let (v, data) := fsDecryptAndVerify e.crypto blk h.keyData.toList s.data blknum
      let s := { s with world := w, blk := blk, data := data }
      if v ≠ 0 then (none, s)
      else
        let bdataLen := data.count
        if bdataLen > 940 then (none, s)
        else
          -- `int32_t reading`: negative where the offset is behind the data of the block
          let reading := bdataLen - UInt32.ofNat blkoffset
          if toInt32 reading < 0 then (none, s)
          else
            (some bdataLen, s.copied (if reading > s.left then s.left else reading))

/-- The `do … while` of `fs_read`: whether it ends at the `return` or at `cleanup`; `none` if the
rounds do not suffice. -/
def readLoop (e : FsEnv Digest σ) (h : Cfs) (count : UInt32) :
    Nat → ReadState Digest σ → Option (Bool × ReadState Digest σ)
  | 0, _ => none
  | fuel + 1, s =>
    match readRound e h s with
    | (none, s) => some (false, s)
    | (some bdataLen, s) =>
      -- a block that is not full is the last one
      if bdataLen < 940 ∧ s.totalread < count then some (true, s)
      else if s.totalread < count then readLoop e h count fuel s
      else some (true, s)

/-- What `fs_read` returns and leaves. -/
structure ReadResult (Digest σ : Type) where
  ret : Int
  handle : Cfs
  buf : Nat → UInt8
  world : World Digest σ
  copies : List (ReadCopy Digest)

/-- The locals at the first round. -/
def readStart (w : World Digest σ) (h : Cfs) (buf : Nat → UInt8) (count : UInt32)
    (stk : FsStack Digest) : ReadState Digest σ :=
  ⟨w, h.filepos, stk.blk, stk.data, buf, 0, count, []⟩

/-- `fs_read`; `none` if it does not return within `count + 1` rounds. -/
def fsRead (e : FsEnv Digest σ) (w : World Digest σ) (h : Cfs) (buf : Nat → UInt8)
    (count : UInt32) (stk : FsStack Digest) : Option (ReadResult Digest σ) :=
  if e.initMagic = false then some ⟨-1, h, buf, w, []⟩
  else
    match readLoop e h count (count.toNat + 1) (readStart w h buf count stk) with
    | none => none
    | some (true, s) =>
      some ⟨toInt32 s.totalread, { h with filepos := s.filepos }, s.buf, s.world, s.copies⟩
    | some (false, s) =>
      some ⟨-1, h, place s.buf 0 (List.replicate s.totalread.toNat 0), s.world, s.copies⟩

/-! ## 2. Buffers -/

theorem place_at {buf : Nat → UInt8} {dst i : Nat} {bytes : List UInt8} (hlo : dst ≤ i)
    (hhi : i < dst + bytes.length) : place buf dst bytes i = bytes.getD (i - dst) 0 :=
  if_pos ⟨hlo, hhi⟩

theorem place_off {buf : Nat → UInt8} {dst i : Nat} {bytes : List UInt8}
    (h : i < dst ∨ dst + bytes.length ≤ i) : place buf dst bytes i = buf i :=
  if_neg (by omega)

/-- Two copies one behind the other. -/
theorem place_append (buf : Nat → UInt8) (dst : Nat) (a b : List UInt8) :
    place (place buf dst a) (dst + a.length) b = place buf dst (a ++ b) := by
  funext i
  rcases Nat.lt_or_ge i dst with hlo | hlo
  · rw [place_off (Or.inl (by omega)), place_off (Or.inl hlo), place_off (Or.inl hlo)]
  · rcases Nat.lt_or_ge i (dst + a.length) with hmid | hmid
    · rw [place_off (Or.inl hmid), place_at hlo hmid,
        place_at hlo (by rw [List.length_append]; omega), List.getD_append _ _ _ _ (by omega)]
    · rcases Nat.lt_or_ge i (dst + a.length + b.length) with hhi | hhi
      · rw [place_at hmid hhi, place_at hlo (by rw [List.length_append]; omega),
          List.getD_append_right _ _ _ _ (by omega), Nat.sub_sub]
      · rw [place_off (Or.inr hhi), place_off (Or.inr hmid),
          place_off (Or.inr (by rw [List.length_append]; omega))]

/-- The caller's buffer: `count` bytes that lie in the 32-bit address space, beside the 1968 bytes
of `blk` and `data` on the stack of the call. -/
structure ReadBuf where
  addr : Nat
  count : UInt32
  frame : Nat
  fits : addr + count.toNat ≤ 4294967296
  frameFits : frame + 1968 ≤ 4294967296
  apart : addr + count.toNat ≤ frame ∨ frame + 1968 ≤ addr

theorem ReadBuf.count_lt (b : ReadBuf) : b.count.toNat < 4294967295 := by
  have h1 := b.fits
  have h2 := b.frameFits
  rcases b.apart with h3 | h3 <;> omega

/-! ## 3. What a round does -/

theorem blkOffset_lt (filepos : UInt32) : blkOffset filepos < 940 := by
  rw [blkOffset, UInt32.toNat_mod]
  exact Nat.mod_lt _ (by decide)

/-- A count behind the offset, as the `int32_t` difference. -/
theorem reading_eq {len : UInt32} {off : Nat} (hlen : ¬ len > 940) (hoff : off < 940) :
    (¬ toInt32 (len - UInt32.ofNat off) < 0 ↔ off ≤ len.toNat) ∧
      (off ≤ len.toNat → (len - UInt32.ofNat off).toNat = len.toNat - off) := by
  have hle : len.toNat ≤ 940 := UInt32.le_iff_toNat_le.mp (UInt32.not_lt.mp hlen)
  have hsub := UInt32.toNat_sub len (UInt32.ofNat off)
  rw [UInt32.toNat_ofNat_of_lt' (by rw [UInt32.size]; omega)] at hsub
  rw [toInt32]
  constructor
  · split <;> omega
  · omega

/-- The state of a round once it has read and decrypted a block. -/
def ReadState.fetched (s : ReadState Digest σ) (w : World Digest σ) (blk : CfsBlk Digest)
    (data : CfsData) : ReadState Digest σ :=
  { s with world := w, blk := blk, data := data }

/-- **A round.**  It ends at `cleanup` with the buffer, the position and the counts as they were; or
it has read a block that verifies, with at most 940 bytes, and copies the bytes from the offset of
the position on, as many as the block has or as are left. -/
theorem readRound_cases (e : FsEnv Digest σ) (h : Cfs) (s : ReadState Digest σ) :
    (∃ w blk data, readRound e h s = (none, s.fetched w blk data)) ∨
      ∃ w blk data reading,
        readRound e h s = (some data.count, (s.fetched w blk data).copied reading) ∧
        fsDecryptAndVerify e.crypto blk h.keyData.toList s.data (blkOf s.filepos) = (0, data) ∧
        data.count.toNat ≤ 940 ∧ blkOffset s.filepos ≤ data.count.toNat ∧
        reading.toNat = min (data.count.toNat - blkOffset s.filepos) s.left.toNat := by
  simp only [readRound]
  split_ifs with hseek hread hverify hlen hneg hleft
  · exact Or.inl ⟨_, _, _, rfl⟩
  · exact Or.inl ⟨_, _, _, rfl⟩
  · exact Or.inl ⟨_, _, _, rfl⟩
  · exact Or.inl ⟨_, _, _, rfl⟩
  · exact Or.inl ⟨_, _, _, rfl⟩
  all_goals
    obtain ⟨hoff, hreading⟩ := reading_eq hlen (blkOffset_lt s.filepos)
    have hle := hoff.mp hneg
    refine Or.inr ⟨_, _, _, _, rfl, Prod.ext (not_not.mp hverify) rfl,
      UInt32.le_iff_toNat_le.mp (UInt32.not_lt.mp hlen), hle, ?_⟩
    rw [← hreading hle]
  · exact (Nat.min_eq_right (UInt32.lt_iff_toNat_lt.mp hleft).le).symm
  · exact (Nat.min_eq_left (UInt32.le_iff_toNat_le.mp (UInt32.not_lt.mp hleft))).symm

/-! ## 4. What holds between rounds -/

/-- A copy reads below index 940 of the block, and the block is the one for its position in the file
and has verified for its number. -/
structure ReadCopy.Ok (e : FsEnv Digest σ) (h : Cfs) (c : ReadCopy Digest) : Prop where
  inside : c.src + c.len ≤ 940
  src : c.src = blkOffset (h.filepos + UInt32.ofNat c.dst)
  blknum : c.blknum = blkOf (h.filepos + UInt32.ofNat c.dst)
  verified : ∃ out, fsDecryptAndVerify e.crypto c.blk h.keyData.toList out c.blknum = (0, c.data)

/-- The byte that a copy leaves at position `i` of the buffer. -/
def ReadCopy.byte (c : ReadCopy Digest) (i : Nat) : UInt8 :=
  c.data.toList.getD (4 + c.src + (i - c.dst)) 0

/-- Position `i` of the buffer is one of those that the copy writes. -/
def ReadCopy.Writes (c : ReadCopy Digest) (i : Nat) : Prop := c.dst ≤ i ∧ i < c.dst + c.len

/-- Between rounds: the counts add up, the position follows the bytes read, these are all from good
copies, and the buffer behind them is as it was. -/
structure ReadInv (e : FsEnv Digest σ) (h : Cfs) (mem : Nat → UInt8) (count : UInt32)
    (s : ReadState Digest σ) : Prop where
  counts : s.totalread.toNat + s.left.toNat = count.toNat
  filepos : s.filepos = h.filepos + s.totalread
  copies : ∀ c ∈ s.copies, c.Ok e h ∧ c.dst + c.len ≤ s.totalread.toNat
  served : ∀ i < s.totalread.toNat, ∃ c ∈ s.copies, c.Writes i ∧ s.buf i = c.byte i
  rest : ∀ i, s.totalread.toNat ≤ i → s.buf i = mem i

theorem slice_length {d : CfsData} {off n : Nat} (h : off + n ≤ 940) :
    (d.slice (4 + off) n).length = n := by
  rw [Bytes.slice, List.length_take, List.length_drop, List.Vector.toList_length]
  omega

theorem slice_getD {d : CfsData} {off n i : Nat} (hi : i < n) :
    (d.slice (4 + off) n).getD i 0 = d.toList.getD (4 + off + i) 0 := by
  rw [List.getD_eq_getElem?_getD, Bytes.slice_getElem?, if_pos hi, List.getD_eq_getElem?_getD]

theorem ReadInv.fetched {e : FsEnv Digest σ} {h : Cfs} {mem : Nat → UInt8} {count : UInt32}
    {s : ReadState Digest σ} (hs : ReadInv e h mem count s) (w : World Digest σ)
    (blk : CfsBlk Digest) (data : CfsData) : ReadInv e h mem count (s.fetched w blk data) :=
  ⟨hs.counts, hs.filepos, hs.copies, hs.served, hs.rest⟩

/-- A copy from a block that has verified keeps what holds. -/
theorem ReadInv.copied {e : FsEnv Digest σ} {h : Cfs} {mem : Nat → UInt8} {count : UInt32}
    {s : ReadState Digest σ} (hs : ReadInv e h mem count s) {reading : UInt32} {out : CfsData}
    (hverify : fsDecryptAndVerify e.crypto s.blk h.keyData.toList out (blkOf s.filepos) =
      (0, s.data))
    (hinside : blkOffset s.filepos + reading.toNat ≤ 940) (hleft : reading.toNat ≤ s.left.toNat) :
    ReadInv e h mem count (s.copied reading) := by
  have hcount : count.toNat < 4294967296 := count.toNat_lt
  have hcounts := hs.counts
  have htotal : (s.totalread + reading).toNat = s.totalread.toNat + reading.toNat := by
    rw [UInt32.toNat_add]
    omega
  have hrest : (s.left - reading).toNat = s.left.toNat - reading.toNat :=
    UInt32.toNat_sub_of_le _ _ (UInt32.le_iff_toNat_le.mpr hleft)
  have hlen : (s.data.slice (4 + blkOffset s.filepos) reading.toNat).length = reading.toNat :=
    slice_length hinside
  constructor
  · simp only [ReadState.copied, htotal, hrest]
    omega
  · simp only [ReadState.copied, hs.filepos, UInt32.add_assoc]
  · intro c hc
    rcases List.mem_cons.mp hc with rfl | hc
    · have hpos : h.filepos + UInt32.ofNat s.totalread.toNat = s.filepos := by
        rw [UInt32.ofNat_toNat, hs.filepos]
      exact ⟨⟨hinside, congrArg blkOffset hpos.symm, congrArg blkOf hpos.symm, out, hverify⟩,
        htotal.ge⟩
    · obtain ⟨hok, hle⟩ := hs.copies c hc
      exact ⟨hok, hle.trans (htotal.ge.trans' (Nat.le_add_right _ _))⟩
  · intro i hi
    rcases Nat.lt_or_ge i s.totalread.toNat with hold | hnew
    · obtain ⟨c, hc, hwrites, hbyte⟩ := hs.served i hold
      exact ⟨c, List.mem_cons_of_mem _ hc, hwrites, (place_off (Or.inl hold)).trans hbyte⟩
    · have hhi : i < s.totalread.toNat + reading.toNat := hi.trans_eq htotal
      refine ⟨_, List.mem_cons_self, ⟨hnew, hhi⟩, ?_⟩
      exact (place_at hnew (by rw [hlen]; exact hhi)).trans (slice_getD (by omega))
  · intro i hi
    have hge : s.totalread.toNat + reading.toNat ≤ i := htotal.ge.trans hi
    exact (place_off (Or.inr (by rw [hlen]; exact hge))).trans (hs.rest i (by omega))

/-- **The loop ends**: a round that does not end it has read a full block, and so takes a byte. -/
theorem readLoop_ends {e : FsEnv Digest σ} {h : Cfs} {mem : Nat → UInt8} {count : UInt32} :
    ∀ (fuel : Nat) (s : ReadState Digest σ), ReadInv e h mem count s → s.left.toNat < fuel →
      ∃ ok t, readLoop e h count fuel s = some (ok, t) ∧ ReadInv e h mem count t
  | 0, _, _, hfuel => absurd hfuel (Nat.not_lt_zero _)
  | fuel + 1, s, hs, hfuel => by
    rw [readLoop]
    rcases readRound_cases e h s with ⟨w, blk, data, hround⟩ |
      ⟨w, blk, data, reading, hround, hverify, hlen, hoff, hreading⟩
    · rw [hround]
      exact ⟨false, _, rfl, hs.fetched w blk data⟩
    · have hoff940 := blkOffset_lt s.filepos
      have hinside : blkOffset s.filepos + reading.toNat ≤ 940 := by omega
      have hfits : reading.toNat ≤ s.left.toNat := by omega
      have hnext := (hs.fetched w blk data).copied hverify hinside hfits
      rw [hround]
      simp only
      split_ifs with hlast hmore
      · exact ⟨true, _, rfl, hnext⟩
      · refine readLoop_ends fuel _ hnext ?_
        -- the block is full, and bytes are left
        have hfull : ¬ data.count.toNat < 940 := fun hlt =>
          hlast ⟨UInt32.lt_iff_toNat_lt.mpr hlt, hmore⟩
        have hleft := hnext.counts
        have htotal := UInt32.lt_iff_toNat_lt.mp hmore
        have hrest : (s.left - reading).toNat = s.left.toNat - reading.toNat :=
          UInt32.toNat_sub_of_le _ _ (UInt32.le_iff_toNat_le.mpr (by omega))
        simp only [ReadState.copied, ReadState.fetched] at hleft htotal ⊢
        omega
      · exact ⟨true, _, rfl, hnext⟩

/-! ## 5. For every store -/

/-- What is asked of a call that read into a buffer of `count` bytes: its copies are good and stay
inside the buffer, what it writes are the bytes of its copies and nothing else, and where it returns
-1 the position is as before and every position that it wrote to holds 0. -/
structure ReadSafe (e : FsEnv Digest σ) (h : Cfs) (mem : Nat → UInt8) (count : Nat)
    (r : ReadResult Digest σ) : Prop where
  copies : ∀ c ∈ r.copies, c.Ok e h
  inside : ∀ c ∈ r.copies, c.dst + c.len ≤ count
  served : r.ret ≠ -1 → ∀ c ∈ r.copies, ∀ i, c.Writes i →
    ∃ c' ∈ r.copies, c'.Writes i ∧ r.buf i = c'.byte i
  rest : ∀ i, (∀ c ∈ r.copies, ¬ c.Writes i) → r.buf i = mem i
  restored : r.ret = -1 → r.handle.filepos = h.filepos ∧ ∀ c ∈ r.copies, ∀ i, c.Writes i → r.buf i = 0

theorem toInt32_ne {w : UInt32} (h : w.toNat < 4294967295) : toInt32 w ≠ -1 := by
  rw [toInt32]
  split <;> omega

/-- **`fs_read` is safe against every store.**  Whatever the normal world answers, the call returns,
and `ReadSafe` holds of what it leaves. -/
theorem fsRead_safe (e : FsEnv Digest σ) (w : World Digest σ) (h : Cfs) (b : ReadBuf)
    (mem : Nat → UInt8) (stk : FsStack Digest) :
    ∃ r, fsRead e w h mem b.count stk = some r ∧ ReadSafe e h mem b.count.toNat r := by
  rw [fsRead]
  split_ifs
  · exact ⟨_, rfl, nofun, nofun, fun hne => absurd rfl hne, fun _ _ => rfl, fun _ => ⟨rfl, nofun⟩⟩
  · have hstart : ReadInv e h mem b.count (readStart w h mem b.count stk) :=
      ⟨Nat.zero_add _, (UInt32.add_zero _).symm, nofun, nofun, fun _ _ => rfl⟩
    obtain ⟨ok, s, hloop, hs⟩ := readLoop_ends _ _ hstart (Nat.lt_succ_self b.count.toNat)
    have hcounts := hs.counts
    have hinside : ∀ c ∈ s.copies, c.dst + c.len ≤ b.count.toNat := fun c hc =>
      (hs.copies c hc).2.trans (by omega)
    have hunwritten : ∀ i, (∀ c ∈ s.copies, ¬ c.Writes i) → s.totalread.toNat ≤ i := by
      intro i hnone
      by_contra hlt
      obtain ⟨c, hc, hwrites, -⟩ := hs.served i (Nat.not_le.mp hlt)
      exact hnone c hc hwrites
    rw [hloop]
    cases ok with
    | true =>
      refine ⟨_, rfl, fun c hc => (hs.copies c hc).1, hinside, ?_,
        fun i hnone => hs.rest i (hunwritten i hnone), fun hret => absurd hret (toInt32_ne ?_)⟩
      · intro _ c hc i hwrites
        exact hs.served i (hwrites.2.trans_le (hs.copies c hc).2)
      · exact Nat.lt_of_le_of_lt (by omega) b.count_lt
    | false =>
      refine ⟨_, rfl, fun c hc => (hs.copies c hc).1, hinside, fun hne => absurd rfl hne, ?_,
        fun _ => ⟨rfl, ?_⟩⟩
      · intro i hnone
        have hge := hunwritten i hnone
        exact (place_off (Or.inr (by rw [List.length_replicate]; omega))).trans (hs.rest i hge)
      · intro c hc i hwrites
        have hlt : i < s.totalread.toNat := hwrites.2.trans_le (hs.copies c hc).2
        refine (place_at (Nat.zero_le i) (by rw [List.length_replicate]; omega)).trans ?_
        rw [List.getD_replicate _ (by omega)]

/-- A full block of zeros, sealed as the first one of a file. -/
def fullBlk : CfsBlk SymDigest :=
  (fsEncryptAndSign symCrypto ⟨Bytes.zero 16, .sha [], .sha [], Bytes.zero 944⟩ (Bytes.zero 32).toList
    ⟨[0xAC, 3, 0, 0] ++ List.replicate 940 0, by rw [List.length_append, List.length_replicate]; rfl⟩ 1).2

/-- A store that gives this block in place of every other. -/
def sameBlkEnv : FsEnv SymDigest Unit where
  crypto := symCrypto
  random := fun _ => 0
  serve := fun _ r =>
    match r with
    | .read _ count => (⟨count, fullBlk, 0⟩, ())
    | _ => (⟨0, fullBlk, 0⟩, ())
  initMagic := true
  secretValue := Bytes.zero 32

/-- 1000 bytes on the page below the frame. -/
def belowFrame : ReadBuf := ⟨0x70002000, 1000, 0x70003000, by decide, by decide, .inl (by decide)⟩

/-- A read over two blocks of this store, the second of which does not verify. -/
theorem fsRead_safe_sameBlk :
    ∃ r, fsRead sameBlkEnv ⟨(), 0, []⟩ ⟨3, 0, Bytes.zero 32⟩ (fun _ => 7) belowFrame.count
        ⟨fullBlk, Bytes.zero 944, 0⟩ = some r ∧
      ReadSafe sameBlkEnv ⟨3, 0, Bytes.zero 32⟩ (fun _ => 7) belowFrame.count.toNat r :=
  fsRead_safe sameBlkEnv ⟨(), 0, []⟩ ⟨3, 0, Bytes.zero 32⟩ belowFrame (fun _ => 7) ⟨fullBlk, Bytes.zero 944, 0⟩

end AndixOs.Fs
