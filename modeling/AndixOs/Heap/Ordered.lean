/-
# Heaps in order

A heap is in order when its blocks tile it and every `prev_size` is the size of the block before
(`Ordered`).  `RowFrom` says so of what is behind an address, so that a step can be followed header
by header (`rowFrom_step`).

The cut of `prepareBestBlock` is the step that leaves this in doubt: its store to the next block's
`prev_size` goes to the `k`-th byte of the new header, where `k` is the new block's size.
`prepareBestBlock_rowFrom_iff` says what the walk finds after it.
-/
import AndixOs.Heap.Blocks

namespace AndixOs.Heap

open AndixOs

variable {L : Layout} {m m' : Mem} {a p x sz k : Nat} {b : Block Bool}
  {bs pre post : List (Block Bool)}

/-! ## 1. Order -/

/-- The blocks tile the heap, and each `prev_size` is the size of the block before; that of the
first block is 0. -/
structure Ordered (L : Layout) (m : Mem) (bs : List (Block Bool)) : Prop where
  row : Row m L.heapStart bs L.top
  tags : Tags (prevSize m) 0 bs

/-- The heap that `init_heap` leaves. -/
theorem initHeap_ordered (L : Layout) (m : Mem) :
    Ordered L (initHeap L m) [⟨L.heapStart, kernelHeapSize - hdrSize, true⟩] := by
  have hprev : prevSize (initHeap L m) L.heapStart = 0 := by
    unfold initHeap prevSize setSize
    rw [load32_store32_of_ne (by omega)]
    exact load32_store32 _ _ 0
  exact ⟨initHeap_row L m, hprev, trivial⟩

/-- From `a` on the blocks tile the heap to its end, and their boundary tags are right behind a
block of `p` bytes. -/
def RowFrom (L : Layout) (m : Mem) (a p : Nat) : Prop :=
  ∃ rest, Row m a rest L.top ∧ Tags (prevSize m) p rest

theorem exists_ordered_iff : (∃ bs, Ordered L m bs) ↔ RowFrom L m L.heapStart 0 :=
  ⟨fun ⟨bs, h⟩ => ⟨bs, h.row, h.tags⟩, fun ⟨bs, hrow, htags⟩ => ⟨bs, hrow, htags⟩⟩

theorem rowFrom_top (L : Layout) (m : Mem) (p : Nat) : RowFrom L m L.top p := ⟨[], rfl, trivial⟩

theorem RowFrom.le (h : RowFrom L m a p) : a ≤ L.top := by
  obtain ⟨_, hrow, -⟩ := h
  exact Tiles.le hrow

/-- Behind blocks that are known. -/
theorem rowFrom_behind (hrow : Row m a pre x) (htags : Tags (prevSize m) p pre)
    (hx : x ≤ L.top) : RowFrom L m a p ↔ RowFrom L m x (lastSize p pre) := by
  constructor
  · rintro ⟨bs, hbs, htbs⟩
    obtain ⟨rest, rfl, hrest⟩ := Tiles.extends (by unfold hdrSize; omega) hrow hbs hx
    exact ⟨rest, hrest, (tags_append.mp htbs).2⟩
  · rintro ⟨rest, hrest, htrest⟩
    exact ⟨pre ++ rest, tiles_append.mpr ⟨x, hrow, hrest⟩, tags_append.mpr ⟨htags, htrest⟩⟩

/-- **One header.** -/
theorem rowFrom_step (hx : x < L.top) :
    RowFrom L m x p ↔
      prevSize m x = p ∧ RowFrom L m (x + hdrSize + size m x) (size m x) := by
  constructor
  · rintro ⟨rest, hrow, htags⟩
    cases rest with
    | nil =>
      have htop : x = L.top := hrow
      omega
    | cons b rest =>
      obtain ⟨rfl, hrd, htl⟩ := hrow
      have hsize : size m b.addr = b.size := congrArg Prod.fst hrd
      rw [hsize]
      exact ⟨htags.1, rest, htl, htags.2⟩
  · rintro ⟨hp, rest, hrow, htags⟩
    exact ⟨⟨x, size m x, mIsFree m x⟩ :: rest, Tiles.cons rfl rfl hrow, hp, htags⟩

theorem RowFrom.congr (h : RowFrom L m a p) (hsame : ∀ y, a ≤ y → y < L.top → m' y = m y) :
    RowFrom L m' a p := by
  obtain ⟨rest, hrow, htags⟩ := h
  refine ⟨rest, hrow.frame fun y hlo => hsame y (by omega), htags.congr fun b hb => ?_⟩
  obtain ⟨hlo, hhi⟩ := Tiles.mem_le hrow hb
  unfold Block.stop hdrSize at hhi
  exact load32_congr fun y _ _ => hsame y (by omega) (by omega)

theorem rowFrom_congr (hsame : ∀ y, a ≤ y → y < L.top → m' y = m y) :
    RowFrom L m' a p ↔ RowFrom L m a p :=
  ⟨fun h => h.congr fun y hlo hhi => (hsame y hlo hhi).symm, fun h => h.congr hsame⟩

/-- Blocks and their tags stay when their bytes do. -/
theorem tags_frame (hrow : Row m a pre x) (htags : Tags (prevSize m) p pre)
    (hsame : ∀ y, a ≤ y → y < x → m' y = m y) : Tags (prevSize m') p pre := by
  refine htags.congr fun b hb => ?_
  obtain ⟨hlo, hhi⟩ := Tiles.mem_le hrow hb
  unfold Block.stop hdrSize at hhi
  exact load32_congr fun y _ _ => hsame y (by omega) (by omega)

/-! ## 2. The header that a cut leaves -/

/-- The new header's `prev_size` after the stray store. -/
def strayPrev (sz k : Nat) : Nat := if k < 4 then sz % 256 ^ k + k * 256 ^ k else sz

/-- The new header's size after the stray store. -/
def straySize (k : Nat) : Nat :=
  if 5 ≤ k ∧ k ≤ 7 then 0 else if 9 ≤ k ∧ k ≤ 11 then k + k * 256 ^ (k - 8) else k

/-- The bytes of a small word that is stored at the `k`-th byte of a header. -/
theorem store32_small {v i : Nat} (hv : v < 256) :
    (store32 m (x + k) v (x + i)).toNat =
      if i = k then v else if k < i ∧ i < k + 4 then 0 else (m (x + i)).toNat := by
  unfold store32
  by_cases h0 : i = k
  · rw [if_pos h0, if_pos (by omega), UInt8.toNat_ofNat', Nat.mod_eq_of_lt hv]
  · rw [if_neg h0, if_neg (by omega)]
    by_cases hin : k < i ∧ i < k + 4
    · rw [if_pos hin]
      have h1 : v / 256 = 0 := Nat.div_eq_of_lt hv
      have h2 : v / 65536 = 0 := Nat.div_eq_of_lt (by omega)
      have h3 : v / 16777216 = 0 := Nat.div_eq_of_lt (by omega)
      rw [h1, h2, h3]
      split_ifs
      · rfl
      · rfl
      · rfl
      · omega
    · rw [if_neg hin, if_neg (by omega), if_neg (by omega), if_neg (by omega)]

/-- The stray store of `k`, at the `k`-th byte of a header, for each way it can hit. -/
theorem strayStore_words (hprev : load32 m x = sz) (hflags : load32 m (x + 4) = 0)
    (hsize : load32 m (x + 8) = k) (hpos : 0 < k) :
    load32 (store32 m (x + k) k) x = strayPrev sz k ∧
      load32 (store32 m (x + k) k) (x + 4) % 2 = 0 ∧
      load32 (store32 m (x + k) k) (x + 8) = straySize k := by
  rcases Nat.lt_or_ge k 12 with hlt | hge
  · have hbyte := fun i => store32_small (m := m) (x := x) (k := k) (i := i)
      (show k < 256 by omega)
    have hb0 := hbyte 0
    have hm := fun i => (m (x + i)).toNat_lt
    have hm0 := hm 0
    rw [Nat.add_zero] at hb0 hm0
    unfold load32 at hprev hflags hsize ⊢
    simp only [Nat.add_assoc, Nat.reduceAdd] at hprev hflags hsize ⊢
    simp only [hbyte, hb0]
    have hm1 := hm 1
    have hm2 := hm 2
    have hm3 := hm 3
    unfold strayPrev straySize
    interval_cases k <;> simp <;> omega
  · unfold strayPrev straySize
    rw [if_neg (by omega), if_neg (by omega), if_neg (by omega), load32_store32_of_ne (by omega),
      load32_store32_of_ne (by omega), load32_store32_of_ne (by omega), hflags]
    exact ⟨hprev, rfl, hsize⟩

/-- The new header after all the stores of the cut. -/
theorem cutStores_new (hpos : 0 < k) (hsz : sz < 4294967296) (hk : k < 4294967296) :
    prevSize (cutStores m x sz k) (x + hdrSize + sz) = strayPrev sz k ∧
      size (cutStores m x sz k) (x + hdrSize + sz) = straySize k := by
  generalize hnew : x + hdrSize + sz = new
  have hprev : load32 (setSize (setFlags (setPrevSize m new sz) new 0) new k) new = sz := by
    rw [setSize, load32_store32_of_ne (by omega), setFlags, load32_store32_of_ne (by omega)]
    exact (load32_store32 m new sz).trans (w32_of_lt hsz)
  have hflags : load32 (setSize (setFlags (setPrevSize m new sz) new 0) new k) (new + 4) = 0 := by
    rw [setSize, load32_store32_of_ne (by omega)]
    exact load32_store32 _ _ 0
  have hsize : load32 (setSize (setFlags (setPrevSize m new sz) new 0) new k) (new + 8) = k :=
    (load32_store32 _ _ k).trans (w32_of_lt hk)
  obtain ⟨h1, -, h3⟩ := strayStore_words hprev hflags hsize hpos
  unfold hdrSize at hnew
  unfold cutStores hdrSize
  simp only [hnew]
  -- the last two stores are to the header in front
  unfold prevSize size
  constructor
  · rw [setFlags, load32_store32_of_ne (by omega), setSize, load32_store32_of_ne (by omega)]
    exact h1
  · rw [setFlags, load32_store32_of_ne (by omega), setSize, load32_store32_of_ne (by omega)]
    exact h3

/-- The header in front after the cut, and its `prev_size`. -/
theorem cutStores_front (hk : 0 < k) (hsz : sz < 4294967296) :
    prevSize (cutStores m x sz k) x = prevSize m x ∧ size (cutStores m x sz k) x = sz := by
  unfold cutStores prevSize size hdrSize
  simp only
  constructor
  · unfold setFlags setSize setPrevSize
    repeat rw [load32_store32_of_ne (by omega)]
  · rw [setFlags, load32_store32_of_ne (by omega)]
    exact (load32_store32 _ _ sz).trans (w32_of_lt hsz)

/-- Where the walk goes on behind the new header, nothing is written. -/
theorem cutStores_behind {y : Nat} (hy : x + hdrSize + sz + hdrSize + straySize k ≤ y) :
    cutStores m x sz k y = m y := by
  have hend : x + hdrSize + sz + k + 4 ≤ y := by
    unfold straySize hdrSize at *
    split_ifs at hy with h1 h2
    · omega
    · have hpow : 256 ^ 1 ≤ 256 ^ (k - 8) := Nat.pow_le_pow_right (by decide) (by omega)
      have hmul := Nat.mul_le_mul (show 9 ≤ k from h2.1) hpow
      omega
    · omega
  unfold cutStores setFlags setSize setPrevSize hdrSize at *
  repeat rw [store32_of_ne (by omega)]

/-! ## 3. Giving a block out -/

/-- What the walk needs to find when a block of `s` bytes at `x` is given out for `sz` bytes: behind
a block that is not cut its old end, behind a cut the end that the stray store has left. -/
def CutFits (L : Layout) (m : Mem) (x s sz : Nat) : Prop :=
  if s ≤ sz + hdrSize then RowFrom L m (x + hdrSize + s) s
  else strayPrev sz (s - sz - hdrSize) = sz ∧
    RowFrom L m (x + hdrSize + sz + hdrSize + straySize (s - sz - hdrSize))
      (straySize (s - sz - hdrSize))

theorem cutFits_congr {s : Nat} (hsame : ∀ y, x + hdrSize ≤ y → y < L.top → m' y = m y) :
    CutFits L m' x s sz ↔ CutFits L m x s sz := by
  unfold CutFits
  split
  · exact rowFrom_congr fun y hy => hsame y (by omega)
  · rw [rowFrom_congr fun y hy => hsame y (by omega)]

/-- **The walk through a block that is given out.** -/
theorem prepareBestBlock_rowFrom_iff (hle : sz ≤ size m x)
    (hhi : x + hdrSize + size m x ≤ L.top) :
    RowFrom L (prepareBestBlock L m x sz) x p ↔
      prevSize m x = p ∧ CutFits L m x (size m x) sz := by
  have hlt := size_lt m x
  have hx : x < L.top := by
    unfold hdrSize at hhi
    omega
  unfold CutFits
  rw [rowFrom_step hx]
  by_cases hwhole : size m x ≤ sz + hdrSize
  · rw [prepareBestBlock_eq_whole hwhole hle hhi, if_pos hwhole]
    have hprev : prevSize (setFlags m x 1) x = prevSize m x := load32_store32_of_ne (by omega)
    have hsize : size (setFlags m x 1) x = size m x := load32_store32_of_ne (by omega)
    have hsame : ∀ y, x + hdrSize + size m x ≤ y → y < L.top → setFlags m x 1 y = m y :=
      fun y hy _ => store32_of_ne (by unfold hdrSize at hy; omega)
    rw [hprev, hsize, rowFrom_congr hsame]
  · obtain ⟨k, hk, hpos⟩ : ∃ k, size m x = sz + hdrSize + k ∧ 0 < k :=
      ⟨size m x - (sz + hdrSize), by omega, by omega⟩
    have hrest : size m x - sz - hdrSize = k := by omega
    rw [prepareBestBlock_eq_cut hk hpos hhi, if_neg hwhole, hrest]
    obtain ⟨hprev, hsize⟩ := cutStores_front (m := m) (x := x) hpos (show sz < 4294967296 by omega)
    obtain ⟨hprev', hsize'⟩ := cutStores_new (m := m) (x := x) hpos
      (show sz < 4294967296 by omega) (show k < 4294967296 by omega)
    rw [hprev, hsize, rowFrom_step (by unfold hdrSize at *; omega), hprev', hsize',
      rowFrom_congr fun y hy _ => cutStores_behind hy]

/-- The last block of the heap, of `s` bytes, is not cut for `sz` bytes, or the stray store spares
the new header: the new block has 4, 8 or more than 11 bytes, or it has 1 to 3 and the store puts
into `prev_size` what is there. -/
def sparesLast (s sz : Nat) : Bool :=
  s ≤ sz + hdrSize ||
    (let k := s - sz - hdrSize
    k == 4 || k == 8 || 12 ≤ k || (k < 4 && sz / 256 ^ k == k))

/-- **Giving out the last block.** -/
theorem cutFits_last {s : Nat} (hend : x + hdrSize + s = L.top) :
    CutFits L m x s sz ↔ sparesLast s sz = true := by
  unfold CutFits sparesLast
  by_cases hwhole : s ≤ sz + hdrSize
  · rw [if_pos hwhole, hend]
    simp [hwhole, rowFrom_top]
  · obtain ⟨k, rfl, hpos⟩ : ∃ k, s = sz + hdrSize + k ∧ 0 < k :=
      ⟨s - (sz + hdrSize), by omega, by omega⟩
    have hrest : sz + hdrSize + k - sz - hdrSize = k := by omega
    have hnew : x + hdrSize + sz + hdrSize + k = L.top := by omega
    rw [if_neg hwhole, hrest, decide_eq_false hwhole, Bool.false_or]
    simp only [Bool.or_eq_true, Bool.and_eq_true, beq_iff_eq, decide_eq_true_eq, or_assoc]
    -- behind the new header is the end of the heap, or the walk misses it
    have hwalk : RowFrom L m (x + hdrSize + sz + hdrSize + straySize k) (straySize k) ↔
        straySize k = k := by
      constructor
      · intro h
        by_contra hne
        have hle := h.le
        unfold straySize at hne h hle
        split_ifs at hne h hle with h1 h2
        · rw [rowFrom_step (by omega)] at h
          have hle' := h.2.le
          unfold hdrSize at hle' hnew
          omega
        · have hpow : 0 < k * 256 ^ (k - 8) := Nat.mul_pos hpos (Nat.pow_pos (by decide))
          omega
        · exact hne rfl
      · intro h
        rw [h, hnew]
        exact rowFrom_top L m k
    rw [hwalk]
    unfold strayPrev straySize
    rcases Nat.lt_or_ge k 12 with hlt | hge
    · interval_cases k <;> simp <;> omega
    · simp only [if_neg (show ¬ k < 4 by omega), if_neg (show ¬ (5 ≤ k ∧ k ≤ 7) by omega),
        if_neg (show ¬ (9 ≤ k ∧ k ≤ 11) by omega), true_and, true_iff]
      omega

/-- The stray store makes the new header one of 0, or of more bytes than there are, and what the walk
comes to then happens to be a row of headers in order to the end of the heap. -/
def StrayRow (L : Layout) (m : Mem) (x s sz : Nat) : Prop :=
  ∃ k, s = sz + hdrSize + k ∧ (5 ≤ k ∧ k ≤ 7 ∨ 9 ≤ k ∧ k ≤ 11) ∧
    RowFrom L m (x + hdrSize + sz + hdrSize + straySize k) (straySize k)

/-- **Giving out a block that has become smaller**: right for the last block, and behind another one
only by accident, since that one has another `prev_size`. -/
theorem cutFits_iff {s : Nat} (hhi : x + hdrSize + s ≤ L.top)
    (hnext : x + hdrSize + s < L.top → s < prevSize m (x + hdrSize + s)) :
    CutFits L m x s sz ↔
      (x + hdrSize + s = L.top ∧ sparesLast s sz = true) ∨ StrayRow L m x s sz := by
  have hstray : StrayRow L m x s sz → CutFits L m x s sz := by
    rintro ⟨k, rfl, hk, hrow⟩
    have hrest : sz + hdrSize + k - sz - hdrSize = k := by omega
    unfold CutFits strayPrev
    rw [if_neg (by omega), hrest, if_neg (by omega)]
    exact ⟨rfl, hrow⟩
  rcases Nat.lt_or_eq_of_le hhi with hlt | hend
  · refine Iff.trans ?_ (or_iff_right fun hlast => absurd hlast.1 (by omega)).symm
    refine ⟨fun hfits => ?_, hstray⟩
    have hstale := hnext hlt
    unfold CutFits at hfits
    split_ifs at hfits with hwhole
    · rw [rowFrom_step hlt] at hfits
      omega
    · obtain ⟨k, rfl, hpos⟩ : ∃ k, s = sz + hdrSize + k ∧ 0 < k :=
        ⟨s - (sz + hdrSize), by omega, by omega⟩
      have hrest : sz + hdrSize + k - sz - hdrSize = k := by omega
      rw [hrest] at hfits
      refine ⟨k, rfl, ?_, hfits.2⟩
      by_contra hk
      have hsame : straySize k = k := by
        unfold straySize
        rw [if_neg (by omega), if_neg (by omega)]
      have hnew : x + hdrSize + sz + hdrSize + k = x + hdrSize + (sz + hdrSize + k) := by omega
      rw [hsame, hnew, rowFrom_step hlt] at hfits
      omega
  · rw [cutFits_last hend]
    refine ⟨fun hspares => Or.inl ⟨hend, hspares⟩, fun hor => ?_⟩
    rcases hor with hlast | hrow
    · exact hlast.2
    · exact (cutFits_last hend).mp (hstray hrow)

end AndixOs.Heap
