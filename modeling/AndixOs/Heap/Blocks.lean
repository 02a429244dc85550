/-
# What each heap function does to the row of blocks

The heap is a row of blocks that tile it (`Row`).  Each function of `mm.c` is given here as an
edit of the row: which blocks it replaces by which, and which bytes it leaves alone.  The edits
are exact only where the function takes none of the wrong turns that `heapOk` names; the
hypotheses say so.

* `prepareBestBlock_row`, `moveBlock_row`: the cut, and the shift of a header for alignment;
* `mergeLast_row`, `mergeNext_row`, `setFlags_row`: the three parts of `kfree`.
-/
import AndixOs.Heap.Model
import Mathlib.Tactic.IntervalCases

namespace AndixOs.Heap

open AndixOs

/-- The blocks in memory from `a` to `e`; the tag says whether a block is free. -/
abbrev Row (m : Mem) (a : Nat) (bs : List (Block Bool)) (e : Nat) : Prop :=
  Tiles hdrSize (rdBlk m) a bs e

variable {L : Layout} {m m' : Mem} {a e : Nat} {b c : Block Bool} {bs pre post : List (Block Bool)}

/-! ## 1. Headers and stores -/

theorem rdBlk_congr {x : Nat} (h : ∀ y, x + 4 ≤ y → y < x + 12 → m' y = m y) :
    rdBlk m' x = rdBlk m x := by
  have hsize : size m' x = size m x :=
    load32_congr fun y _ _ => h y (by omega) (by omega)
  have hflags : flags m' x = flags m x :=
    load32_congr fun y _ _ => h y (by omega) (by omega)
  rw [rdBlk, rdBlk, mIsFree, mIsFree, hsize, hflags]

/-- A store behind a header, or to its `prev_size`, is not seen by the walk. -/
theorem rdBlk_store32 {x y v : Nat} (h : x + 12 ≤ y ∨ y ≤ x) :
    rdBlk (store32 m y v) x = rdBlk m x :=
  rdBlk_congr fun _ _ _ => store32_of_ne (by omega)

theorem mIsFree_eq (m : Mem) (x : Nat) : mIsFree m x = ((m (x + 4)).toNat % 2 == 0) := by
  rw [mIsFree, flags, load32]
  congr 1
  omega

theorem size_setSize (m : Mem) (x v : Nat) : size (setSize m x v) x = w32 v := load32_store32 _ _ _

theorem size_lt (m : Mem) (x : Nat) : size m x < 4294967296 := load32_lt _ _

theorem rdBlk_setSize (m : Mem) (x v : Nat) :
    rdBlk (setSize m x v) x = (w32 v, (rdBlk m x).2) := by
  have hflags : flags (setSize m x v) x = flags m x := load32_store32_of_ne (by omega)
  rw [rdBlk, size_setSize, mIsFree, hflags]
  rfl

theorem rdBlk_setFlags (m : Mem) (x v : Nat) :
    rdBlk (setFlags m x v) x = ((rdBlk m x).1, w32 v % 2 == 0) := by
  have hsize : size (setFlags m x v) x = size m x := load32_store32_of_ne (by omega)
  have hflags : flags (setFlags m x v) x = w32 v := load32_store32 _ _ _
  rw [rdBlk, hsize, mIsFree, hflags]
  rfl

/-- A change that spares everything but the first word of a row spares the row. -/
theorem Row.frame (h : Row m a bs e) (hsame : ∀ y, a + 4 ≤ y → y < e → m' y = m y) :
    Row m' a bs e := by
  refine Tiles.congr h fun b hb => rdBlk_congr fun y hlo hhi => ?_
  obtain ⟨h1, h2⟩ := Tiles.mem_le h hb
  unfold Block.stop hdrSize at h2
  exact hsame y (by omega) (by omega)

/-- The block behind a block of the row. -/
theorem Row.mNextBlock_eq (h : Row m a bs e) (he : e ≤ L.top) (hb : b ∈ bs) :
    mNextBlock m b.addr = b.stop hdrSize := by
  have hroom := L.room
  have hle := (Tiles.mem_le h hb).2
  have hsize : size m b.addr = b.size := congrArg Prod.fst (Tiles.mem_rd h hb)
  unfold Block.stop Layout.top at *
  rw [mNextBlock, hsize, w32_of_lt (by omega)]
  omega

/-- Where the header of a block may be. -/
theorem Row.addr_pos (h : Row m L.heapStart bs L.top) (hb : b ∈ bs) :
    0 < b.addr ∧ b.addr + hdrSize < 4294967296 := by
  have hlow := L.low
  have hroom := L.room
  obtain ⟨h1, h2⟩ := Tiles.mem_le h hb
  unfold Block.stop Layout.top at h2
  omega

/-- The heap that `init_heap` leaves is one free block. -/
theorem initHeap_row (L : Layout) (m : Mem) :
    Row (initHeap L m) L.heapStart [⟨L.heapStart, kernelHeapSize - hdrSize, true⟩] L.top := by
  have hend : L.heapStart + hdrSize + (kernelHeapSize - hdrSize) = L.top := by
    unfold hdrSize kernelHeapSize Layout.top kernelHeapSize
    omega
  refine Tiles.cons rfl ?_ hend
  unfold initHeap
  simp only
  rw [rdBlk_setSize, setPrevSize, rdBlk_store32 (Or.inr (Nat.le_refl _)), rdBlk_setFlags]
  rfl

/-- The fuel of the walks is enough for every row of the heap. -/
theorem Row.length_lt (h : Row m L.heapStart bs L.top) : bs.length < walkFuel := by
  have hle := Tiles.length_le h
  unfold Layout.top hdrSize walkFuel kernelHeapSize at *
  omega

/-! ## 2. Cutting a block -/

/-- The blocks `prepareBestBlock` leaves in the place of a free block. -/
def cutRow (x bsize sz : Nat) : List (Block Bool) :=
  if bsize > sz + hdrSize then
    [⟨x, sz, false⟩, ⟨x + hdrSize + sz, bsize - sz - hdrSize, true⟩]
  else [⟨x, bsize, false⟩]

/-- The stray store to `next->prev_size`, `k` bytes behind the header of a new block of `k` bytes,
leaves the header's flags and size as they should be when `k` is one of the harmless values. -/
theorem rdBlk_strayStore {x k : Nat} (hrd : rdBlk m x = (k, true)) (hk : 0 < k)
    (hsp : k ≤ 4 ∨ k = 8 ∨ 12 ≤ k) : rdBlk (store32 m (x + k) k) x = (k, true) := by
  rcases hsp with hk4 | rfl | hk12
  · -- the store ends before the size; of the flags it reaches only bytes it sets to an even value
    have hsize : size (store32 m (x + k) k) x = size m x := load32_store32_of_ne (by omega)
    have hflag : mIsFree (store32 m (x + k) k) x = true := by
      rw [mIsFree_eq]
      interval_cases k <;> simp [store32]
    have hk' : size m x = k := congrArg Prod.fst hrd
    rw [rdBlk, hsize, hflag, hk']
  · have hsize : size (store32 m (x + 8) 8) x = 8 := load32_store32 m (x + 8) 8
    have hflags : flags (store32 m (x + 8) 8) x = flags m x := load32_store32_of_ne (by omega)
    rw [rdBlk, hsize, mIsFree, hflags]
    exact congrArg (Prod.mk 8) (congrArg Prod.snd hrd)
  · rw [rdBlk_store32 (by omega), hrd]

theorem splitSpares_cases {bsize sz k : Nat} (h : splitSpares bsize sz = true)
    (hk : bsize = sz + hdrSize + k) : k ≤ 4 ∨ k = 8 ∨ 12 ≤ k := by
  simp [splitSpares, hk] at h
  omega

/-- The stores of `prepareBestBlock` when it cuts a new block of `k` bytes off the end, with the
addresses worked out. -/
def cutStores (m : Mem) (x sz k : Nat) : Mem :=
  let new := x + hdrSize + sz
  setFlags (setSize (setPrevSize (setSize (setFlags (setPrevSize m new sz) new 0) new k)
    (new + k) k) x sz) x 1

theorem prepareBestBlock_eq_cut {x sz k : Nat} (hsize : size m x = sz + hdrSize + k)
    (hpos : 0 < k) (hhi : x + hdrSize + size m x ≤ L.top) :
    prepareBestBlock L m x sz = cutStores m x sz k := by
  have hroom := L.room
  unfold Layout.top hdrSize kernelHeapSize at *
  have hcut : size m x > w32 (sz + 12) := by
    rw [w32_of_lt (by omega)]
    omega
  have hnew : w32 (x + sz + 12) = x + 12 + sz := by
    rw [w32_of_lt (by omega)]
    omega
  have hnext : w32 (x + size m x) = x + 12 + sz + k := by
    rw [w32_of_lt (by omega)]
    omega
  -- the stores to the new header leave `best->size`
  have hsame : size (setFlags (setPrevSize m (x + 12 + sz) sz) (x + 12 + sz) 0) x = size m x :=
    load32_congr fun z _ _ => (store32_of_ne (by omega)).trans (store32_of_ne (by omega))
  have hrest : sub32 (size m x) 12 = size m x - 12 := sub32_of_le (by omega) (by omega)
  have hk : sub32 (size m x - 12) sz = k := by
    rw [sub32_of_le (by omega) (by omega)]
    omega
  have hend : x + 12 + sz + k < L.heapEnd := by
    unfold Layout.heapEnd kernelHeapSize
    omega
  unfold prepareBestBlock hdrSize
  rw [if_pos hcut]
  simp only [hnew, hnext, hsame, hrest, hk, if_pos hend, size_setSize,
    w32_of_lt (show k < 4294967296 by omega)]
  rfl

theorem prepareBestBlock_eq_whole {x sz : Nat} (h : size m x ≤ sz + hdrSize)
    (hle : sz ≤ size m x) (hhi : x + hdrSize + size m x ≤ L.top) :
    prepareBestBlock L m x sz = setFlags m x 1 := by
  have hroom := L.room
  unfold Layout.top hdrSize kernelHeapSize at *
  unfold prepareBestBlock hdrSize
  rw [if_neg (by rw [w32_of_lt (by omega)]; omega)]

/-- The bytes `prepareBestBlock` may change: the block's own, less its `prev_size`. -/
theorem prepareBestBlock_of_ne {x sz y : Nat} (hle : sz ≤ size m x)
    (hhi : x + hdrSize + size m x ≤ L.top) (hy : y < x + 4 ∨ x + hdrSize + size m x ≤ y) :
    prepareBestBlock L m x sz y = m y := by
  rcases Nat.lt_or_ge (sz + hdrSize) (size m x) with hcut | hwhole
  · obtain ⟨k, hk⟩ := Nat.exists_eq_add_of_lt hcut
    rw [prepareBestBlock_eq_cut (k := k + 1) (by omega) (by omega) hhi]
    unfold cutStores setFlags setSize setPrevSize hdrSize at *
    repeat rw [store32_of_ne (by omega)]
  · rw [prepareBestBlock_eq_whole hwhole hle hhi]
    unfold hdrSize at hy
    exact store32_of_ne (by omega)

/-- The two headers the cut leaves. -/
theorem cutStores_row {x sz k : Nat} (hpos : 0 < k) (hstray : k ≤ 4 ∨ k = 8 ∨ 12 ≤ k)
    (hsz : sz < 4294967296) (hk : k < 4294967296) :
    Row (cutStores m x sz k) x [⟨x, sz, false⟩, ⟨x + hdrSize + sz, k, true⟩]
      (x + hdrSize + sz + hdrSize + k) := by
  have hrd3 : rdBlk (setSize (setFlags (setPrevSize m (x + hdrSize + sz) sz) (x + hdrSize + sz) 0)
      (x + hdrSize + sz) k) (x + hdrSize + sz) = (k, true) := by
    rw [rdBlk_setSize, rdBlk_setFlags, w32_of_lt hk]
    rfl
  have hrd4 := rdBlk_strayStore hrd3 hpos hstray
  unfold cutStores
  refine Tiles.cons rfl ?_ (Tiles.cons rfl ?_ rfl)
  · rw [rdBlk_setFlags, rdBlk_setSize, w32_of_lt hsz]
    rfl
  · -- the last two stores are to the header in front
    unfold Block.stop hdrSize at *
    rw [setFlags, rdBlk_store32 (by simp only; omega), setSize, rdBlk_store32 (by simp only; omega)]
    exact hrd4

/-- **The cut.**  A block that is given out becomes the row `cutRow`. -/
theorem prepareBestBlock_row {x sz : Nat} (hle : sz ≤ size m x)
    (hhi : x + hdrSize + size m x ≤ L.top) (hsp : splitSpares (size m x) sz = true) :
    Row (prepareBestBlock L m x sz) x (cutRow x (size m x) sz) (x + hdrSize + size m x) := by
  have hlt := size_lt m x
  rcases Nat.lt_or_ge (sz + hdrSize) (size m x) with hcut | hwhole
  · obtain ⟨k, hk, hpos⟩ : ∃ k, size m x = sz + hdrSize + k ∧ 0 < k :=
      ⟨size m x - (sz + hdrSize), by omega, by omega⟩
    rw [prepareBestBlock_eq_cut hk hpos hhi, cutRow, if_pos hcut]
    have hrow := cutStores_row (m := m) (x := x) hpos (splitSpares_cases hsp hk)
      (show sz < 4294967296 by omega) (show k < 4294967296 by omega)
    have hrest : size m x - sz - hdrSize = k := by omega
    have hend : x + hdrSize + size m x = x + hdrSize + sz + hdrSize + k := by omega
    rw [hrest, hend]
    exact hrow
  · rw [prepareBestBlock_eq_whole hwhole hle hhi, cutRow, if_neg (by omega)]
    refine Tiles.cons rfl ?_ rfl
    rw [rdBlk_setFlags]
    rfl

/-- `kmalloc`'s edit: a free block gives way to the row `cutRow`. -/
theorem Row.cut {sz : Nat} (h : Row m a (pre ++ b :: post) e) (he : e ≤ L.top)
    (hle : sz ≤ b.size) (hsp : splitSpares b.size sz = true) :
    Row (prepareBestBlock L m b.addr sz) a (pre ++ cutRow b.addr b.size sz ++ post) e := by
  obtain ⟨x, hpre, hax, hrd, hpost⟩ := tiles_append.mp h
  subst hax
  have hsize : size m b.addr = b.size := congrArg Prod.fst hrd
  have hhi : b.addr + hdrSize + size m b.addr ≤ L.top :=
    hsize ▸ Nat.le_trans (Tiles.le hpost) he
  have hrow := prepareBestBlock_row (hsize.symm ▸ hle) hhi (hsize.symm ▸ hsp)
  rw [hsize] at hrow
  have hpre' : Row (prepareBestBlock L m b.addr sz) a pre b.addr :=
    Row.frame hpre fun y _ hy => prepareBestBlock_of_ne (hsize.symm ▸ hle) hhi (Or.inl (by omega))
  have hpost' : Row (prepareBestBlock L m b.addr sz) (b.stop hdrSize) post e :=
    Row.frame hpost fun y hy _ => prepareBestBlock_of_ne (hsize.symm ▸ hle) hhi
      (Or.inr (by unfold Block.stop at hy; omega))
  exact tiles_append.mpr ⟨_, tiles_append.mpr ⟨_, hpre', hrow⟩, hpost'⟩

/-! ## 3. Moving a block's header -/

/-- The stores of `moveBlock`, with the addresses worked out, where `prev_size` leads in front of the
block. -/
theorem moveBlock_eq {x last pad : Nat} (hlast : mLastBlock m x = last) (hle : last + 12 ≤ x)
    (hhi : x + 12 + size m x < 4294967296) (hpad : pad ≤ size m x) :
    moveBlock m x pad = (x + pad, setSize (setPrevSize (setSize m last (w32 (size m last + pad)))
      (x + pad) (w32 (size m last + pad))) (x + pad) (size m x - pad)) := by
  have hbest : sub32 (w32 (w32 (x + 12) + pad)) 12 = x + pad := by
    have hoff : w32 (x + 12) = x + 12 := w32_of_lt (by omega)
    have hnew : w32 (x + 12 + pad) = x + 12 + pad := w32_of_lt (by omega)
    rw [hoff, hnew, sub32_of_le (by omega) (by omega)]
    omega
  have hsize : size (setSize m last (w32 (size m last + pad))) x = size m x :=
    load32_store32_of_ne (by omega)
  have hgrown : size (setSize m last (w32 (size m last + pad))) last = w32 (size m last + pad) := by
    rw [size_setSize, w32_of_lt (w32_lt _)]
  have hrest : sub32 (size m x) pad = size m x - pad := sub32_of_le hpad (by omega)
  unfold moveBlock hdrSize
  simp only [hlast, hbest, hsize, hgrown, hrest]

/-- What `moveBlock` does when `prev_size` leads to the block before: the block before grows by
the padding, the block itself shrinks by it, and only the two headers are written. -/
theorem moveBlock_spec {l : Block Bool} {pad : Nat} (hlb : l.stop hdrSize = b.addr)
    (hl : rdBlk m l.addr = (l.size, l.tag)) (hb : size m b.addr = b.size)
    (hhi : b.stop hdrSize ≤ L.top) (hlast : mLastBlock m b.addr = l.addr) (hpad : pad < b.size) :
    (moveBlock m b.addr pad).1 = b.addr + pad ∧
      rdBlk (moveBlock m b.addr pad).2 l.addr = (l.size + pad, l.tag) ∧
      size (moveBlock m b.addr pad).2 (b.addr + pad) = b.size - pad ∧
      ∀ y, (y < l.addr ∨ l.addr + 12 ≤ y) → (y < b.addr + pad ∨ b.addr + pad + 12 ≤ y) →
        (moveBlock m b.addr pad).2 y = m y := by
  have hroom := L.room
  have hsize : size m l.addr = l.size := congrArg Prod.fst hl
  unfold Block.stop Layout.top hdrSize kernelHeapSize at *
  have hgrow : w32 (l.size + pad) = l.size + pad := w32_of_lt (by omega)
  rw [moveBlock_eq hlast (by omega) (by omega) (by omega), hsize, hb, hgrow]
  refine ⟨rfl, ?_, ?_, ?_⟩
  · simp only [setSize, setPrevSize]
    rw [rdBlk_store32 (by omega), rdBlk_store32 (by omega)]
    exact (rdBlk_setSize _ _ _).trans (by rw [hl, hgrow])
  · rw [size_setSize, w32_of_lt (by omega)]
  · intro y hyl hyb
    simp only [setSize, setPrevSize]
    rw [store32_of_ne (by omega), store32_of_ne (by omega), store32_of_ne (by omega)]

/-- `kmalloc_align`'s edit: the block before takes the padding, and the rest of the free block
gives way to the row `cutRow`. -/
theorem Row.moveCut {l : Block Bool} {sz pad : Nat} (h : Row m a (pre ++ l :: b :: post) e)
    (he : e ≤ L.top) (hlast : mLastBlock m b.addr = l.addr) (hpad : pad < b.size)
    (hle : sz ≤ b.size - pad) (hsp : splitSpares (b.size - pad) sz = true) :
    Row (prepareBestBlock L (moveBlock m b.addr pad).2 (b.addr + pad) sz) a
      (pre ++ ⟨l.addr, l.size + pad, l.tag⟩ :: (cutRow (b.addr + pad) (b.size - pad) sz ++ post))
      e := by
  obtain ⟨x, hpre, hax, hrdl, hlb, hrdb, hpost⟩ := tiles_append.mp h
  subst hax
  have hsizeb : size m b.addr = b.size := by
    rw [hlb]
    exact congrArg Prod.fst hrdb
  have hhi : b.stop hdrSize ≤ L.top := Nat.le_trans (Tiles.le hpost) he
  obtain ⟨-, hrdl', hsize', hsame⟩ := moveBlock_spec hlb.symm hrdl hsizeb hhi hlast hpad
  generalize (moveBlock m b.addr pad).2 = m1 at *
  have hstop : b.addr + pad + hdrSize + size m1 (b.addr + pad) = b.stop hdrSize := by
    rw [hsize']
    unfold Block.stop
    omega
  have hle' : sz ≤ size m1 (b.addr + pad) := by
    rw [hsize']
    exact hle
  have hhi' : b.addr + pad + hdrSize + size m1 (b.addr + pad) ≤ L.top := by
    rw [hstop]
    exact hhi
  have hrow := prepareBestBlock_row hle' hhi' (by rw [hsize']; exact hsp)
  have hcut : ∀ y, y < b.addr + pad + 4 ∨ b.stop hdrSize ≤ y →
      prepareBestBlock L m1 (b.addr + pad) sz y = m1 y := fun y hy =>
    prepareBestBlock_of_ne hle' hhi' (by rw [hstop]; exact hy)
  rw [hstop, hsize'] at hrow
  have hbstop : b.stop hdrSize = b.addr + 12 + b.size := rfl
  unfold Block.stop hdrSize at hlb
  have hpre' : Row (prepareBestBlock L m1 (b.addr + pad) sz) a pre l.addr :=
    Row.frame hpre fun y _ hy => (hcut y (by omega)).trans (hsame y (by omega) (by omega))
  have hpost' : Row (prepareBestBlock L m1 (b.addr + pad) sz) (b.stop hdrSize) post e :=
    Row.frame hpost fun y hy _ => (hcut y (by omega)).trans (hsame y (by omega) (by omega))
  refine tiles_append.mpr ⟨_, hpre', Tiles.cons rfl ?_ (tiles_append.mpr ⟨_, ?_, hpost'⟩)⟩
  · exact (rdBlk_congr fun y _ _ => hcut y (by omega)).trans hrdl'
  · have hlstop : Block.stop hdrSize ⟨l.addr, l.size + pad, l.tag⟩ = b.addr + pad := by
      unfold Block.stop hdrSize
      simp only
      omega
    rw [hlstop]
    exact hrow

/-! ## 4. Merging and freeing -/

/-- Only bytes of the headers at `xs` differ. -/
def HeadersOnly (xs : List Nat) (m m' : Mem) : Prop :=
  ∀ y, (∀ x ∈ xs, y < x ∨ x + hdrSize ≤ y) → m' y = m y

theorem HeadersOnly.refl (xs : List Nat) (m : Mem) : HeadersOnly xs m m := fun _ _ => rfl

theorem HeadersOnly.trans {xs : List Nat} {m'' : Mem} (h : HeadersOnly xs m m')
    (h' : HeadersOnly xs m' m'') : HeadersOnly xs m m'' :=
  fun y hy => (h' y hy).trans (h y hy)

theorem HeadersOnly.mono {xs ys : List Nat} (h : HeadersOnly xs m m') (hsub : xs ⊆ ys) :
    HeadersOnly ys m m' :=
  fun y hy => h y fun x hx => hy x (hsub hx)

theorem HeadersOnly.store32 {xs : List Nat} {x y v : Nat} (hx : x ∈ xs) (hlo : x ≤ y)
    (hhi : y + 4 ≤ x + hdrSize) : HeadersOnly xs m (store32 m y v) := by
  intro z hz
  have hzx := hz x hx
  exact store32_of_ne (by omega)

/-- The store that joins a block with the one behind it. -/
theorem Row.join {l : Block Bool} (h : Row m a (pre ++ l :: b :: post) e) (he : e ≤ L.top) :
    Row (setSize m l.addr (w32 (w32 (size m l.addr + hdrSize) + size m b.addr))) a
      (pre ++ ⟨l.addr, l.size + hdrSize + b.size, l.tag⟩ :: post) e := by
  have hroom := L.room
  obtain ⟨x, hpre, hax, hrdl, hlb, hrdb, hpost⟩ := tiles_append.mp h
  subst hax
  have hle := Tiles.le hpost
  have hsl : size m l.addr = l.size := congrArg Prod.fst hrdl
  have hsb : size m b.addr = b.size := by
    rw [hlb]
    exact congrArg Prod.fst hrdb
  have hbstop : b.stop hdrSize = b.addr + 12 + b.size := rfl
  have hlstop : l.stop hdrSize = l.addr + 12 + l.size := rfl
  have hval : w32 (w32 (size m l.addr + hdrSize) + size m b.addr) = l.size + 12 + b.size := by
    unfold Layout.top hdrSize at *
    rw [hsl, hsb, w32_of_lt (n := l.size + 12) (by omega), w32_of_lt (by omega)]
  rw [hval]
  have hsame : ∀ y, (y < l.addr + 8 ∨ l.addr + 12 ≤ y) →
      setSize m l.addr (l.size + 12 + b.size) y = m y := fun y hy => store32_of_ne (by omega)
  refine tiles_append.mpr ⟨_, Row.frame hpre fun y _ hy => hsame y (by omega),
    Tiles.cons rfl ?_ ?_⟩
  · unfold Layout.top at he
    rw [rdBlk_setSize, hrdl, w32_of_lt (by omega)]
    rfl
  · have hstop : Block.stop hdrSize ⟨l.addr, l.size + hdrSize + b.size, l.tag⟩ = b.stop hdrSize := by
      unfold Block.stop hdrSize at *
      simp only
      omega
    rw [hstop]
    exact Row.frame hpost fun y hy _ => hsame y (by omega)

/-- The store that frees a block. -/
theorem Row.free (h : Row m a (pre ++ b :: post) e) :
    Row (setFlags m b.addr 0) a (pre ++ ⟨b.addr, b.size, true⟩ :: post) e := by
  obtain ⟨x, hpre, hax, hrd, hpost⟩ := tiles_append.mp h
  subst hax
  have hbstop : b.stop hdrSize = b.addr + 12 + b.size := rfl
  have hsame : ∀ y, (y < b.addr + 4 ∨ b.addr + 8 ≤ y) → setFlags m b.addr 0 y = m y :=
    fun y hy => store32_of_ne (by omega)
  refine tiles_append.mpr ⟨_, Row.frame hpre fun y _ hy => hsame y (by omega),
    Tiles.cons rfl ?_ (Row.frame hpost fun y hy _ => hsame y (by
      simp only [Block.stop_mk, hdrSize] at hy
      omega))⟩
  rw [rdBlk_setFlags, hrd]
  rfl

/-- The update of `prev_size` in the block behind `c`, if there is one. -/
theorem Row.setPrev_next {v : Nat} (h : Row m a (pre ++ c :: post) L.top) :
    Row (if c.stop hdrSize < L.heapEnd then setPrevSize m (c.stop hdrSize) v else m) a
        (pre ++ c :: post) L.top ∧
      HeadersOnly (post.map Block.addr) m
        (if c.stop hdrSize < L.heapEnd then setPrevSize m (c.stop hdrSize) v else m) := by
  split_ifs with hlt
  · obtain ⟨x, hpre, hax, hrd, hpost⟩ := tiles_append.mp h
    cases post with
    | nil =>
      have htop : c.stop hdrSize = L.top := hpost
      unfold Layout.heapEnd Layout.top at *
      omega
    | cons n post =>
      have hn : n.addr = c.stop hdrSize := hpost.1
      refine ⟨Tiles.congr h fun b hb => ?_, ?_⟩
      · rcases eq_or_ne b.addr n.addr with heq | hne
        · exact rdBlk_store32 (by omega)
        · have hsep := Tiles.disjoint h hb (by simp) hne
          unfold Block.stop hdrSize at hsep hn
          unfold setPrevSize Block.stop hdrSize
          exact rdBlk_store32 (by omega)
      · exact HeadersOnly.store32 (by simp) (Nat.le_of_eq hn)
          (by unfold hdrSize at *; omega)
  · exact ⟨h, HeadersOnly.refl _ _⟩

/-- **The merge with the block behind.**  The block may take over free blocks behind it, and only
headers are written. -/
theorem mergeNext_row (h : Row m a (pre ++ c :: post) L.top) :
    ∃ c' mid post', post = mid ++ post' ∧ c'.addr = c.addr ∧ (∀ n ∈ mid, n.tag = true) ∧
      Row (mergeNext L m c.addr (c.stop hdrSize)) a (pre ++ c' :: post') L.top ∧
      HeadersOnly ((c :: post).map Block.addr) m (mergeNext L m c.addr (c.stop hdrSize)) := by
  unfold mergeNext
  by_cases hlt : c.stop hdrSize < L.heapEnd
  · rw [if_pos hlt]
    cases hfree : mIsFree m (c.stop hdrSize) with
    | false =>
      obtain ⟨hrow, honly⟩ := h.setPrev_next (v := size m c.addr)
      refine ⟨c, [], post, rfl, rfl, by simp, ?_, ?_⟩
      · simpa using hrow
      · simpa using honly.mono (List.subset_cons_self _ _)
    | true =>
      obtain ⟨x, hpre, hax, hrd, hpost⟩ := tiles_append.mp h
      cases post with
      | nil =>
        have htop : c.stop hdrSize = L.top := hpost
        unfold Layout.heapEnd Layout.top at *
        omega
      | cons n post =>
        obtain ⟨hn, hrdn, hrest⟩ := hpost
        have hntag : n.tag = true := by
          rw [← hfree]
          exact (congrArg Prod.snd hrdn).symm
        have hjoin := h.join (Nat.le_refl _)
        rw [hn] at hjoin
        have hwrite : HeadersOnly ((c :: n :: post).map Block.addr) m (setSize m c.addr
            (w32 (w32 (size m c.addr + hdrSize) + size m (c.stop hdrSize)))) :=
          HeadersOnly.store32 List.mem_cons_self (by omega) (by unfold hdrSize; omega)
        generalize hm1 : setSize m c.addr
          (w32 (w32 (size m c.addr + hdrSize) + size m (c.stop hdrSize))) = m1 at *
        have hnext := Row.mNextBlock_eq hjoin (Nat.le_refl _)
          (b := ⟨c.addr, c.size + hdrSize + n.size, c.tag⟩) (by simp)
        obtain ⟨hrow, honly⟩ := hjoin.setPrev_next (v := size m1 c.addr)
        refine ⟨⟨c.addr, c.size + hdrSize + n.size, c.tag⟩, [n], post, rfl, rfl,
          by simpa using hntag, ?_, ?_⟩
        · simpa only [if_true, hm1, hnext] using hrow
        · refine hwrite.trans ?_
          simpa only [if_true, hm1, hnext] using honly.mono (by simp)
  · rw [if_neg hlt]
    exact ⟨c, [], post, rfl, rfl, by simp, h, HeadersOnly.refl _ _⟩

theorem mem_heapWalk (h : Row m L.heapStart bs L.top) {x : Nat} :
    x ∈ heapWalk L m ↔ ∃ b ∈ bs, b.addr = x := by
  rw [heapWalk, Tiles.walkRow_eq (by unfold hdrSize; omega) walkFuel h h.length_lt, List.mem_map]

/-- When `followsLast` holds, `prev_size` leads to the block before. -/
theorem followsLast_row (h : Row m L.heapStart bs L.top) (hb : b ∈ bs)
    (hok : followsLast L m b.addr = true) :
    ∃ pre l post, bs = pre ++ l :: b :: post ∧ l.addr = mLastBlock m b.addr := by
  rw [followsLast, Bool.and_eq_true, List.contains_iff_mem, mem_heapWalk h, beq_iff_eq] at hok
  obtain ⟨⟨l, hl, haddr⟩, hnext⟩ := hok
  rw [← haddr, h.mNextBlock_eq (Nat.le_refl _) hl] at hnext
  obtain ⟨pre, post, rfl⟩ := Tiles.split_after (by unfold hdrSize; omega) h hl hb hnext
  exact ⟨pre, l, post, rfl, haddr⟩

/-- **The merge with the block before.**  If `prev_size` leads below the heap, to a block in use or
to the block before, the freed block or its merge with a free block before it stands between the
same neighbours. -/
theorem mergeLast_row (h : Row m L.heapStart bs L.top) (hb : b ∈ bs)
    (hok : mLastBlock m b.addr < L.heapStart ∨ mIsFree m (mLastBlock m b.addr) = false ∨
      followsLast L m b.addr = true) :
    ∃ pre c post, Row (mergeLast L m b.addr).2 L.heapStart (pre ++ c :: post) L.top ∧
      (mergeLast L m b.addr).1 = c.addr ∧ c.stop hdrSize = b.stop hdrSize ∧
      (∀ x ∈ bs, x = b ∨ x.tag = true ∨ x ∈ pre ∨ x ∈ post) ∧
      c.addr ∈ bs.map Block.addr ∧ post ⊆ bs ∧
      HeadersOnly (bs.map Block.addr) m (mergeLast L m b.addr).2 := by
  unfold mergeLast
  by_cases hmerge : (mLastBlock m b.addr ≥ L.heapStart && mIsFree m (mLastBlock m b.addr)) = true
  · rw [if_pos hmerge]
    simp only [Bool.and_eq_true, decide_eq_true_eq] at hmerge
    have hfollows : followsLast L m b.addr = true := by
      rcases hok with hlow | hused | hfollows
      · omega
      · rw [hmerge.2] at hused
        cases hused
      · exact hfollows
    obtain ⟨pre, l, post, rfl, hl⟩ := followsLast_row h hb hfollows
    obtain ⟨x, -, hax, hrdl, hlb, -⟩ := tiles_append.mp h
    have hltag : l.tag = true := by
      rw [← hmerge.2, ← hl, hax]
      exact (congrArg Prod.snd hrdl).symm
    rw [← hl]
    refine ⟨pre, _, post, h.join (Nat.le_refl _), rfl, ?_, ?_, by simp, ?_, ?_⟩
    · unfold Block.stop at hlb ⊢
      simp only
      omega
    · intro x hx
      simp only [List.mem_append, List.mem_cons] at hx
      rcases hx with hx | rfl | rfl | hx
      · exact Or.inr (Or.inr (Or.inl hx))
      · exact Or.inr (Or.inl hltag)
      · exact Or.inl rfl
      · exact Or.inr (Or.inr (Or.inr hx))
    · intro x hx
      simp [hx]
    · exact HeadersOnly.store32 (x := l.addr) (by simp) (by omega) (by unfold hdrSize; omega)
  · rw [if_neg hmerge]
    obtain ⟨pre, post, rfl, -⟩ := Tiles.split h hb
    refine ⟨pre, b, post, h, rfl, rfl, ?_, by simp, ?_, HeadersOnly.refl _ _⟩
    · intro x hx
      simp only [List.mem_append, List.mem_cons] at hx
      rcases hx with hx | rfl | hx
      · exact Or.inr (Or.inr (Or.inl hx))
      · exact Or.inl rfl
      · exact Or.inr (Or.inr (Or.inr hx))
    · intro x hx
      simp [hx]

/-- `kfree` of a block whose data starts below `heap_end`. -/
theorem kfree_eq (h : Row m L.heapStart bs L.top) (hb : b ∈ bs)
    (hlt : b.addr + hdrSize < L.heapEnd) :
    kfree L m (b.addr + hdrSize) = setFlags (mergeNext L (mergeLast L m b.addr).2
      (mergeLast L m b.addr).1 (b.stop hdrSize)) (mergeLast L m b.addr).1 0 := by
  have hroom := L.room
  have hlo := (Tiles.mem_le h hb).1
  have hcur : sub32 (b.addr + hdrSize) hdrSize = b.addr := by
    unfold Layout.heapEnd at hlt
    rw [sub32_of_le (by omega) (by omega)]
    omega
  unfold kfree
  rw [if_pos ⟨by omega, hlt⟩]
  simp only [hcur, h.mNextBlock_eq (Nat.le_refl _) hb]

/-- **`kfree`'s edit.**  Every other block in use stays, and only headers are written. -/
theorem kfree_row (h : Row m L.heapStart bs L.top) (hb : b ∈ bs)
    (hok : mLastBlock m b.addr < L.heapStart ∨ mIsFree m (mLastBlock m b.addr) = false ∨
      followsLast L m b.addr = true) :
    ∃ bs', Row (kfree L m (b.addr + hdrSize)) L.heapStart bs' L.top ∧
      (∀ c ∈ bs, c.tag = false → c ≠ b → c ∈ bs') ∧
      HeadersOnly (bs.map Block.addr) m (kfree L m (b.addr + hdrSize)) := by
  by_cases hin : b.addr + hdrSize < L.heapEnd
  · have heq := kfree_eq h hb hin
    obtain ⟨pre, c, post, hrow1, hcaddr, hcstop, hkeep, hmem, hpost, honly1⟩ :=
      mergeLast_row h hb hok
    obtain ⟨c', mid, post', hsplit, hc', hmid, hrow2, honly2⟩ := mergeNext_row hrow1
    rw [hcstop] at hrow2 honly2
    rw [heq, hcaddr]
    have hrow3 := hrow2.free
    rw [hc'] at hrow3
    refine ⟨pre ++ ⟨c.addr, c'.size, true⟩ :: post', hrow3, ?_, ?_⟩
    · intro x hx hused hne
      rcases hkeep x hx with rfl | hfree | hpre | hin'
      · exact absurd rfl hne
      · rw [hused] at hfree
        cases hfree
      · simp [hpre]
      · rw [hsplit, List.mem_append] at hin'
        rcases hin' with hm | hp
        · have hfree := hmid x hm
          rw [hused] at hfree
          cases hfree
        · simp [hp]
    · refine (honly1.trans (honly2.mono ?_)).trans
        (HeadersOnly.store32 hmem (by omega) (by unfold hdrSize; omega))
      intro x hx
      rcases List.mem_cons.mp hx with rfl | hx
      · exact hmem
      · obtain ⟨y, hy, rfl⟩ := List.mem_map.mp hx
        exact List.mem_map_of_mem (hpost hy)
  · have heq : kfree L m (b.addr + hdrSize) = m := if_neg fun h => hin h.2
    rw [heq]
    exact ⟨bs, h, fun c hc _ _ => hc, HeadersOnly.refl _ _⟩

end AndixOs.Heap
