/-
# Aligned allocation

`kmalloc_align` gives the padding in front of an aligned address to the block before, by moving the
header of the chosen block forward.  The first block has no block before it: its `prev_size` leads
in front of the heap, and the padding is added to a word there.  The block behind the chosen one
is told nothing, although the chosen block has become smaller.

So what is left in order is an allocation from the last block of the heap, unless that is the first
one too (`kmallocAlign_right_iff`).
-/
import AndixOs.Heap.Free
import Mathlib.Order.Bounds.Basic

namespace AndixOs.Heap

open AndixOs

variable {L : Layout} {m : Mem} {b l : Block Bool} {bs pre post : List (Block Bool)}
  {sz pad a : Nat}

/-! ## 1. Alignment -/

theorem checkAlign_pow (align : Nat) : ∃ i, i ≤ 31 ∧ checkAlign align = 2 ^ i := by
  unfold checkAlign
  cases hfind : ((List.range 31).map fun i => 2 ^ (i + 1)).find? fun a => align ≤ a with
  | none => exact ⟨0, by decide, rfl⟩
  | some a =>
    obtain ⟨i, hi, rfl⟩ := List.mem_map.mp (List.mem_of_find?_eq_some hfind)
    exact ⟨i + 1, by have := List.mem_range.mp hi; omega, rfl⟩

/-- `check_align` finds the least power of two that is at least `align` and 2. -/
theorem checkAlign_least {align : Nat} (h : align ≤ 2 ^ 30) :
    IsLeast {a | (∃ i, a = 2 ^ i) ∧ max align 2 ≤ a} (checkAlign align) := by
  unfold checkAlign
  cases hfind : ((List.range 31).map fun i => 2 ^ (i + 1)).find? fun a => align ≤ a with
  | none =>
    have hnone := List.find?_eq_none.mp hfind (2 ^ (29 + 1))
      (List.mem_map.mpr ⟨29, by decide, rfl⟩)
    exact absurd h (by simpa using hnone)
  | some a =>
    obtain ⟨hle, i, hi, rfl, hfirst⟩ := List.find?_eq_some_iff_getElem.mp hfind
    simp only [List.getElem_map, List.getElem_range, decide_eq_true_eq, Option.getD_some,
      Bool.not_eq_true', decide_eq_false_iff_not] at hle hfirst ⊢
    have htwo : 2 ^ 1 ≤ 2 ^ (i + 1) := Nat.pow_le_pow_right (by decide) (by omega)
    refine ⟨⟨⟨i + 1, rfl⟩, Nat.max_le.mpr ⟨hle, htwo⟩⟩, ?_⟩
    rintro c ⟨⟨j, rfl⟩, hmax⟩
    obtain ⟨halign, hj⟩ := Nat.max_le.mp hmax
    refine Nat.pow_le_pow_right (by decide) ?_
    by_contra hlt
    obtain ⟨j, rfl⟩ : ∃ k, j = k + 1 := by
      cases j with
      | zero => exact absurd hj (by decide)
      | succ j => exact ⟨j, rfl⟩
    exact hfirst j (by omega) halign

/-- The padding leads to the next aligned address behind. -/
theorem padding_spec (align : Nat) {x : Nat} (hx : x + hdrSize < 4294967296) :
    0 < padding x (checkAlign align) ∧ padding x (checkAlign align) < 4294967296 ∧
      (x + hdrSize + padding x (checkAlign align)) % checkAlign align = 0 := by
  obtain ⟨i, hi, hpow⟩ := checkAlign_pow align
  have hmax : 2 ^ i ≤ 2 ^ 31 := Nat.pow_le_pow_right (by decide) hi
  have hpos : 0 < 2 ^ i := Nat.pow_pos (by decide)
  have hmod := Nat.mod_lt (x + hdrSize) hpos
  have hpad : padding x (2 ^ i) = 2 ^ i - (x + hdrSize) % 2 ^ i := by
    unfold padding
    rw [w32_of_lt hx, Nat.and_two_pow_sub_one_eq_mod, sub32_of_le (by omega) (by omega)]
  rw [hpow, hpad]
  refine ⟨by omega, by omega, ?_⟩
  have hsplit := Nat.div_add_mod (x + hdrSize) (2 ^ i)
  have hsum : x + hdrSize + (2 ^ i - (x + hdrSize) % 2 ^ i) =
      2 ^ i * ((x + hdrSize) / 2 ^ i + 1) := by
    rw [Nat.mul_add, Nat.mul_one]
    omega
  rw [hsum, Nat.mul_mod_right]

/-! ## 2. Moving the header -/

/-- The words `moveBlock` writes: the size of the block before, and the new header. -/
theorem moveBlock_header (h : Ordered L m (pre ++ l :: b :: post)) (hpad : pad < b.size) :
    prevSize (moveBlock m b.addr pad).2 (b.addr + pad) = l.size + pad ∧
      ∀ y, (y < l.addr + 8 ∨ l.addr + 12 ≤ y) → (y < b.addr + pad ∨ b.addr + pad + 12 ≤ y) →
        (moveBlock m b.addr pad).2 y = m y := by
  have hroom := L.room
  have hsizeb : size m b.addr = b.size := congrArg Prod.fst (Tiles.mem_rd h.row (by simp))
  have hsizel : size m l.addr = l.size := congrArg Prod.fst (Tiles.mem_rd h.row (by simp))
  obtain ⟨x, -, rfl, -, haddr, -, hpost⟩ := tiles_append.mp h.row
  have hle := Tiles.le hpost
  unfold Block.stop Layout.top hdrSize at *
  have hgrow : w32 (l.size + pad) = l.size + pad := w32_of_lt (by omega)
  rw [moveBlock_eq (mLastBlock_eq h) (by omega) (by omega) (by omega), hsizel, hsizeb, hgrow]
  constructor
  · unfold prevSize setSize
    rw [load32_store32_of_ne (by omega)]
    exact (load32_store32 _ _ _).trans hgrow
  · intro y hl hb
    simp only [setSize, setPrevSize]
    rw [store32_of_ne (by omega), store32_of_ne (by omega), store32_of_ne (by omega)]

/-- **A block behind another one**: what the walk finds after its header has been moved and it has
been given out. -/
theorem moveCut_rowFrom_iff (h : Ordered L m (pre ++ l :: b :: post)) (hpad : pad < b.size)
    (hle : sz ≤ b.size - pad) :
    RowFrom L (prepareBestBlock L (moveBlock m b.addr pad).2 (b.addr + pad) sz) L.heapStart 0 ↔
      CutFits L m (b.addr + pad) (b.size - pad) sz := by
  have hsizeb : size m b.addr = b.size := congrArg Prod.fst (Tiles.mem_rd h.row (by simp))
  have hhi := (Tiles.mem_le h.row (b := b) (by simp)).2
  obtain ⟨htpre, htl, -⟩ := tags_append.mp h.tags
  obtain ⟨x, hpre, rfl, hrdl, hlb, hrdb, hpost⟩ := tiles_append.mp h.row
  obtain ⟨-, hrdl', hsize', -⟩ := moveBlock_spec hlb.symm hrdl hsizeb hhi (mLastBlock_eq h) hpad
  obtain ⟨hprev', hsame⟩ := moveBlock_header h hpad
  generalize (moveBlock m b.addr pad).2 = m1 at *
  have hlstop : l.stop hdrSize = l.addr + 12 + l.size := rfl
  have hbstop : b.stop hdrSize = b.addr + 12 + b.size := rfl
  have hend : b.addr + pad + hdrSize + size m1 (b.addr + pad) ≤ L.top := by
    unfold hdrSize at *
    omega
  have hcut : ∀ y, y < b.addr + pad + 4 →
      prepareBestBlock L m1 (b.addr + pad) sz y = m1 y := fun y hy =>
    prepareBestBlock_of_ne (hsize'.symm ▸ hle) hend (Or.inl hy)
  -- the row up to the moved header
  have hrow : Row (prepareBestBlock L m1 (b.addr + pad) sz) L.heapStart
      (pre ++ [⟨l.addr, l.size + pad, l.tag⟩]) (b.addr + pad) := by
    refine tiles_append.mpr ⟨l.addr, Row.frame hpre fun y _ hy => ?_, Tiles.cons rfl ?_ ?_⟩
    · exact (hcut y (by omega)).trans (hsame y (by omega) (by omega))
    · exact (rdBlk_congr fun y _ _ => hcut y (by omega)).trans hrdl'
    · have hstop : Block.stop hdrSize ⟨l.addr, l.size + pad, l.tag⟩ = b.addr + pad := by
        unfold Block.stop hdrSize
        simp only
        omega
      exact hstop
  have htags : Tags (prevSize (prepareBestBlock L m1 (b.addr + pad) sz)) 0
      (pre ++ [⟨l.addr, l.size + pad, l.tag⟩]) := by
    have hl : prevSize (prepareBestBlock L m1 (b.addr + pad) sz) l.addr = prevSize m l.addr :=
      load32_congr fun y _ hy => (hcut y (by omega)).trans (hsame y (by omega) (by omega))
    refine tags_append.mpr ⟨tags_frame hpre htpre fun y _ hy => ?_, hl.trans htl, trivial⟩
    exact (hcut y (by omega)).trans (hsame y (by omega) (by omega))
  rw [rowFrom_behind hrow htags (by unfold hdrSize at hend; omega), lastSize_concat,
    prepareBestBlock_rowFrom_iff (hsize'.symm ▸ hle) hend, hprev', hsize']
  refine (and_iff_right rfl).trans (cutFits_congr fun y hy _ => hsame y ?_ ?_)
  · unfold hdrSize at hy
    omega
  · unfold hdrSize at hy
    omega

/-- **The first block** has no block before it: the padding is added to a word in front of the
heap. -/
theorem moveCut_first (h : Ordered L m (b :: post)) (hpos : 0 < pad) (hpad : pad < b.size)
    (hle : sz ≤ b.size - pad) :
    (moveBlock m b.addr pad).1 = b.addr + pad ∧
      load32 (prepareBestBlock L (moveBlock m b.addr pad).2 (b.addr + pad) sz) (L.heapStart - 4) ≠
        load32 m (L.heapStart - 4) := by
  have hroom := L.room
  have hsize : size m b.addr = b.size := congrArg Prod.fst (Tiles.mem_rd h.row (by simp))
  have hhi := (Tiles.mem_le h.row (b := b) (by simp)).2
  have haddr : b.addr = L.heapStart := h.row.1
  have hlast := mLastBlock_first h
  have hword : L.heapStart - 4 = mLastBlock m b.addr + 8 := by omega
  unfold Block.stop hdrSize at hhi
  unfold Layout.top at hhi
  have heq : moveBlock m b.addr pad = _ := moveBlock_eq rfl (by omega) (by omega) (by omega)
  have hsize' : size (moveBlock m b.addr pad).2 (b.addr + pad) = b.size - pad := by
    rw [heq, hsize]
    exact (size_setSize _ _ _).trans (w32_of_lt (by omega))
  have hmoved : load32 (moveBlock m b.addr pad).2 (mLastBlock m b.addr + 8) =
      w32 (size m (mLastBlock m b.addr) + pad) := by
    rw [heq]
    simp only [setSize, setPrevSize]
    rw [load32_store32_of_ne (by omega), load32_store32_of_ne (by omega), load32_store32,
      w32_of_lt (w32_lt _)]
  have hcut : load32 (prepareBestBlock L (moveBlock m b.addr pad).2 (b.addr + pad) sz)
      (mLastBlock m b.addr + 8) = w32 (size m (mLastBlock m b.addr) + pad) := by
    refine Eq.trans (load32_congr fun y _ hy => ?_) hmoved
    refine prepareBestBlock_of_ne (by omega) ?_ (Or.inl (by omega))
    rw [hsize']
    unfold Layout.top hdrSize
    omega
  refine ⟨by rw [heq], ?_⟩
  rw [hword, hcut]
  have hlt := size_lt m (mLastBlock m b.addr)
  unfold size w32 at *
  omega

/-! ## 3. `kmalloc_align` -/

/-- What an aligned allocation at `q` should be. -/
structure Aligns (L : Layout) (m m' : Mem) (bs : List (Block Bool)) (sz align : UInt32) (q : Nat) :
    Prop where
  multiple : q % checkAlign align.toNat = 0
  least : align.toNat ≤ 2 ^ 30 →
    IsLeast {a | (∃ i, a = 2 ^ i) ∧ max align.toNat 2 ≤ a} (checkAlign align.toNat)
  inside : ∃ b ∈ bs, b.tag = true ∧ b.addr + hdrSize ≤ q ∧ q + sz.toNat ≤ b.stop hdrSize
  outside : ∀ y, y < L.heapStart ∨ L.top ≤ y → m' y = m y
  ordered : ∃ bs', Ordered L m' bs'

/-- `NULL` and nothing done, or an aligned allocation. -/
def AlignRight (L : Layout) (m : Mem) (bs : List (Block Bool)) (sz align : UInt32) (q : Nat)
    (m' : Mem) : Prop :=
  (q = 0 ∧ m' = m) ∨ Aligns L m m' bs sz align q

/-- The first of the smallest free blocks that fit, if there is one, is not the first block of the
heap.  It is the last one, and the stray store of the cut spares the new header, or the walk
finds its way by accident. -/
def AlignOk (L : Layout) (m : Mem) (bs : List (Block Bool)) (sz a : Nat) : Prop :=
  ∀ b, FirstMin (fitsAligned sz a) Block.size bs b → b.addr ≠ L.heapStart ∧
    ((b.stop hdrSize = L.top ∧ sparesLast (b.size - padding b.addr a) sz = true) ∨
      StrayRow L m (b.addr + padding b.addr a) (b.size - padding b.addr a) sz)

/-- **A block behind another one**: the allocation is aligned, in the block, and nothing outside the
heap is written. -/
theorem aligns_iff {sz align : UInt32} {pad : Nat} (h : Ordered L m (pre ++ l :: b :: post))
    (hfree : b.tag = true) (hpad : pad = padding b.addr (checkAlign align.toNat))
    (hlt : pad < b.size) (hle : sz.toNat ≤ b.size - pad) :
    Aligns L m (prepareBestBlock L (moveBlock m b.addr pad).2 (b.addr + pad) sz.toNat)
        (pre ++ l :: b :: post) sz align (b.addr + pad + hdrSize) ↔
      CutFits L m (b.addr + pad) (b.size - pad) sz.toNat := by
  have hsizeb : size m b.addr = b.size := congrArg Prod.fst (Tiles.mem_rd h.row (by simp))
  obtain ⟨hlo, hhi⟩ := Tiles.mem_le h.row (b := b) (by simp)
  obtain ⟨hllo, -⟩ := Tiles.mem_le h.row (b := l) (by simp)
  obtain ⟨hpos, hroom⟩ := h.row.addr_pos (b := b) (by simp)
  obtain ⟨x, -, rfl, hrdl, hlb, -⟩ := tiles_append.mp h.row
  obtain ⟨-, -, hsize', -⟩ := moveBlock_spec hlb.symm hrdl hsizeb hhi (mLastBlock_eq h) hlt
  have hsame := (moveBlock_header h hlt).2
  have hiff := moveCut_rowFrom_iff h hlt hle
  generalize (moveBlock m b.addr pad).2 = m1 at *
  have hlstop : l.stop hdrSize = l.addr + 12 + l.size := rfl
  have hbstop : b.stop hdrSize = b.addr + 12 + b.size := rfl
  constructor
  · exact fun hright => hiff.mp (exists_ordered_iff.mp hright.ordered)
  · intro hfits
    have hmult := (padding_spec align.toNat hroom).2.2
    refine ⟨?_, checkAlign_least, ⟨b, by simp, hfree, ?_, ?_⟩, fun y hy => ?_,
      exists_ordered_iff.mpr (hiff.mpr hfits)⟩
    · rw [Nat.add_right_comm, hpad]
      exact hmult
    · omega
    · rw [hbstop]
      unfold hdrSize
      omega
    · have hend : b.addr + pad + hdrSize + size m1 (b.addr + pad) ≤ L.top := by
        unfold hdrSize
        omega
      refine (prepareBestBlock_of_ne (hsize'.symm ▸ hle) hend ?_).trans (hsame y ?_ ?_)
      · omega
      · omega
      · omega

/-- The block behind a block that has become smaller has the old size in its `prev_size`. -/
theorem stale_behind (h : Ordered L m (pre ++ b :: post)) (hpos : 0 < pad) (hlt : pad < b.size)
    (hnext : b.stop hdrSize < L.top) : b.size - pad < prevSize m (b.stop hdrSize) := by
  obtain ⟨x, -, rfl, -, hpost⟩ := tiles_append.mp h.row
  cases post with
  | nil =>
    have htop : b.stop hdrSize = L.top := hpost
    omega
  | cons n post =>
    have hn : n.addr = b.stop hdrSize := hpost.1
    have htag : prevSize m n.addr = b.size := (tags_middle.mp h.tags).2.1
    rw [← hn, htag]
    omega

/-- **When `kmalloc_align` is right** on a heap in order. -/
theorem kmallocAlign_right_iff (h : Ordered L m bs) {sz align : UInt32} (hz : sz ≠ 0) :
    (∃ q m', kmallocAlign L m sz align = some (q, m') ∧ AlignRight L m bs sz align q m') ↔
      AlignOk L m bs sz.toNat (checkAlign align.toNat) := by
  obtain ⟨hnull, hnone⟩ | ⟨b, pad, htakes⟩ := kmallocAlign_cases h.row sz align
  · refine iff_of_true ⟨0, m, hnull, Or.inl ⟨rfl, rfl⟩⟩ fun b hmin => ?_
    have hfits := hmin.fits
    rw [hnone.resolve_left hz b hmin.mem] at hfits
    cases hfits
  · have hok : AlignOk L m bs sz.toNat (checkAlign align.toNat) ↔ b.addr ≠ L.heapStart ∧
        ((b.stop hdrSize = L.top ∧ sparesLast (b.size - pad) sz.toNat = true) ∨
          StrayRow L m (b.addr + pad) (b.size - pad) sz.toNat) := by
      rw [← htakes.pad_eq]
      exact ⟨fun hall => hall b htakes.first, fun hb c hc => hc.unique htakes.first ▸ hb⟩
    obtain ⟨haddr, hroom⟩ := h.row.addr_pos htakes.mem
    have hpos := (padding_spec align.toNat hroom).1
    rw [htakes.pad_eq] at hpos
    obtain ⟨hfree, hlt, hle⟩ := htakes.fits
    rw [hok, htakes.call]
    have hhi := (Tiles.mem_le h.row htakes.mem).2
    have htop := L.room
    have hdata : b.addr + pad + hdrSize < 4294967296 := by
      unfold Block.stop Layout.top at hhi
      omega
    obtain ⟨pre, post, rfl⟩ := List.append_of_mem htakes.mem
    have hstale := stale_behind h hpos hlt
    rcases List.eq_nil_or_concat' pre with rfl | ⟨pre, l, rfl⟩
    · -- the first block: a word in front of the heap changes
      have haddr' : b.addr = L.heapStart := h.row.1
      have hlast := mLastBlock_first h
      obtain ⟨hmove, hword⟩ := moveCut_first h hpos hlt hle
      refine iff_of_false ?_ fun hok => hok.1 haddr'
      rintro ⟨q, m', heq, hright⟩
      rw [hmove, w32_of_lt hdata] at heq
      obtain ⟨rfl, rfl⟩ := Prod.mk.inj (Option.some.inj heq)
      rcases hright with ⟨hzero, -⟩ | hright
      · omega
      · exact hword (load32_congr fun y _ hy => hright.outside y (Or.inl (by omega)))
    · rw [List.append_assoc, List.singleton_append] at h ⊢
      obtain ⟨x, -, rfl, hrdl, hlb, -⟩ := tiles_append.mp h.row
      have hlo := (Tiles.mem_le h.row (b := l) (by simp)).1
      have hsizeb : size m b.addr = b.size := congrArg Prod.fst (Tiles.mem_rd h.row (by simp))
      have hmove := (moveBlock_spec hlb.symm hrdl hsizeb hhi (mLastBlock_eq h) hlt).1
      have haligns := aligns_iff h hfree htakes.pad_eq.symm hlt hle
      have hend : b.addr + pad + hdrSize + (b.size - pad) = b.stop hdrSize := by
        unfold Block.stop
        omega
      have hfits : CutFits L m (b.addr + pad) (b.size - pad) sz.toNat ↔ _ :=
        cutFits_iff (by rw [hend]; exact hhi) (by rw [hend]; exact hstale)
      rw [hend] at hfits
      have hne : b.addr ≠ L.heapStart := by
        rw [hlb]
        unfold Block.stop hdrSize
        omega
      rw [hmove, w32_of_lt hdata, and_iff_right hne]
      constructor
      · rintro ⟨q, m', heq, hright⟩
        obtain ⟨rfl, rfl⟩ := Prod.mk.inj (Option.some.inj heq)
        rcases hright with ⟨hzero, -⟩ | hright
        · omega
        · exact hfits.mp (haligns.mp hright)
      · exact fun hok => ⟨_, _, rfl, Or.inr (haligns.mpr (hfits.mpr hok))⟩

/-- An allocation, and the rest of the heap. -/
def oneRow : List (Block Bool) := [⟨0xC0100000, 100, false⟩, ⟨0xC0100070, 104857476, true⟩]

/-- The headers are those of the row, and an aligned allocation finds its place. -/
def hasOneRow (t : HeapState) : Bool :=
  oneRow.all (fun b => rdBlk t.mem b.addr == (b.size, b.tag)) &&
    oneRow.map (fun b => prevSize t.mem b.addr) == [0, 100] &&
    (kmallocAlign exampleLayout t.mem 0x400 0x1000).map Prod.fst == some 0xC0101000

/-- An aligned allocation from the last block, behind another one. -/
theorem kmallocAlign_right_second : ∃ t,
    Run (stepOf (heapStep exampleLayout)) (heapInit exampleLayout fun _ => 0) [.kmalloc 100] t ∧
      (kmallocAlign exampleLayout t.mem 0x400 0x1000).map Prod.fst = some 0xC0101000 ∧
      ((∃ q m', kmallocAlign exampleLayout t.mem 0x400 0x1000 = some (q, m') ∧
        AlignRight exampleLayout t.mem oneRow 0x400 0x1000 q m') ↔
          AlignOk exampleLayout t.mem oneRow (0x400 : UInt32).toNat
            (checkAlign (0x1000 : UInt32).toNat)) := by
  have hall : (runOk [.kmalloc 100]).any hasOneRow = true := by decide +kernel
  obtain ⟨t, hrun, ht⟩ := exists_run_of_execOk hall
  unfold hasOneRow oneRow at ht
  simp only [List.all_cons, List.all_nil, Bool.and_true, List.map_cons, List.map_nil,
    Bool.and_eq_true, beq_iff_eq, List.cons.injEq, and_true] at ht
  obtain ⟨⟨⟨h1, h2⟩, p1, p2⟩, hfst⟩ := ht
  have hord : Ordered exampleLayout t.mem oneRow := ⟨⟨rfl, h1, rfl, h2, rfl⟩, p1, p2, trivial⟩
  exact ⟨t, hrun.of_guarded, hfst, kmallocAlign_right_iff hord (by decide)⟩

/-- The heap that `init_heap` leaves on zeroed memory. -/
def freshHeap : Mem := initHeap exampleLayout fun _ => 0

/-- It is one free block. -/
def freshRow : List (Block Bool) := [⟨exampleLayout.heapStart, kernelHeapSize - hdrSize, true⟩]

/-- On the fresh heap the chosen block is the first one, and the padding is added to the word in front
of the heap. -/
theorem kmallocAlign_spills : Ordered exampleLayout freshHeap freshRow ∧
    (kmallocAlign exampleLayout freshHeap 0x400 0x1000).map Prod.fst = some 0xC0101000 ∧
    load32 freshHeap 0xC00FFFFC = 0 ∧
    (kmallocAlign exampleLayout freshHeap 0x400 0x1000).map
      (fun r => load32 r.2 0xC00FFFFC) = some 4084 ∧
    ¬ ∃ q m', kmallocAlign exampleLayout freshHeap 0x400 0x1000 = some (q, m') ∧
      AlignRight exampleLayout freshHeap freshRow 0x400 0x1000 q m' := by
  have hfst : (kmallocAlign exampleLayout freshHeap 0x400 0x1000).map Prod.fst =
      some 0xC0101000 := by decide +kernel
  have hword : load32 freshHeap 0xC00FFFFC = 0 := by decide +kernel
  have hword' : (kmallocAlign exampleLayout freshHeap 0x400 0x1000).map
      (fun r => load32 r.2 0xC00FFFFC) = some 4084 := by decide +kernel
  refine ⟨initHeap_ordered exampleLayout fun _ => 0, hfst, hword, hword', ?_⟩
  rintro ⟨q, m', hcall, hright⟩
  rw [hcall] at hfst hword'
  rcases hright with ⟨rfl, -⟩ | hright
  · have hnull : 0 = 0xC0101000 := Option.some.inj hfst
    exact absurd hnull (by decide)
  · have hlow : ∀ y, y < 0xC00FFFFC + 4 → y < exampleLayout.heapStart := fun y hy => hy
    have hsame : load32 m' 0xC00FFFFC = load32 freshHeap 0xC00FFFFC :=
      load32_congr fun y _ hy => hright.outside y (Or.inl (hlow y hy))
    rw [hword] at hsame
    exact absurd (hsame.symm.trans (Option.some.inj hword')) (by decide)

end AndixOs.Heap

