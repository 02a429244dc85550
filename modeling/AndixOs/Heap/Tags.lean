/-
# Boundary tags over whole runs

From the heap of `init_heap` on, the headers tile the heap and every `prev_size` is the size of the
block before, as long as no call cuts a block that has another one behind it, or gives padding to
a block that is not there (`tagsOk`, `heap_tags`).  `kfree` and the clients' writes always keep the
heap in order.

`stale_prev_size` is the shortest run to a wrong tag: a block between two others is freed and cut.
-/
import AndixOs.Heap.Align

namespace AndixOs.Heap

open AndixOs

variable {L : Layout} {m : Mem} {s t : HeapState} {b l : Block Bool} {sz : Nat}
  {bs pre post : List (Block Bool)}

/-! ## 1. The steps that keep the tags -/

/-- The block at `b` is the last one, and giving out its last `n` bytes spares the new header. -/
def lastSpares (L : Layout) (m : Mem) (b n sz : Nat) : Bool :=
  b + hdrSize + size m b == L.top && sparesLast n sz

/-- The steps that keep the boundary tags right.  `kmalloc` finds no block, or does not cut the block,
or the block is the last one and its new header is spared; `kmalloc_align` finds no block, or the
block is the last one, but not the first, and its new header is spared. -/
def tagsOk (L : Layout) (s : HeapState) : HeapOp → Bool
  | .kmalloc sz =>
    sz == 0 || (kmallocBest L s.mem sz.toNat).all fun b => b == 0 ||
      size s.mem b ≤ sz.toNat + hdrSize || lastSpares L s.mem b (size s.mem b) sz.toNat
  | .kmallocAlign sz align =>
    let align := checkAlign align.toNat
    sz == 0 || (kmallocAlignBest L s.mem sz.toNat align).all fun b => b == 0 ||
      (b != L.heapStart && lastSpares L s.mem b (size s.mem b - padding b align) sz.toNat)
  | .kfree _ => true
  | .write _ _ _ => true

/-- A new header that is spared is spared. -/
theorem splitSpares_of_sparesLast {n : Nat} (h : sparesLast n sz = true) :
    splitSpares n sz = true := by
  unfold sparesLast at h
  unfold splitSpares
  by_cases hwhole : n ≤ sz + hdrSize
  · simp [hwhole]
  · generalize n - sz - hdrSize = k at *
    simp only [hwhole, decide_false, Bool.false_or, Bool.or_eq_true, beq_iff_eq, decide_eq_true_eq,
      Bool.and_eq_true] at h
    simp
    omega

/-! ## 2. Each call -/

/-- **The cut** of a block of a heap in order. -/
theorem cut_rowFrom_iff (h : Ordered L m (pre ++ b :: post)) (hle : sz ≤ b.size) :
    RowFrom L (prepareBestBlock L m b.addr sz) L.heapStart 0 ↔ CutFits L m b.addr b.size sz := by
  have hsize : size m b.addr = b.size := congrArg Prod.fst (Tiles.mem_rd h.row (by simp))
  have hhi := (Tiles.mem_le h.row (b := b) (by simp)).2
  obtain ⟨htpre, hprev, -⟩ := tags_append.mp h.tags
  obtain ⟨x, hpre, rfl, -, hpost⟩ := tiles_append.mp h.row
  have hend : b.addr + hdrSize + size m b.addr ≤ L.top := by
    rw [hsize]
    exact hhi
  have hsame : ∀ y, L.heapStart ≤ y → y < b.addr → prepareBestBlock L m b.addr sz y = m y :=
    fun y _ hy => prepareBestBlock_of_ne (hsize.symm ▸ hle) hend (Or.inl (by omega))
  have hrow : Row (prepareBestBlock L m b.addr sz) L.heapStart pre b.addr :=
    Row.frame hpre fun y hlo => hsame y (by omega)
  rw [rowFrom_behind hrow (tags_frame hpre htpre hsame) (by unfold hdrSize at hend; omega),
    prepareBestBlock_rowFrom_iff (hsize.symm ▸ hle) hend, hsize]
  exact and_iff_right hprev

/-- A block that is not cut, or is the last one. -/
theorem cutFits_of_ok (h : Ordered L m (pre ++ b :: post))
    (hok : b.size ≤ sz + hdrSize ∨ b.stop hdrSize = L.top ∧ sparesLast b.size sz = true) :
    CutFits L m b.addr b.size sz := by
  rcases hok with hwhole | ⟨hend, hspares⟩
  · obtain ⟨x, -, rfl, -, hpost⟩ := tiles_append.mp h.row
    unfold CutFits
    rw [if_pos hwhole]
    exact ⟨post, hpost, (tags_middle.mp h.tags).2⟩
  · exact (cutFits_last hend).mpr hspares

/-- In order, as a fact about the memory alone. -/
def InOrder (L : Layout) (s : HeapState) : Prop := ∃ bs, HeapInv L s bs ∧ Ordered L s.mem bs

/-- A row that carries the invariant and a memory in order. -/
theorem HeapInv.inOrder (h : HeapInv L s bs) (hrow : RowFrom L s.mem L.heapStart 0) :
    InOrder L s := by
  obtain ⟨bs', hord⟩ := exists_ordered_iff.mpr hrow
  obtain rfl := Tiles.unique (by unfold hdrSize; omega) h.row hord.row
  exact ⟨bs, h, hord⟩

theorem kmalloc_inOrder {sz : UInt32} (h : HeapInv L s bs) (hord : Ordered L s.mem bs)
    (hok : tagsOk L s (.kmalloc sz) = true) (hstep : heapStep L s (.kmalloc sz) = some t) :
    InOrder L t := by
  obtain ⟨hnull, -⟩ | ⟨b, htakes⟩ := kmalloc_cases h.row sz
  · rw [heapStep, hnull] at hstep
    obtain rfl := Option.some.inj hstep
    exact ⟨bs, h, hord⟩
  have hz := htakes.pos
  have hpos := (h.row.addr_pos htakes.mem).1
  have hsize : size s.mem b.addr = b.size := congrArg Prod.fst (Tiles.mem_rd h.row htakes.mem)
  have hcond : b.size ≤ sz.toNat + hdrSize ∨
      b.stop hdrSize = L.top ∧ sparesLast b.size sz.toNat = true := by
    rw [tagsOk, htakes.best] at hok
    simpa [hz, Nat.ne_of_gt hpos, lastSpares, hsize, Block.stop] using hok
  -- the step is one that keeps the live allocations apart
  have hspares : splitSpares b.size sz.toNat = true := by
    rcases hcond with hwhole | ⟨-, hspares⟩
    · simp [splitSpares, hwhole]
    · exact splitSpares_of_sparesLast hspares
  have hheap : heapOk L s (.kmalloc sz) = true := by
    rw [heapOk, htakes.best]
    simp [hsize, hspares]
  obtain ⟨u, bs', hu, hinv, -⟩ := kmalloc_step h sz hheap
  obtain rfl := Option.some.inj (hu.symm.trans hstep)
  refine hinv.inOrder ?_
  rw [heapStep, htakes.call] at hu
  obtain rfl := Option.some.inj hu
  obtain ⟨pre, post, rfl⟩ := List.append_of_mem htakes.mem
  exact (cut_rowFrom_iff hord htakes.fits.2).mpr (cutFits_of_ok hord hcond)

/-- Every block but the first follows the block that its `prev_size` leads to. -/
theorem followsLast_ordered (h : Ordered L m (pre ++ l :: b :: post)) :
    followsLast L m b.addr = true := by
  have hnext := h.row.mNextBlock_eq (Nat.le_refl _) (b := l) (by simp)
  obtain ⟨x, -, rfl, -, hlb, -⟩ := tiles_append.mp h.row
  rw [followsLast, Bool.and_eq_true, List.contains_iff_mem, mem_heapWalk h.row, beq_iff_eq,
    mLastBlock_eq h, hnext]
  exact ⟨⟨l, by simp, rfl⟩, hlb.symm⟩

theorem kmallocAlign_inOrder {sz align : UInt32} (h : HeapInv L s bs) (hord : Ordered L s.mem bs)
    (hok : tagsOk L s (.kmallocAlign sz align) = true)
    (hstep : heapStep L s (.kmallocAlign sz align) = some t) : InOrder L t := by
  obtain ⟨hnull, -⟩ | ⟨b, pad, htakes⟩ := kmallocAlign_cases h.row sz align
  · rw [heapStep, hnull] at hstep
    obtain rfl := Option.some.inj hstep
    exact ⟨bs, h, hord⟩
  have hz := htakes.pos
  have hpos := (h.row.addr_pos htakes.mem).1
  have hsize : size s.mem b.addr = b.size := congrArg Prod.fst (Tiles.mem_rd h.row htakes.mem)
  have hhi := (Tiles.mem_le h.row htakes.mem).2
  obtain ⟨hfree, hlt, hle⟩ := htakes.fits
  have hcond : b.addr ≠ L.heapStart ∧ b.stop hdrSize = L.top ∧
      sparesLast (b.size - pad) sz.toNat = true := by
    rw [tagsOk, htakes.best] at hok
    simpa [hz, Nat.ne_of_gt hpos, lastSpares, hsize, htakes.pad_eq, Block.stop] using hok
  obtain ⟨hne, hend, hspares⟩ := hcond
  have hbest := htakes.best
  have hcall := htakes.call
  obtain ⟨pre, post, rfl⟩ := List.append_of_mem htakes.mem
  rcases List.eq_nil_or_concat' pre with rfl | ⟨pre, l, rfl⟩
  · exact absurd h.row.1 hne
  rw [List.append_assoc, List.singleton_append] at h hord
  have hheap : heapOk L s (.kmallocAlign sz align) = true := by
    rw [heapOk, hbest]
    simp [hsize, htakes.pad_eq, followsLast_ordered hord, splitSpares_of_sparesLast hspares]
  obtain ⟨u, bs', hu, hinv, -⟩ := kmallocAlign_step h sz align hheap
  obtain rfl := Option.some.inj (hu.symm.trans hstep)
  refine hinv.inOrder ?_
  obtain ⟨x, -, rfl, hrdl, hlb, -⟩ := tiles_append.mp h.row
  have hmove := (moveBlock_spec hlb.symm hrdl hsize hhi (mLastBlock_eq hord) hlt).1
  rw [heapStep, hcall, hmove] at hu
  obtain rfl := Option.some.inj hu
  have hstop : b.addr + pad + hdrSize + (b.size - pad) = L.top := by
    unfold Block.stop at hend
    omega
  simp only [HeapState.alloc]
  exact (moveCut_rowFrom_iff hord hlt hle).mpr ((cutFits_last hstop).mpr hspares)

/-- **`kfree` always keeps the heap in order.** -/
theorem kfree_inOrder {blk : Nat} (h : HeapInv L s bs) (hord : Ordered L s.mem bs)
    (hstep : heapStep L s (.kfree blk) = some t) : InOrder L t := by
  have hcall := hstep
  rw [heapStep] at hstep
  by_cases hlive : s.owns blk 0 = true
  · rw [if_pos hlive] at hstep
    obtain ⟨x, hx, rfl, -⟩ := owns_iff.mp hlive
    obtain ⟨b, hb, haddr, -⟩ := h.owned x hx
    obtain ⟨pre, post, rfl⟩ := List.append_of_mem hb
    have hsub : x.1 - hdrSize = b.addr := by omega
    have hheap : heapOk L s (.kfree x.1) = true := by
      rw [heapOk]
      simp only [hsub]
      rcases List.eq_nil_or_concat' pre with rfl | ⟨pre, l, rfl⟩
      · have hlast := mLastBlock_first hord
        have hlow : mLastBlock s.mem b.addr < L.heapStart := by omega
        simp [hlow]
      · rw [List.append_assoc, List.singleton_append] at hord
        simp [followsLast_ordered hord]
    obtain ⟨⟨bs', hinv⟩, -⟩ := kfree_step h hheap hcall
    refine hinv.inOrder ?_
    obtain rfl := Option.some.inj hstep
    by_cases hlt : b.addr + hdrSize < L.heapEnd
    · obtain ⟨pre', -, c', post', -, -, hfreed, -⟩ := kfree_ordered hord hlt
      rw [← haddr]
      exact exists_ordered_iff.mp ⟨_, hfreed⟩
    · have hsame : kfree L s.mem x.1 = s.mem := by
        rw [← haddr]
        exact if_neg fun hin => hlt hin.2
      rw [hsame]
      exact exists_ordered_iff.mp ⟨_, hord⟩
  · rw [if_neg hlive] at hstep
    cases hstep

/-- A client writes into its own data. -/
theorem write_inOrder {p off : Nat} {v : UInt8} (h : HeapInv L s bs) (hord : Ordered L s.mem bs)
    (hstep : heapStep L s (.write p off v) = some t) : InOrder L t := by
  have hinv := write_step h hstep
  rw [heapStep] at hstep
  by_cases hlive : s.owns p (off + 1) = true
  · rw [if_pos hlive] at hstep
    obtain rfl := Option.some.inj hstep
    refine ⟨bs, hinv, hinv.row, hord.tags.congr fun b hb => load32_congr fun y hlo hhi => ?_⟩
    exact store8_of_ne (h.owned_ne hlive hb hlo (by unfold hdrSize; omega))
  · rw [if_neg hlive] at hstep
    cases hstep

/-! ## 3. Every run -/

/-- One step keeps the heap in order. -/
theorem heapStep_inOrder {op : HeapOp} (h : InOrder L s) (hok : tagsOk L s op = true)
    (hstep : heapStep L s op = some t) : InOrder L t := by
  obtain ⟨bs, hinv, hord⟩ := h
  cases op with
  | kmalloc sz => exact kmalloc_inOrder hinv hord hok hstep
  | kmallocAlign sz align => exact kmallocAlign_inOrder hinv hord hok hstep
  | kfree blk => exact kfree_inOrder hinv hord hstep
  | write p off v => exact write_inOrder hinv hord hstep

/-- **The boundary tags are right on runs without a stray cut.**  From the heap that `init_heap`
leaves, in every state reached by steps that are `tagsOk`, the headers tile the heap and every
`prev_size` is the size of the block before. -/
theorem heap_tags (L : Layout) (m : Mem) (ops : List HeapOp) (t : HeapState)
    (hrun : Run (Guarded (fun s op => tagsOk L s op = true) (stepOf (heapStep L)))
      (heapInit L m) ops t) :
    ∃ bs, Row t.mem L.heapStart bs L.top ∧ Tags (prevSize t.mem) 0 bs := by
  have hkeep : ∀ s op u, InOrder L s →
      Guarded (fun s op => tagsOk L s op = true) (stepOf (heapStep L)) s op u → InOrder L u :=
    fun s op u h hstep => heapStep_inOrder h hstep.1 hstep.2
  obtain ⟨bs, -, hord⟩ := Run.invariant hkeep hrun ⟨_, heapInit_inv L m, initHeap_ordered L m⟩
  exact ⟨bs, hord.row, hord.tags⟩

/-- Three blocks, an aligned one behind them, and the first one freed and used again. -/
def tagsOps : List HeapOp :=
  [.kmalloc 100, .kmalloc 200, .kmallocAlign 0x400 0x1000, .kfree 0xC010000C, .kmalloc 100]

/-- The heap after them is in order. -/
theorem heap_tags_reuse : ∃ t,
    Run (Guarded (fun s op => tagsOk exampleLayout s op = true) (stepOf (heapStep exampleLayout)))
      (heapInit exampleLayout fun _ => 0) tagsOps t ∧
    t.live = [(0xC010000C, 100), (0xC0101000, 0x400), (0xC010007C, 200)] ∧
    ∃ bs, Row t.mem exampleLayout.heapStart bs exampleLayout.top ∧ Tags (prevSize t.mem) 0 bs := by
  have hlive : (execOk (heapStep exampleLayout) (tagsOk exampleLayout)
      (heapInit exampleLayout fun _ => 0) tagsOps).any (fun t => t.live ==
        [(0xC010000C, 100), (0xC0101000, 0x400), (0xC010007C, 200)]) = true := by decide +kernel
  obtain ⟨t, hrun, ht⟩ := exists_run_of_execOk hlive
  exact ⟨t, hrun, eq_of_beq ht, heap_tags exampleLayout (fun _ => 0) tagsOps t hrun⟩

/-- Two blocks; the first is freed and cut in two. -/
def cutOps : List HeapOp := [.kmalloc 100, .kmalloc 100, .kfree 0xC010000C, .kmalloc 50]

/-- The blocks they leave. -/
def cutBlocks : List (Block Bool) :=
  [⟨0xC0100000, 50, false⟩, ⟨0xC010003E, 38, true⟩, ⟨0xC0100070, 100, false⟩,
    ⟨0xC01000E0, 104857364, true⟩]

/-- The headers are those of the row, but the block behind the new one says 100 still. -/
def hasCutBlocks (t : HeapState) : Bool :=
  cutBlocks.all (fun b => rdBlk t.mem b.addr == (b.size, b.tag)) &&
    prevSize t.mem 0xC0100070 == 100

/-- **A boundary tag goes stale**: behind the new block of 38 bytes `prev_size` is 100. -/
theorem stale_prev_size : ∃ t,
    Run (stepOf (heapStep exampleLayout)) (heapInit exampleLayout fun _ => 0) cutOps t ∧
      ¬ ∃ bs p, Row t.mem exampleLayout.heapStart bs exampleLayout.top ∧
        Tags (prevSize t.mem) p bs := by
  have hall : (runOk cutOps).any hasCutBlocks = true := by decide +kernel
  obtain ⟨t, hrun, ht⟩ := exists_run_of_execOk hall
  unfold hasCutBlocks cutBlocks at ht
  simp only [List.all_cons, List.all_nil, Bool.and_true, Bool.and_eq_true, beq_iff_eq] at ht
  obtain ⟨⟨h1, h2, h3, h4⟩, hstale⟩ := ht
  refine ⟨t, hrun.of_guarded, ?_⟩
  rintro ⟨bs, p, hrow, htags⟩
  have hcut : Row t.mem exampleLayout.heapStart cutBlocks exampleLayout.top :=
    ⟨rfl, h1, rfl, h2, rfl, h3, rfl, h4, rfl⟩
  obtain rfl := Tiles.unique (by unfold hdrSize; omega) hrow hcut
  have hright : prevSize t.mem 0xC0100070 = 38 := htags.2.2.1
  rw [hstale] at hright
  exact absurd hright (by decide)

end AndixOs.Heap
