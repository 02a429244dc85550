/-
# Which block an allocation gets

The walk of `kmalloc` and `kmalloc_align` follows sizes that are in the heap itself.  On a row of
blocks it is a fold (`bestFit_eq`), so it ends, and what it keeps is the first of the smallest
free blocks that fit (`FirstMin`).  `kmalloc_cases` and `kmallocAlign_cases` say what the two calls do
then; `kmalloc_best` is what a caller of `kmalloc` needs to know.
-/
import AndixOs.Heap.Blocks
import AndixOs.Lib.FirstMin

namespace AndixOs.Heap

open AndixOs

variable {L : Layout} {m : Mem} {b : Block Bool} {bs : List (Block Bool)} {p : Block Bool → Bool}

/-! ## 1. The walk -/

/-- The candidate as the walk keeps it: where its header is, or `NULL`. -/
def headerOf (best : Option (Block Bool)) : Nat := best.elim 0 Block.addr

/-- A candidate is not at 0, and its header has its size. -/
def Candidate (m : Mem) (best : Option (Block Bool)) : Prop :=
  ∀ c, best = some c → c.addr ≠ 0 ∧ size m c.addr = c.size

theorem Candidate.better {best : Option (Block Bool)} (h : Candidate m best) (hb : b.addr ≠ 0)
    (hsize : size m b.addr = b.size) : Candidate m (better p Block.size best b) := by
  intro c hc
  cases best with
  | none =>
    rw [AndixOs.better] at hc
    split at hc
    · obtain rfl := Option.some.inj hc
      exact ⟨hb, hsize⟩
    · cases hc
  | some d =>
    rw [AndixOs.better] at hc
    split at hc
    · obtain rfl := Option.some.inj hc
      exact ⟨hb, hsize⟩
    · exact h c hc

/-- One round of the walk. -/
theorem headerOf_better {fits : Nat → Bool} {best : Option (Block Bool)} (h : Candidate m best)
    (hsize : size m b.addr = b.size) (hp : (mIsFree m b.addr && fits b.addr) = p b) :
    (if mIsFree m b.addr && fits b.addr &&
        (headerOf best == 0 || size m (headerOf best) > size m b.addr) then b.addr
      else headerOf best) = headerOf (better p Block.size best b) := by
  cases best with
  | none =>
    simp only [headerOf, better, hp, Option.elim_none, beq_self_eq_true, Bool.true_or,
      Bool.and_true]
    split <;> rfl
  | some c =>
    obtain ⟨hc, hcsize⟩ := h c rfl
    simp only [headerOf, better, hp, hsize, hcsize, Option.elim_some, beq_eq_false_iff_ne.mpr hc,
      Bool.false_or]
    split <;> rfl

/-- **The walk is a fold over the row.** -/
theorem bestFit_eq (fits : Nat → Bool) : ∀ {bs : List (Block Bool)} {a : Nat} (fuel : Nat)
    (best : Option (Block Bool)), Row m a bs L.top → 0 < a → bs.length < fuel →
      Candidate m best → (∀ b ∈ bs, (b.tag && fits b.addr) = p b) →
        bestFit L m fits fuel a (headerOf best) =
          some (headerOf (bs.foldl (better p Block.size) best))
  | [], a, fuel + 1, best, h, _, _, _, _ => by
    have htop : a = L.top := h
    rw [bestFit, if_neg (by unfold Layout.heapEnd Layout.top at *; omega)]
    rfl
  | b :: bs, a, fuel + 1, best, h, hpos, hlen, hbest, hp => by
    have hnext := Row.mNextBlock_eq h (Nat.le_refl _) List.mem_cons_self
    obtain ⟨rfl, hrd, htl⟩ := h
    have hle := Tiles.le htl
    have hsize : size m b.addr = b.size := congrArg Prod.fst hrd
    have hfree : mIsFree m b.addr = b.tag := congrArg Prod.snd hrd
    have hlt : b.addr < L.heapEnd := by
      unfold Block.stop Layout.top Layout.heapEnd hdrSize at *
      omega
    have hp' : (mIsFree m b.addr && fits b.addr) = p b := by
      rw [hfree]
      exact hp b List.mem_cons_self
    have hround := headerOf_better hbest hsize hp'
    rw [bestFit, if_pos hlt, hround, hnext, List.foldl_cons]
    exact bestFit_eq fits fuel _ htl (by unfold Block.stop; omega) (Nat.lt_of_succ_lt_succ hlen)
      (hbest.better (by omega) hsize) fun c hc => hp c (List.mem_cons_of_mem _ hc)

/-- **What the walk finds**: the first of the smallest free blocks that fit, or no block fits. -/
theorem bestFit_first {fits : Nat → Bool} (h : Row m L.heapStart bs L.top)
    (hp : ∀ b ∈ bs, (b.tag && fits b.addr) = p b) :
    (bestFit L m fits walkFuel L.heapStart 0 = some 0 ∧ ∀ b ∈ bs, p b = false) ∨
      ∃ b, FirstMin p Block.size bs b ∧
        bestFit L m fits walkFuel L.heapStart 0 = some b.addr := by
  have hfold := bestFit_eq fits walkFuel none h L.low h.length_lt (fun _ hc => by cases hc) hp
  have hmin := firstMin_foldl p Block.size bs
  cases hbest : bs.foldl (better p Block.size) none with
  | none =>
    rw [hbest] at hfold hmin
    exact Or.inl ⟨hfold, hmin⟩
  | some b =>
    rw [hbest] at hfold hmin
    exact Or.inr ⟨b, hmin, hfold⟩

/-! ## 2. The block a call takes -/

/-- A free block of at least `sz` bytes. -/
def fitsFree (sz : Nat) (b : Block Bool) : Bool := b.tag && decide (sz ≤ b.size)

/-- A free block that has `sz` bytes left behind the padding. -/
def fitsAligned (sz a : Nat) (b : Block Bool) : Bool :=
  b.tag && (decide (padding b.addr a < b.size) && decide (sz ≤ b.size - padding b.addr a))

theorem kmallocBest_first (h : Row m L.heapStart bs L.top) (sz : Nat) :
    (kmallocBest L m sz = some 0 ∧ ∀ b ∈ bs, fitsFree sz b = false) ∨
      ∃ b, FirstMin (fitsFree sz) Block.size bs b ∧ kmallocBest L m sz = some b.addr := by
  refine bestFit_first h fun b hb => ?_
  have hsize : size m b.addr = b.size := congrArg Prod.fst (Tiles.mem_rd h hb)
  rw [fitsFree, hsize]

theorem kmallocAlignBest_first (h : Row m L.heapStart bs L.top) (sz a : Nat) :
    (kmallocAlignBest L m sz a = some 0 ∧ ∀ b ∈ bs, fitsAligned sz a b = false) ∨
      ∃ b, FirstMin (fitsAligned sz a) Block.size bs b ∧
        kmallocAlignBest L m sz a = some b.addr := by
  refine bestFit_first h fun b hb => ?_
  have hsize : size m b.addr = b.size := congrArg Prod.fst (Tiles.mem_rd h hb)
  have hlt := size_lt m b.addr
  unfold fitsAligned
  rw [hsize] at hlt ⊢
  by_cases hpad : padding b.addr a < b.size
  · rw [sub32_of_le (by omega) hlt]
  · simp [hpad]

/-- `kmalloc` gives out the block `b`. -/
structure KmallocTakes (L : Layout) (m : Mem) (bs : List (Block Bool)) (sz : UInt32)
    (b : Block Bool) : Prop where
  pos : sz ≠ 0
  best : kmallocBest L m sz.toNat = some b.addr
  first : FirstMin (fitsFree sz.toNat) Block.size bs b
  call : kmalloc L m sz = some (b.addr + hdrSize, prepareBestBlock L m b.addr sz.toNat)

/-- **What `kmalloc` does** on a row of blocks: nothing, or it gives out the best block. -/
theorem kmalloc_cases (h : Row m L.heapStart bs L.top) (sz : UInt32) :
    (kmalloc L m sz = some (0, m) ∧ (sz = 0 ∨ ∀ b ∈ bs, fitsFree sz.toNat b = false)) ∨
      ∃ b, KmallocTakes L m bs sz b := by
  unfold kmalloc
  by_cases hz : sz = 0
  · exact Or.inl ⟨if_pos hz, Or.inl hz⟩
  obtain ⟨hnull, hnone⟩ | ⟨b, hmin, hbest⟩ := kmallocBest_first h sz.toNat
  · left
    rw [if_neg hz, hnull]
    exact ⟨if_pos rfl, Or.inr hnone⟩
  · obtain ⟨hpos, hlt⟩ := h.addr_pos hmin.mem
    refine Or.inr ⟨b, hz, hbest, hmin, ?_⟩
    unfold kmalloc
    rw [if_neg hz, hbest]
    simp only [if_neg (Nat.ne_of_gt hpos), w32_of_lt hlt]

theorem KmallocTakes.mem {sz : UInt32} (h : KmallocTakes L m bs sz b) : b ∈ bs := h.first.mem

theorem KmallocTakes.fits {sz : UInt32} (h : KmallocTakes L m bs sz b) :
    b.tag = true ∧ sz.toNat ≤ b.size := by
  simpa [fitsFree] using h.first.fits

/-- `kmalloc_align` gives out the block `b` behind `pad` bytes of padding. -/
structure KmallocAlignTakes (L : Layout) (m : Mem) (bs : List (Block Bool)) (sz align : UInt32)
    (b : Block Bool) (pad : Nat) : Prop where
  pos : sz ≠ 0
  best : kmallocAlignBest L m sz.toNat (checkAlign align.toNat) = some b.addr
  first : FirstMin (fitsAligned sz.toNat (checkAlign align.toNat)) Block.size bs b
  pad_eq : padding b.addr (checkAlign align.toNat) = pad
  call : kmallocAlign L m sz align = some (w32 ((moveBlock m b.addr pad).1 + hdrSize),
    prepareBestBlock L (moveBlock m b.addr pad).2 (moveBlock m b.addr pad).1 sz.toNat)

/-- **What `kmalloc_align` does** on a row of blocks. -/
theorem kmallocAlign_cases (h : Row m L.heapStart bs L.top) (sz align : UInt32) :
    (kmallocAlign L m sz align = some (0, m) ∧
        (sz = 0 ∨ ∀ b ∈ bs, fitsAligned sz.toNat (checkAlign align.toNat) b = false)) ∨
      ∃ b pad, KmallocAlignTakes L m bs sz align b pad := by
  unfold kmallocAlign
  simp only
  by_cases hz : sz = 0
  · exact Or.inl ⟨if_pos hz, Or.inl hz⟩
  obtain ⟨hnull, hnone⟩ | ⟨b, hmin, hbest⟩ :=
    kmallocAlignBest_first h sz.toNat (checkAlign align.toNat)
  · left
    rw [if_neg hz, hnull]
    exact ⟨if_pos rfl, Or.inr hnone⟩
  · have hpos := (h.addr_pos hmin.mem).1
    refine Or.inr ⟨b, _, hz, hbest, hmin, rfl, ?_⟩
    unfold kmallocAlign
    simp only
    rw [if_neg hz, hbest]
    simp only [if_neg (Nat.ne_of_gt hpos)]

theorem KmallocAlignTakes.mem {sz align : UInt32} {pad : Nat}
    (h : KmallocAlignTakes L m bs sz align b pad) : b ∈ bs := h.first.mem

theorem KmallocAlignTakes.fits {sz align : UInt32} {pad : Nat}
    (h : KmallocAlignTakes L m bs sz align b pad) :
    b.tag = true ∧ pad < b.size ∧ sz.toNat ≤ b.size - pad := by
  simpa [fitsAligned, h.pad_eq] using h.first.fits

/-! ## 3. `kmalloc` -/

/-- The block that is given out is in use. -/
theorem prepareBestBlock_used (L : Layout) (m : Mem) (x sz : Nat) :
    mIsFree (prepareBestBlock L m x sz) x = false := by
  have hused : ∀ m' : Mem, mIsFree (setFlags m' x 1) x = false := by
    intro m'
    exact congrArg Prod.snd (rdBlk_setFlags m' x 1)
  unfold prepareBestBlock
  split
  · exact hused _
  · exact hused _

/-- **`kmalloc` is best fit.**  On every row of blocks it returns.  It returns `NULL` exactly when no
free block is large enough, and then leaves the memory alone; otherwise it gives out the first
of the smallest free blocks that are. -/
theorem kmalloc_best (h : Row m L.heapStart bs L.top) {sz : UInt32} (hz : sz ≠ 0) :
    ∃ q m', kmalloc L m sz = some (q, m') ∧
      (q = 0 ↔ ∀ b ∈ bs, b.tag = true → b.size < sz.toNat) ∧ (q = 0 → m' = m) ∧
      (q ≠ 0 → ∃ b, FirstMin (fitsFree sz.toNat) Block.size bs b ∧ q = b.addr + hdrSize ∧
        m' = prepareBestBlock L m b.addr sz.toNat ∧ mIsFree m' b.addr = false) := by
  obtain ⟨hnull, hnone⟩ | ⟨b, htakes⟩ := kmalloc_cases h sz
  · refine ⟨0, m, hnull, iff_of_true rfl fun b hb hfree => ?_, fun _ => rfl,
      fun hne => absurd rfl hne⟩
    simpa [fitsFree, hfree] using hnone.resolve_left hz b hb
  · obtain ⟨hfree, hle⟩ := htakes.fits
    have hpos := (h.addr_pos htakes.mem).1
    refine ⟨_, _, htakes.call, iff_of_false (by omega) fun hnone => ?_, fun h0 => ?_,
      fun _ => ⟨b, htakes.first, rfl, rfl, prepareBestBlock_used L m b.addr sz.toNat⟩⟩
    · exact absurd (hnone b htakes.mem hfree) (by omega)
    · exact absurd h0 (by omega)

/-- A heap with three free blocks of which two are the smallest, and blocks in use between them. -/
def tieRow : List (Block Bool) :=
  [⟨0xC0100000, 200, true⟩, ⟨0xC01000D4, 50, false⟩, ⟨0xC0100112, 200, true⟩, ⟨0xC01001E6, 50, false⟩,
    ⟨0xC0100224, kernelHeapSize - 560, true⟩]

/-- The memory with the headers of a row. -/
def headers (bs : List (Block Bool)) : Mem :=
  bs.foldl (fun m b => setSize (setFlags m b.addr (if b.tag then 0 else 1)) b.addr b.size) fun _ => 0

theorem tieRow_row : Row (headers tieRow) exampleLayout.heapStart tieRow exampleLayout.top := by
  have hread : ∀ b ∈ tieRow, rdBlk (headers tieRow) b.addr = (b.size, b.tag) := by decide +kernel
  simp only [tieRow, List.forall_mem_cons] at hread
  obtain ⟨h1, h2, h3, h4, h5, -⟩ := hread
  exact ⟨rfl, h1, rfl, h2, rfl, h3, rfl, h4, rfl, h5, rfl⟩

/-- `kmalloc(100)` on this heap. -/
theorem kmalloc_best_tie : ∃ q m', kmalloc exampleLayout (headers tieRow) 100 = some (q, m') ∧
    (q = 0 ↔ ∀ b ∈ tieRow, b.tag = true → b.size < (100 : UInt32).toNat) ∧
    (q = 0 → m' = headers tieRow) ∧
    (q ≠ 0 → ∃ b, FirstMin (fitsFree (100 : UInt32).toNat) Block.size tieRow b ∧
      q = b.addr + hdrSize ∧
      m' = prepareBestBlock exampleLayout (headers tieRow) b.addr (100 : UInt32).toNat ∧
      mIsFree m' b.addr = false) :=
  kmalloc_best tieRow_row (by decide)

end AndixOs.Heap
