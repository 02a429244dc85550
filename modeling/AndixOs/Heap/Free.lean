/-
# Freeing a block

`kfree` on a heap in order without two free blocks in a row: the block is merged with a free
block before it and one behind it, and the heap is in order again (`kfree_frees`).  Both merges are
the same edit of the row (`Around.join`); the boundary tag behind the merged block is repaired
once, at the end (`Around.setPrev`).

`heap_end` is the last byte of the heap, and `kfree` takes it for the end.  An address that is
not below it is not freed; such a block is the last one and has at most one byte
(`kfree_right_iff`).
-/
import AndixOs.Heap.Ordered
import AndixOs.Heap.Safety
import Mathlib.Data.List.Chain

namespace AndixOs.Heap

open AndixOs

variable {L : Layout} {m m' : Mem} {b c l n : Block Bool} {bs pre post : List (Block Bool)}

/-! ## 1. Rows without two free blocks side by side -/

/-- Of two neighbours one is in use. -/
def Coalesced (bs : List (Block Bool)) : Prop :=
  bs.IsChain fun x y => x.tag = false ∨ y.tag = false

/-- The byte is in a free block. -/
def FreeAt (bs : List (Block Bool)) (y : Nat) : Prop :=
  ∃ b ∈ bs, b.tag = true ∧ b.addr ≤ y ∧ y < b.stop hdrSize

/-- The row ends with a block in use, if with any. -/
def EndsUsed (bs : List (Block Bool)) : Prop := ∀ x ∈ bs.getLast?, x.tag = false

/-- The row starts with a block in use, if with any. -/
def StartsUsed (bs : List (Block Bool)) : Prop := ∀ x ∈ bs.head?, x.tag = false

@[simp] theorem freeAt_nil (y : Nat) : ¬ FreeAt [] y := by simp [FreeAt]

@[simp] theorem freeAt_cons {y : Nat} :
    FreeAt (b :: bs) y ↔ (b.tag = true ∧ b.addr ≤ y ∧ y < b.stop hdrSize) ∨ FreeAt bs y := by
  simp [FreeAt]

@[simp] theorem freeAt_append {y : Nat} : FreeAt (pre ++ post) y ↔ FreeAt pre y ∨ FreeAt post y := by
  simp [FreeAt, or_and_right, exists_or]

theorem Coalesced.left (h : Coalesced (pre ++ post)) : Coalesced pre := (List.isChain_append.mp h).1

theorem Coalesced.right (h : Coalesced (pre ++ post)) : Coalesced post :=
  (List.isChain_append.mp h).2.1

theorem Coalesced.tail (h : Coalesced (b :: bs)) : Coalesced bs := (List.isChain_cons.mp h).2

/-- A free block between blocks in use. -/
theorem coalesced_between (hpre : Coalesced pre) (hpost : Coalesced post) (hend : EndsUsed pre)
    (hstart : StartsUsed post) : Coalesced (pre ++ c :: post) := by
  refine List.isChain_append.mpr ⟨hpre, List.isChain_cons.mpr ⟨fun y hy => ?_, hpost⟩, ?_⟩
  · exact Or.inr (hstart y hy)
  · exact fun x hx _ _ => Or.inl (hend x hx)

/-- Before a free block is a block in use, and behind it too. -/
theorem Coalesced.around_free (h : Coalesced (pre ++ c :: post)) (hfree : c.tag = true) :
    EndsUsed pre ∧ StartsUsed post := by
  obtain ⟨-, hback, hfront⟩ := List.isChain_append.mp h
  constructor
  · intro x hx
    have hor := hfront x hx c rfl
    rw [hfree] at hor
    simpa using hor
  · intro y hy
    have hor := (List.isChain_cons.mp hback).1 y hy
    rw [hfree] at hor
    simpa using hor

/-! ## 2. Merging -/

/-- Two blocks as one. -/
def joined (l b : Block Bool) : Block Bool := ⟨l.addr, l.size + hdrSize + b.size, l.tag⟩

/-- The heap is in order around `c`, but for the boundary tag behind it. -/
structure Around (L : Layout) (m : Mem) (pre : List (Block Bool)) (c : Block Bool)
    (post : List (Block Bool)) : Prop where
  row : Row m L.heapStart (pre ++ c :: post) L.top
  front : Tags (prevSize m) 0 (pre ++ [c])
  back : ∃ q, Tags (prevSize m) q post

theorem tags_middle {prev : Nat → Nat} {p : Nat} : Tags prev p (pre ++ c :: post) ↔
    Tags prev p (pre ++ [c]) ∧ Tags prev c.size post := by
  rw [List.append_cons, tags_append, lastSize_concat]

theorem Ordered.around (h : Ordered L m (pre ++ b :: post)) : Around L m pre b post :=
  ⟨h.row, (tags_middle.mp h.tags).1, b.size, (tags_middle.mp h.tags).2⟩

/-- A store to the flags or the size of a block leaves every boundary tag. -/
theorem Row.prevSize_store {a e y v : Nat} (h : Row m a bs e) (hc : c ∈ bs) (hlo : c.addr + 4 ≤ y)
    (hhi : y + 4 ≤ c.addr + hdrSize) (hb : b ∈ bs) :
    prevSize (store32 m y v) b.addr = prevSize m b.addr := by
  refine load32_store32_of_ne ?_
  rcases eq_or_ne b.addr c.addr with heq | hne
  · omega
  · have hsep := Tiles.disjoint h hb hc hne
    unfold Block.stop hdrSize at *
    omega

/-- The flags of these blocks stay. -/
def SameFlags (bs : List (Block Bool)) (m m' : Mem) : Prop :=
  ∀ x ∈ bs, flags m' x.addr = flags m x.addr

theorem SameFlags.trans {m'' : Mem} (h : SameFlags bs m m') (h' : SameFlags bs m' m'') :
    SameFlags bs m m'' := fun x hx => (h' x hx).trans (h x hx)

theorem SameFlags.refl (bs : List (Block Bool)) (m : Mem) : SameFlags bs m m := fun _ _ => rfl

/-- A store to a header leaves the flags of the other blocks. -/
theorem Row.sameFlags_store {a e y v : Nat} (h : Row m a (pre ++ c :: post) e) (hlo : c.addr ≤ y)
    (hhi : y + 4 ≤ c.addr + hdrSize) : SameFlags (pre ++ post) m (store32 m y v) := by
  intro x hx
  obtain ⟨z, hpre, rfl, hrd, hpost⟩ := tiles_append.mp h
  refine load32_store32_of_ne ?_
  rcases List.mem_append.mp hx with hx | hx
  · have hle := (Tiles.mem_le hpre hx).2
    unfold Block.stop hdrSize at *
    omega
  · have hle := (Tiles.mem_le hpost hx).1
    unfold Block.stop hdrSize at *
    omega

/-- **A merge**: the block takes over the one behind it. -/
theorem Around.join (h : Around L m pre l (b :: post)) :
    Around L (setSize m l.addr (w32 (w32 (size m l.addr + hdrSize) + size m b.addr))) pre
        (joined l b) post ∧
      SameFlags (pre ++ post) m
        (setSize m l.addr (w32 (w32 (size m l.addr + hdrSize) + size m b.addr))) := by
  have hstore := fun c hc => h.row.prevSize_store (c := l) (b := c) (y := l.addr + 8)
    (v := w32 (w32 (size m l.addr + hdrSize) + size m b.addr)) (by simp) (by omega)
    (by unfold hdrSize; omega) hc
  obtain ⟨q, hq⟩ := h.back
  have hfront := tags_append.mp h.front
  refine ⟨⟨h.row.join (Nat.le_refl _), ?_, b.size, ?_⟩, ?_⟩
  · refine tags_append.mpr ⟨?_, ?_⟩
    · exact hfront.1.congr fun c hc => hstore c (by simp [hc])
    · exact ⟨(hstore l (by simp)).trans hfront.2.1, trivial⟩
  · exact hq.2.congr fun c hc => hstore c (by simp [hc])
  · intro x hx
    refine h.row.sameFlags_store (y := l.addr + 8) (by omega) (by unfold hdrSize; omega) x ?_
    rcases List.mem_append.mp hx with hx | hx
    · simp [hx]
    · simp [hx]

/-- The last block ends behind `heap_end`. -/
theorem stop_last (h : Row m L.heapStart (pre ++ [c]) L.top) : ¬ c.stop hdrSize < L.heapEnd := by
  have htop : c.stop hdrSize = L.top := (tiles_append.mp h).choose_spec.2.2.2
  unfold Layout.heapEnd Layout.top at *
  omega

/-- The others end before it. -/
theorem stop_lt (h : Row m L.heapStart (pre ++ c :: n :: post) L.top) :
    c.stop hdrSize < L.heapEnd := by
  obtain ⟨x, -, rfl, -, hn, -, hpost⟩ := tiles_append.mp h
  have hle := Tiles.le hpost
  unfold Block.stop Layout.heapEnd Layout.top hdrSize at *
  omega

/-- **The repair** of the boundary tag behind the block. -/
theorem Around.setPrev (h : Around L m pre c post) :
    Ordered L (if c.stop hdrSize < L.heapEnd then setPrevSize m (c.stop hdrSize) (size m c.addr)
        else m) (pre ++ c :: post) ∧
      SameFlags (pre ++ post) m (if c.stop hdrSize < L.heapEnd then
        setPrevSize m (c.stop hdrSize) (size m c.addr) else m) := by
  have hrow := (h.row.setPrev_next (v := size m c.addr)).1
  obtain ⟨q, hq⟩ := h.back
  have hsize : size m c.addr = c.size := congrArg Prod.fst (Tiles.mem_rd h.row (by simp))
  cases post with
  | nil =>
    have hlt := stop_last h.row
    rw [if_neg hlt] at hrow ⊢
    exact ⟨⟨hrow, h.front⟩, SameFlags.refl _ _⟩
  | cons n post =>
    obtain ⟨x, hpre, rfl, hrd, hpost⟩ := tiles_append.mp h.row
    have hn : n.addr = c.stop hdrSize := hpost.1
    have hlt := stop_lt h.row
    rw [if_pos hlt] at hrow ⊢
    have hcstop : c.stop hdrSize = c.addr + 12 + c.size := rfl
    have hnstop : n.stop hdrSize = n.addr + 12 + n.size := rfl
    refine ⟨⟨hrow, tags_middle.mpr ⟨?_, ?_, ?_⟩⟩, ?_⟩
    · refine h.front.congr fun d hd => load32_store32_of_ne ?_
      have hle : d.addr + 12 ≤ c.stop hdrSize := by
        rcases List.mem_append.mp hd with hd | hd
        · have hle := (Tiles.mem_le hpre hd).2
          unfold Block.stop hdrSize at hle
          omega
        · rw [List.mem_singleton.mp hd]
          omega
      omega
    · rw [hn, hsize]
      have hlt32 := size_lt m c.addr
      rw [hsize] at hlt32
      exact (load32_store32 _ _ _).trans (w32_of_lt hlt32)
    · refine hq.2.congr fun d hd => load32_store32_of_ne ?_
      have hle := (Tiles.mem_le hpost.2.2 hd).1
      omega
    · intro d hd
      refine load32_store32_of_ne ?_
      rcases List.mem_append.mp hd with hd | hd
      · have hle := (Tiles.mem_le hpre hd).2
        unfold Block.stop hdrSize at hle
        omega
      · have hle := (Tiles.mem_le hpost hd).1
        omega

/-! ## 3. The two merges of `kfree` -/

/-- `c` is `b`, behind a block in use, or `b` with the free block before it. -/
def TakesLast (pre : List (Block Bool)) (b : Block Bool) (pre' : List (Block Bool))
    (c : Block Bool) : Prop :=
  (pre' = pre ∧ c = b ∧ EndsUsed pre) ∨ ∃ l, l.tag = true ∧ pre = pre' ++ [l] ∧ c = joined l b

/-- `c'` is `c`, before a block in use, or `c` with the free block behind it. -/
def TakesNext (c : Block Bool) (post : List (Block Bool)) (c' : Block Bool)
    (post' : List (Block Bool)) : Prop :=
  (post' = post ∧ c' = c ∧ StartsUsed post) ∨ ∃ n, n.tag = true ∧ post = n :: post' ∧ c' = joined c n

/-- The first block's `prev_size` leads in front of the heap. -/
theorem mLastBlock_first (h : Ordered L m (b :: post)) :
    mLastBlock m b.addr + 12 = L.heapStart := by
  have haddr : b.addr = L.heapStart := h.row.1
  have hprev : prevSize m b.addr = 0 := h.tags.1
  have hlow := L.low
  have hal := L.aligned
  have hroom := L.room
  unfold mLastBlock hdrSize
  rw [hprev, sub32_of_le (Nat.zero_le _) (by omega), sub32_of_le (by omega) (by omega)]
  omega

/-- Every other block's `prev_size` leads to the block before. -/
theorem mLastBlock_eq (h : Ordered L m (pre ++ l :: b :: post)) :
    mLastBlock m b.addr = l.addr := by
  have hroom := L.room
  obtain ⟨x, -, rfl, -, haddr, -, hpost⟩ := tiles_append.mp h.row
  have hprev : prevSize m b.addr = l.size := (tags_middle.mp h.tags).2.1
  have hle := Tiles.le hpost
  unfold Block.stop Layout.top hdrSize at *
  have hdata : sub32 b.addr l.size = l.addr + 12 := by
    rw [sub32_of_le (by omega) (by omega)]
    omega
  unfold mLastBlock hdrSize
  rw [hprev, hdata, sub32_of_le (by omega) (by omega), Nat.add_sub_cancel]

/-- **The merge with the block before.** -/
theorem mergeLast_ordered (h : Ordered L m (pre ++ b :: post)) :
    ∃ pre' c, (mergeLast L m b.addr).1 = c.addr ∧ TakesLast pre b pre' c ∧
      Around L (mergeLast L m b.addr).2 pre' c post ∧
      SameFlags (pre' ++ post) m (mergeLast L m b.addr).2 := by
  unfold mergeLast
  rcases List.eq_nil_or_concat' pre with rfl | ⟨pre, l, rfl⟩
  · have hlast := mLastBlock_first h
    have hlow : ¬ mLastBlock m b.addr ≥ L.heapStart := by omega
    rw [if_neg (by simp [hlow])]
    exact ⟨[], b, rfl, Or.inl ⟨rfl, rfl, by simp [EndsUsed]⟩, h.around, SameFlags.refl _ _⟩
  · rw [List.append_assoc, List.singleton_append] at h
    have hlo := (Tiles.mem_le h.row (b := l) (by simp)).1
    have hfree : mIsFree m l.addr = l.tag := congrArg Prod.snd (Tiles.mem_rd h.row (by simp))
    simp only [mLastBlock_eq h, hfree]
    cases hl : l.tag with
    | false =>
      rw [if_neg (by simp)]
      refine ⟨pre ++ [l], b, rfl, Or.inl ⟨rfl, rfl, by simp [EndsUsed, hl]⟩, ?_, SameFlags.refl _ _⟩
      rw [List.append_cons] at h
      exact h.around
    | true =>
      rw [if_pos (by simpa using hlo)]
      obtain ⟨haround, hflags⟩ := h.around.join
      exact ⟨pre, joined l b, rfl, Or.inr ⟨l, hl, rfl, rfl⟩, haround, hflags⟩

/-- **The merge with the block behind.** -/
theorem mergeNext_ordered (h : Around L m pre c post) :
    ∃ c' post', TakesNext c post c' post' ∧
      Ordered L (mergeNext L m c.addr (c.stop hdrSize)) (pre ++ c' :: post') ∧
      SameFlags (pre ++ post') m (mergeNext L m c.addr (c.stop hdrSize)) := by
  obtain ⟨hrepair, hflags⟩ := h.setPrev
  unfold mergeNext
  cases post with
  | nil =>
    have hlt := stop_last h.row
    rw [if_neg hlt] at hrepair hflags ⊢
    exact ⟨c, [], Or.inl ⟨rfl, rfl, by simp [StartsUsed]⟩, hrepair, hflags⟩
  | cons n post =>
    obtain ⟨x, -, rfl, -, hn, hrdn, hpost⟩ := tiles_append.mp h.row
    have hlt := stop_lt h.row
    have hfree : mIsFree m (c.stop hdrSize) = n.tag := congrArg Prod.snd hrdn
    rw [if_pos hlt, hfree]
    cases hntag : n.tag with
    | false =>
      exact ⟨c, n :: post, Or.inl ⟨rfl, rfl, by simp [StartsUsed, hntag]⟩, hrepair, hflags⟩
    | true =>
      obtain ⟨hjoin, hjflags⟩ := h.join
      have hnext := hjoin.row.mNextBlock_eq (Nat.le_refl _) (b := joined c n) (by simp)
      obtain ⟨hrepair', hflags'⟩ := hjoin.setPrev
      rw [hn] at hjflags hnext hrepair' hflags'
      -- the header stays where it was
      have haddr : c.addr = (joined c n).addr := rfl
      rw [haddr] at hnext hjflags ⊢
      refine ⟨joined c n, post, Or.inr ⟨n, hntag, rfl, rfl⟩, ?_, ?_⟩
      · simp only [if_true]
        rw [hnext]
        exact hrepair'
      · refine hjflags.trans ?_
        simp only [if_true]
        rw [hnext]
        exact hflags'

/-! ## 4. `kfree` -/

/-- The block before, if it was free, is free still, and so is `b`; the blocks in use stay. -/
theorem TakesLast.keeps {pre' : List (Block Bool)} (h : TakesLast pre b pre' c)
    (hc : Coalesced pre) (hrow : ∃ a, Row m a pre b.addr) (y : Nat) :
    (Coalesced pre' ∧ EndsUsed pre') ∧
      (FreeAt pre' y ∨ (c.addr ≤ y ∧ y < c.stop hdrSize) ↔
        FreeAt pre y ∨ (b.addr ≤ y ∧ y < b.stop hdrSize)) ∧
      ∀ x ∈ pre, x.tag = false → x ∈ pre' := by
  rcases h with ⟨rfl, rfl, hend⟩ | ⟨l, hl, rfl, rfl⟩
  · exact ⟨⟨hc, hend⟩, Iff.rfl, fun x hx _ => hx⟩
  · obtain ⟨a, hrow⟩ := hrow
    obtain ⟨z, -, haddr, -, hstop⟩ := tiles_append.mp hrow
    have hlb : l.stop hdrSize = b.addr := hstop
    refine ⟨⟨hc.left, (hc.around_free hl).1⟩, ?_, fun x hx hused => ?_⟩
    · have hjoin : (joined l b).addr ≤ y ∧ y < (joined l b).stop hdrSize ↔
          (l.addr ≤ y ∧ y < l.stop hdrSize) ∨ (b.addr ≤ y ∧ y < b.stop hdrSize) := by
        unfold joined Block.stop at *
        simp only
        omega
      rw [hjoin, freeAt_append]
      simp only [freeAt_cons, freeAt_nil, hl, true_and, or_false, or_assoc]
    · rcases List.mem_append.mp hx with hx | hx
      · exact hx
      · rw [List.mem_singleton.mp hx, hl] at hused
        cases hused

theorem TakesNext.keeps {c' : Block Bool} {post' : List (Block Bool)}
    (h : TakesNext c post c' post') (hc : Coalesced post)
    (hrow : ∃ e, Row m (c.stop hdrSize) post e) (y : Nat) :
    (Coalesced post' ∧ StartsUsed post') ∧
      ((c'.addr ≤ y ∧ y < c'.stop hdrSize) ∨ FreeAt post' y ↔
        (c.addr ≤ y ∧ y < c.stop hdrSize) ∨ FreeAt post y) ∧
      ∀ x ∈ post, x.tag = false → x ∈ post' := by
  rcases h with ⟨rfl, rfl, hstart⟩ | ⟨n, hn, rfl, rfl⟩
  · exact ⟨⟨hc, hstart⟩, Iff.rfl, fun x hx _ => hx⟩
  · obtain ⟨e, haddr, -, -⟩ := hrow
    have hstart : StartsUsed post' := by
      rw [← List.nil_append (n :: post')] at hc
      exact (hc.around_free hn).2
    refine ⟨⟨hc.tail, hstart⟩, ?_, fun x hx hused => ?_⟩
    · have hjoin : (joined c n).addr ≤ y ∧ y < (joined c n).stop hdrSize ↔
          (c.addr ≤ y ∧ y < c.stop hdrSize) ∨ (n.addr ≤ y ∧ y < n.stop hdrSize) := by
        unfold joined Block.stop at *
        simp only
        omega
      rw [hjoin]
      simp only [freeAt_cons, hn, true_and, or_assoc]
    · rcases List.mem_cons.mp hx with rfl | hx
      · rw [hn] at hused
        cases hused
      · exact hx

/-- What freeing a block of the row `bs` should do: the heap is in order again and has no two free
blocks side by side, the bytes of the block and no others have become free, the other blocks in
use have their sizes and their flags, and nothing is lost. -/
structure FreesBlock (L : Layout) (m m' : Mem) (bs bs' : List (Block Bool)) (b : Block Bool) :
    Prop where
  ordered : Ordered L m' bs'
  coalesced : Coalesced bs'
  free : ∀ y, FreeAt bs' y ↔ FreeAt bs y ∨ (b.addr ≤ y ∧ y < b.stop hdrSize)
  used : ∀ c ∈ bs, c.tag = false → c ≠ b →
    c ∈ bs' ∧ size m' c.addr = size m c.addr ∧ flags m' c.addr = flags m c.addr
  total : (bs'.map fun c => hdrSize + c.size).sum = kernelHeapSize

theorem TakesLast.stop {a : Nat} {pre' : List (Block Bool)} (h : TakesLast pre b pre' c)
    (hrow : Row m a pre b.addr) : c.stop hdrSize = b.stop hdrSize := by
  rcases h with ⟨-, rfl, -⟩ | ⟨l, -, rfl, rfl⟩
  · rfl
  · obtain ⟨z, -, -, -, hstop⟩ := tiles_append.mp hrow
    have hlb : l.stop hdrSize = b.addr := hstop
    unfold joined Block.stop at *
    simp only
    omega

theorem TakesNext.subset {c' : Block Bool} {post' : List (Block Bool)}
    (h : TakesNext c post c' post') : post' ⊆ post := by
  rcases h with ⟨rfl, -, -⟩ | ⟨n, -, rfl, -⟩
  · exact fun _ hx => hx
  · exact fun _ hx => List.mem_cons_of_mem _ hx

/-- **`kfree` keeps the heap in order**: the block, with what it takes over, becomes a free block, and
the flags of the others stay. -/
theorem kfree_ordered (h : Ordered L m (pre ++ b :: post)) (hlt : b.addr + hdrSize < L.heapEnd) :
    ∃ pre' c c' post', TakesLast pre b pre' c ∧ TakesNext c post c' post' ∧
      Ordered L (kfree L m (b.addr + hdrSize)) (pre' ++ ⟨c'.addr, c'.size, true⟩ :: post') ∧
      SameFlags (pre' ++ post') m (kfree L m (b.addr + hdrSize)) := by
  rw [kfree_eq h.row (by simp) hlt]
  obtain ⟨z, hpre, rfl, -, -⟩ := tiles_append.mp h.row
  obtain ⟨pre', c, hcur, hlast, haround, hflags1⟩ := mergeLast_ordered h
  generalize (mergeLast L m b.addr).2 = m1 at *
  have hstop := hlast.stop hpre
  obtain ⟨c', post', hnext, hord, hflags2⟩ := mergeNext_ordered haround
  rw [hcur, ← hstop]
  generalize mergeNext L m1 c.addr (c.stop hdrSize) = m2 at *
  have haddr : c.addr = c'.addr := by
    rcases hnext with ⟨-, rfl, -⟩ | ⟨n, -, -, rfl⟩
    · rfl
    · rfl
  rw [haddr]
  have hprev := fun d hd => hord.row.prevSize_store (c := c') (b := d) (y := c'.addr + 4) (v := 0)
    (by simp) (by omega) (by unfold hdrSize; omega) hd
  have hflags3 := hord.row.sameFlags_store (y := c'.addr + 4) (v := 0) (by omega)
    (by unfold hdrSize; omega)
  refine ⟨pre', c, c', post', hlast, hnext, ⟨hord.row.free, ?_⟩, ?_⟩
  · obtain ⟨htpre, htc, htpost⟩ := tags_append.mp hord.tags
    refine tags_append.mpr ⟨htpre.congr fun d hd => hprev d (by simp [hd]), ?_, ?_⟩
    · exact (hprev c' (by simp)).trans htc
    · exact htpost.congr fun d hd => hprev d (by simp [hd])
  · intro x hx
    refine ((hflags3 x hx).trans (hflags2 x hx)).trans (hflags1 x ?_)
    rcases List.mem_append.mp hx with hx | hx
    · exact List.mem_append.mpr (Or.inl hx)
    · exact List.mem_append.mpr (Or.inr (hnext.subset hx))

/-- **`kfree` frees the block** if its data starts below `heap_end`. -/
theorem kfree_frees (h : Ordered L m bs) (hc : Coalesced bs) (hb : b ∈ bs) (hused : b.tag = false)
    (hlt : b.addr + hdrSize < L.heapEnd) :
    ∃ bs', FreesBlock L m (kfree L m (b.addr + hdrSize)) bs bs' b := by
  obtain ⟨pre, post, rfl⟩ := List.append_of_mem hb
  obtain ⟨z, hpre, rfl, -, hpost⟩ := tiles_append.mp h.row
  obtain ⟨pre', c, c', post', hlast, hnext, hord, hflags⟩ := kfree_ordered h hlt
  generalize kfree L m (b.addr + hdrSize) = m' at *
  have hkeepl := hlast.keeps hc.left ⟨_, hpre⟩
  have hkeepn := hnext.keeps hc.right.tail ⟨_, hlast.stop hpre ▸ hpost⟩
  refine ⟨_, hord, ?_, fun y => ?_, ?_, ?_⟩
  · exact coalesced_between (hkeepl 0).1.1 (hkeepn 0).1.1 (hkeepl 0).1.2 (hkeepn 0).1.2
  · have hstop : Block.stop hdrSize ⟨c'.addr, c'.size, true⟩ = c'.stop hdrSize := rfl
    simp only [freeAt_append, freeAt_cons, true_and, hused, Bool.false_eq_true, false_and, false_or]
    rw [hstop, (hkeepn y).2.1, ← or_assoc, (hkeepl y).2.1, or_right_comm]
  · intro x hx hxused hne
    have hx' : x ∈ pre' ++ post' := by
      rcases List.mem_append.mp hx with hx | hx
      · exact List.mem_append.mpr (Or.inl ((hkeepl 0).2.2 x hx hxused))
      · exact List.mem_append.mpr
          (Or.inr ((hkeepn 0).2.2 x ((List.mem_cons.mp hx).resolve_left hne) hxused))
    have hmem : x ∈ pre' ++ ⟨c'.addr, c'.size, true⟩ :: post' := by
      rcases List.mem_append.mp hx' with hx' | hx'
      · simp [hx']
      · simp [hx']
    have hsize : size m x.addr = x.size := congrArg Prod.fst (Tiles.mem_rd h.row hx)
    have hsize' : size m' x.addr = x.size := congrArg Prod.fst (Tiles.mem_rd hord.row hmem)
    exact ⟨hmem, hsize'.trans hsize.symm, hflags x hx'⟩
  · have htotal := Tiles.total hord.row
    unfold Layout.top at htotal
    omega

/-- A block whose data does not start below `heap_end` stays in use. -/
theorem not_freesBlock (h : Ordered L m bs) (hb : b ∈ bs) (hused : b.tag = false)
    (hge : ¬ b.addr + hdrSize < L.heapEnd) :
    ¬ ∃ bs', FreesBlock L m (kfree L m (b.addr + hdrSize)) bs bs' b := by
  rintro ⟨bs', hright⟩
  have hsame : kfree L m (b.addr + hdrSize) = m := if_neg fun hin => hge hin.2
  rw [hsame] at hright
  obtain rfl := Tiles.unique (by unfold hdrSize; omega) h.row hright.ordered.row
  obtain ⟨d, hd, hfree, hlo, hhi⟩ := (hright.free b.addr).mpr
    (Or.inr ⟨Nat.le_refl _, by unfold Block.stop hdrSize; omega⟩)
  rcases eq_or_ne b.addr d.addr with heq | hne
  · rw [h.row.eq_of_addr hb hd heq, hfree] at hused
    cases hused
  · have hsep := Tiles.disjoint h.row hb hd hne
    unfold Block.stop hdrSize at *
    omega

/-- **When `kfree` frees the block.**  `heap_end` is the last byte of the heap: a block whose data
would start there or behind is not touched. -/
theorem kfree_right_iff (h : Ordered L m bs) (hc : Coalesced bs) (hb : b ∈ bs)
    (hused : b.tag = false) :
    (∃ bs', FreesBlock L m (kfree L m (b.addr + hdrSize)) bs bs' b) ↔
      b.addr + hdrSize < L.heapEnd := by
  constructor
  · intro hright
    by_contra hge
    exact not_freesBlock h hb hused hge hright
  · exact kfree_frees h hc hb hused

/-- Three allocations that fill the heap; the last one is of one byte. -/
def fullOps : List HeapOp := [.kmalloc 104857307, .kmalloc 256, .kmalloc 1]

/-- The blocks they are in. -/
def fullRow : List (Block Bool) :=
  [⟨0xC0100000, 104857307, false⟩, ⟨0xC64FFEE7, 256, false⟩, ⟨0xC64FFFF3, 1, false⟩]

/-- The headers are those of the row, and each block is a live allocation. -/
def hasFullRow (t : HeapState) : Bool :=
  fullRow.all (fun b => rdBlk t.mem b.addr == (b.size, b.tag)) &&
    fullRow.map (fun b => prevSize t.mem b.addr) == [0, 104857307, 256] &&
    t.live == (fullRow.map fun b => (b.addr + hdrSize, b.size)).reverse

theorem fullRow_coalesced : Coalesced fullRow := by simp [Coalesced, fullRow]

theorem fullOps_run : ∃ t,
    Run (stepOf (heapStep exampleLayout)) (heapInit exampleLayout fun _ => 0) fullOps t ∧
      t.live = (fullRow.map fun b => (b.addr + hdrSize, b.size)).reverse ∧
      Ordered exampleLayout t.mem fullRow := by
  have hall : (runOk fullOps).any hasFullRow = true := by decide +kernel
  obtain ⟨t, hrun, ht⟩ := exists_run_of_execOk hall
  unfold hasFullRow fullRow at ht
  simp only [List.all_cons, List.all_nil, Bool.and_true, List.map_cons, List.map_nil,
    Bool.and_eq_true, beq_iff_eq, List.cons.injEq, and_true] at ht
  obtain ⟨⟨⟨h1, h2, h3⟩, p1, p2, p3⟩, hlive⟩ := ht
  exact ⟨t, hrun.of_guarded, hlive, ⟨rfl, h1, rfl, h2, rfl, h3, rfl⟩, p1, p2, p3, trivial⟩

/-- The second allocation is freed. -/
theorem kfree_right_second : ∃ t,
    Run (stepOf (heapStep exampleLayout)) (heapInit exampleLayout fun _ => 0) fullOps t ∧
      ((∃ bs', FreesBlock exampleLayout t.mem (kfree exampleLayout t.mem (0xC64FFEE7 + hdrSize))
        fullRow bs' ⟨0xC64FFEE7, 256, false⟩) ↔ 0xC64FFEE7 + hdrSize < exampleLayout.heapEnd) ∧
      0xC64FFEE7 + hdrSize < exampleLayout.heapEnd := by
  obtain ⟨t, hrun, -, hord⟩ := fullOps_run
  exact ⟨t, hrun, kfree_right_iff (b := ⟨0xC64FFEE7, 256, false⟩) hord fullRow_coalesced
    (by decide) rfl, by decide⟩

/-- The third one is not: `kmalloc` has returned `heap_end` for it. -/
theorem kfree_misses_last : ∃ t,
    Run (stepOf (heapStep exampleLayout)) (heapInit exampleLayout fun _ => 0) fullOps t ∧
      (exampleLayout.heapEnd, 1) ∈ t.live ∧ Ordered exampleLayout t.mem fullRow ∧
      Coalesced fullRow ∧ kfree exampleLayout t.mem exampleLayout.heapEnd = t.mem ∧
      ¬ ∃ bs', FreesBlock exampleLayout t.mem (kfree exampleLayout t.mem exampleLayout.heapEnd)
        fullRow bs' ⟨0xC64FFFF3, 1, false⟩ := by
  obtain ⟨t, hrun, hlive, hord⟩ := fullOps_run
  refine ⟨t, hrun, by rw [hlive]; decide, hord, fullRow_coalesced, rfl, ?_⟩
  exact not_freesBlock (b := ⟨0xC64FFFF3, 1, false⟩) hord (by decide) rfl (by decide)

end AndixOs.Heap
