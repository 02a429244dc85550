/-
# The page allocators

`pmm`, `mmm` and `smm` hand out pages of three areas: physical frames, mapable pages and stack
pages.  Each keeps a bitmap, and nothing else, of who has what.

A `Ledger` follows the three areas through a sequence of calls and writes down, from the results
alone, which pages the callers hold.  In every run in which callers free what they hold, the
bitmaps say exactly what the ledger says (`Sound`), so a result is always a run of pages that
nobody holds (`allocators_sound`).
-/
import AndixOs.Mm.Kernel
import AndixOs.Lib.Run

namespace AndixOs.Mm

/-! ## 1. The areas -/

inductive PageArea where
  | pmm
  | mmm
  | smm
  deriving DecidableEq

def Kernel.bitmap (k : Kernel) : PageArea → Bitmap
  | .pmm => k.pmm
  | .mmm => k.mmm
  | .smm => k.smm

def Kernel.setBitmap (k : Kernel) (b : Bitmap) : PageArea → Kernel
  | .pmm => { k with pmm := b }
  | .mmm => { k with mmm := b }
  | .smm => { k with smm := b }

/-- The address of an area's first page. -/
def Kernel.base (k : Kernel) : PageArea → Nat
  | .pmm => k.physStart
  | .mmm => mmmStart
  | .smm => k.layout.smmStart

/-- What `init_vmm` passes to the initialisation of an area: an area that starts above 0, ends below
`2^32` and has at most 2 GB, as the differences of addresses are signed (`init_vmm` keeps to
`SECURE_MEMORY_SIZE` for the frames and to 1 GB for the others). -/
structure AreaRange where
  start : Nat
  end_ : Nat
  positive : 0 < start
  ordered : start ≤ end_
  inside : end_ < 4294967296
  small : end_ - start ≤ 0x80000000

/-- The areas after their initialisation. -/
def initAreas (k : Kernel) (phys stack : AreaRange) : Kernel :=
  smmInit (mmmInit (pmmInit k phys.start phys.end_)) stack.start stack.end_

/-! ## 2. The calls -/

inductive AllocOp where
  | pmmAllocatePage
  | pmmAllocatePages (numpages : UInt32)
  | pmmAllocateAlignedPages (numpages align : UInt32)
  | pmmFreePage (page : UInt32)
  | mmmAllocatePage
  | mmmAllocatePages (numpages : UInt32)
  | mmmFreePage (page : UInt32)
  | smmAllocatePages (numpages : UInt32)
  | smmFreePage (page : UInt32)

/-- A call: its result, 0 for `NULL` and for a call that has none. -/
def AllocOp.run (k : Kernel) : AllocOp → Nat × Kernel
  | .pmmAllocatePage => Mm.pmmAllocatePage k
  | .pmmAllocatePages n => Mm.pmmAllocatePages k n.toNat
  | .pmmAllocateAlignedPages n align => Mm.pmmAllocateAlignedPages k n.toNat align.toNat
  | .pmmFreePage page => (0, Mm.pmmFreePage k page.toNat)
  | .mmmAllocatePage => Mm.mmmAllocatePage k
  | .mmmAllocatePages n => Mm.mmmAllocatePages k n.toNat
  | .mmmFreePage page => (0, Mm.mmmFreePage k page.toNat)
  | .smmAllocatePages n => Mm.smmAllocatePages k n.toNat
  | .smmFreePage page => (0, Mm.smmFreePage k page.toNat)

/-- The area and the number of pages a call asks for. -/
def AllocOp.wants : AllocOp → Option (PageArea × Nat)
  | .pmmAllocatePage => some (.pmm, 1)
  | .pmmAllocatePages n => some (.pmm, n.toNat)
  | .pmmAllocateAlignedPages n _ => some (.pmm, n.toNat)
  | .mmmAllocatePage => some (.mmm, 1)
  | .mmmAllocatePages n => some (.mmm, n.toNat)
  | .smmAllocatePages n => some (.smm, n.toNat)
  | _ => none

/-- The area and the page a call frees. -/
def AllocOp.frees : AllocOp → Option (PageArea × Nat)
  | .pmmFreePage page => some (.pmm, page.toNat)
  | .mmmFreePage page => some (.mmm, page.toNat)
  | .smmFreePage page => some (.smm, page.toNat)
  | _ => none

/-- The areas and the pages that callers hold: handed out, and not freed. -/
structure Ledger where
  k : Kernel
  out : PageArea → Nat → Bool

/-- The address of page `p`. -/
def Ledger.pageAddr (s : Ledger) (a : PageArea) (p : Nat) : Nat := s.k.base a + 4096 * p

/-- Page `p` is part of what the call has handed out. -/
def Ledger.gains (s : Ledger) (op : AllocOp) (a : PageArea) (p : Nat) : Bool :=
  match op.wants with
  | some (a', n) =>
    decide (a = a' ∧ (op.run s.k).1 ≠ 0 ∧ (op.run s.k).1 ≤ s.pageAddr a p ∧
      s.pageAddr a p < (op.run s.k).1 + 4096 * n)
  | none => false

/-- Page `p` is what the call frees. -/
def Ledger.loses (s : Ledger) (op : AllocOp) (a : PageArea) (p : Nat) : Bool :=
  match op.frees with
  | some (a', page) => decide (a = a' ∧ page = s.pageAddr a p)
  | none => false

def Ledger.step (s : Ledger) (op : AllocOp) : Ledger where
  k := (op.run s.k).2
  out := fun a p => s.out a p && !s.loses op a p || s.gains op a p

/-- A call frees a page that was handed out and is not freed. -/
def FreesOwn (s : Ledger) (op : AllocOp) : Prop :=
  ∀ a page, op.frees = some (a, page) → ∃ p, s.out a p = true ∧ page = s.pageAddr a p

/-- Nobody holds a page after the initialisation. -/
def Ledger.start (k : Kernel) (phys stack : AreaRange) : Ledger :=
  ⟨initAreas k phys stack, fun _ _ => false⟩

/-! ## 3. What a call does to the areas -/

/-- The pages from `q` on were free, and are marked. -/
structure Takes (b b' : Bitmap) (n q : Nat) : Prop where
  some_page : 0 < n
  inside : q + n ≤ b.pages
  free : FreeRun b.isFree q n
  words : b'.words = b.words
  marked : ∀ p, b'.isFree p = (b.isFree p && !decide (q ≤ p ∧ p < q + n))

theorem allocatePages_takes (b : Bitmap) (base : Nat) {n : Nat} (hn : n < 4294967296)
    (hb : b.pages < 4294967295) :
    allocatePages b base n = (0, b) ∨
      ∃ q b', allocatePages b base n = (w32 (base + q * 4096), b') ∧ Takes b b' n q := by
  rcases Nat.eq_zero_or_pos n with rfl | hpos
  · exact Or.inl (allocatePages_zero base hb)
  · rcases allocatePages_spec b base hpos hn with ⟨h, -⟩ | ⟨q, b', h, hrun, hw, hm, -⟩
    · exact Or.inl h
    · exact Or.inr ⟨q, b', h, hpos, hrun.inside, hrun.run, hw, hm⟩

theorem allocateAlignedPages_takes (b : Bitmap) (base align : Nat) {n : Nat} (hn : n < 4294967296)
    (hb : b.pages < 4294967295) :
    allocateAlignedPages b base n align = (0, b) ∨
      ∃ q b', allocateAlignedPages b base n align = (w32 (base + q * 4096), b') ∧
        Takes b b' n q := by
  rcases Nat.eq_zero_or_pos n with rfl | hpos
  · exact Or.inl (allocateAlignedPages_zero base align (by omega))
  · rcases allocateAlignedPages_spec b base align hpos hn with h | ⟨q, b', h, hin, hrun, hw, hm⟩
    · exact Or.inl h
    · exact Or.inr ⟨q, b', h, hpos, hin, hrun, hw, hm⟩

theorem allocatePage_takes (b : Bitmap) (base : Nat) :
    allocatePage b base = (0, b) ∨
      ∃ q b', allocatePage b base = (w32 (base + q * 4096), b') ∧ Takes b b' 1 q := by
  rcases allocatePage_spec b base with h | ⟨q, b', h, hin, hfree, hw, hm⟩
  · exact Or.inl h
  · refine Or.inr ⟨q, b', h, Nat.one_pos, hin, ?_, hw, fun p => ?_⟩
    · intro p h1 h2
      obtain rfl : p = q := by omega
      exact hfree
    · rw [hm]
      congr 2
      rw [decide_eq_decide]
      omega

/-- Every area lies above 0 and below `2^32`, and has at most 2 GB. -/
structure Placed (k : Kernel) : Prop where
  positive : ∀ a, 0 < k.base a
  inside : ∀ a, k.base a + 4096 * (k.bitmap a).pages ≤ 4294967296
  small : ∀ a, (k.bitmap a).pages ≤ 524288

/-- What a call leaves as it is: where the areas are, and the bitmaps but the one of `a`. -/
structure OnlyArea (a : PageArea) (k k' : Kernel) : Prop where
  base : ∀ a', k'.base a' = k.base a'
  words : (k'.bitmap a).words = (k.bitmap a).words
  others : ∀ a', a' ≠ a → k'.bitmap a' = k.bitmap a'

variable {k k' : Kernel} {s : Ledger} {op : AllocOp} {a : PageArea} {n : Nat}

/-- The address of a page does not wrap. -/
theorem Placed.addr {q : Nat} (hk : Placed k) (hq : q < (k.bitmap a).pages) :
    w32 (k.base a + q * 4096) = k.base a + 4096 * q := by
  have hin := hk.inside a
  rw [w32_of_lt (by omega)]
  omega

theorem OnlyArea.words_eq (h : OnlyArea a k k') (a' : PageArea) :
    (k'.bitmap a').words = (k.bitmap a').words := by
  by_cases ha : a' = a
  · rw [ha]
    exact h.words
  · rw [h.others a' ha]

theorem OnlyArea.placed (h : OnlyArea a k k') (hk : Placed k) : Placed k' := by
  have hpages : ∀ a', (k'.bitmap a').pages = (k.bitmap a').pages := by
    intro a'
    unfold Bitmap.pages
    rw [h.words_eq]
  constructor
  · intro a'
    rw [h.base]
    exact hk.positive a'
  · intro a'
    rw [h.base, hpages]
    exact hk.inside a'
  · intro a'
    rw [hpages]
    exact hk.small a'

theorem setBitmap_self (k : Kernel) (a : PageArea) : k.setBitmap (k.bitmap a) a = k := by
  cases a <;> rfl

theorem bitmap_setBitmap (k : Kernel) (b : Bitmap) (a : PageArea) :
    (k.setBitmap b a).bitmap a = b := by
  cases a <;> rfl

theorem onlyArea_setBitmap {b : Bitmap} (h : b.words = (k.bitmap a).words) :
    OnlyArea a k (k.setBitmap b a) where
  base := by
    intro a'
    cases a <;> cases a' <;> rfl
  words := by rw [bitmap_setBitmap, h]
  others := by
    intro a' ha
    cases a <;> cases a' <;> first | rfl | exact absurd rfl ha

/-- What a search of the bitmap says about the call. -/
theorem run_of_search {r : Nat × Bitmap} (hrun : op.run k = (r.1, k.setBitmap r.2 a))
    (h : r = (0, k.bitmap a) ∨
      ∃ q b', r = (w32 (k.base a + q * 4096), b') ∧ Takes (k.bitmap a) b' n q) :
    op.run k = (0, k) ∨
      ∃ q, (op.run k).1 = w32 (k.base a + q * 4096) ∧
        Takes (k.bitmap a) ((op.run k).2.bitmap a) n q ∧ OnlyArea a k (op.run k).2 := by
  rcases h with rfl | ⟨q, b', rfl, ht⟩
  · left
    rw [hrun]
    simp only [setBitmap_self]
  · right
    rw [hrun]
    refine ⟨q, rfl, ?_, onlyArea_setBitmap ht.words⟩
    rw [bitmap_setBitmap]
    exact ht

/-- **A call that asks for pages** fails and changes nothing, or takes them. -/
theorem AllocOp.run_wants (hk : Placed k) (hw : op.wants = some (a, n)) :
    op.run k = (0, k) ∨
      ∃ q, (op.run k).1 = w32 (k.base a + q * 4096) ∧
        Takes (k.bitmap a) ((op.run k).2.bitmap a) n q ∧ OnlyArea a k (op.run k).2 := by
  have hpages : ∀ a, (k.bitmap a).pages < 4294967295 := fun a => by
    have := hk.small a
    omega
  cases op with
  | pmmAllocatePage =>
    obtain ⟨rfl, rfl⟩ := Prod.mk.inj (Option.some.inj hw)
    exact run_of_search rfl (allocatePage_takes ..)
  | pmmAllocatePages numpages =>
    obtain ⟨rfl, rfl⟩ := Prod.mk.inj (Option.some.inj hw)
    exact run_of_search rfl (allocatePages_takes _ _ numpages.toNat_lt (hpages .pmm))
  | pmmAllocateAlignedPages numpages align =>
    obtain ⟨rfl, rfl⟩ := Prod.mk.inj (Option.some.inj hw)
    exact run_of_search rfl (allocateAlignedPages_takes _ _ _ numpages.toNat_lt (hpages .pmm))
  | mmmAllocatePage =>
    obtain ⟨rfl, rfl⟩ := Prod.mk.inj (Option.some.inj hw)
    exact run_of_search rfl (allocatePage_takes ..)
  | mmmAllocatePages numpages =>
    obtain ⟨rfl, rfl⟩ := Prod.mk.inj (Option.some.inj hw)
    exact run_of_search rfl (allocatePages_takes _ _ numpages.toNat_lt (hpages .mmm))
  | smmAllocatePages numpages =>
    obtain ⟨rfl, rfl⟩ := Prod.mk.inj (Option.some.inj hw)
    exact run_of_search rfl (allocatePages_takes _ _ numpages.toNat_lt (hpages .smm))
  | pmmFreePage page => exact absurd hw (by simp [AllocOp.wants])
  | mmmFreePage page => exact absurd hw (by simp [AllocOp.wants])
  | smmFreePage page => exact absurd hw (by simp [AllocOp.wants])

/-- **A call that frees a page** sets the bit of the page. -/
theorem AllocOp.run_frees {page : Nat} (hf : op.frees = some (a, page)) :
    op.run k = (0, k.setBitmap (freePage (k.bitmap a) (k.base a) page) a) := by
  cases op with
  | pmmFreePage page' =>
    obtain ⟨rfl, rfl⟩ := Prod.mk.inj (Option.some.inj hf)
    rfl
  | mmmFreePage page' =>
    obtain ⟨rfl, rfl⟩ := Prod.mk.inj (Option.some.inj hf)
    rfl
  | smmFreePage page' =>
    obtain ⟨rfl, rfl⟩ := Prod.mk.inj (Option.some.inj hf)
    rfl
  | _ => exact absurd hf (by simp [AllocOp.frees])

/-- A call asks for pages or frees one. -/
theorem AllocOp.wants_or_frees (op : AllocOp) :
    (∃ a n, op.wants = some (a, n) ∧ op.frees = none) ∨
      ∃ a page, op.frees = some (a, page) ∧ op.wants = none := by
  cases op with
  | pmmFreePage _ => exact Or.inr ⟨_, _, rfl, rfl⟩
  | mmmFreePage _ => exact Or.inr ⟨_, _, rfl, rfl⟩
  | smmFreePage _ => exact Or.inr ⟨_, _, rfl, rfl⟩
  | _ => exact Or.inl ⟨_, _, rfl, rfl⟩

/-! ## 4. The invariant -/

/-- **The bitmaps say what the ledger says**: a page of an area is free when nobody holds it. -/
structure Sound (s : Ledger) : Prop extends Placed s.k where
  agree : ∀ a p, p < (s.k.bitmap a).pages → (s.k.bitmap a).isFree p = !s.out a p
  held : ∀ a p, s.out a p = true → p < (s.k.bitmap a).pages

/-- The pages of a run, by their addresses. -/
theorem gains_eq {q : Nat} (hw : op.wants = some (a, n)) (hpos : 0 < s.k.base a)
    (hr : (op.run s.k).1 = s.k.base a + 4096 * q) (a' : PageArea) (p : Nat) :
    s.gains op a' p = decide (a' = a ∧ q ≤ p ∧ p < q + n) := by
  unfold Ledger.gains Ledger.pageAddr
  rw [hw]
  simp only [hr]
  rw [decide_eq_decide]
  constructor
  · rintro ⟨rfl, -, h1, h2⟩
    exact ⟨rfl, by omega, by omega⟩
  · rintro ⟨rfl, h1, h2⟩
    exact ⟨rfl, by omega, by omega, by omega⟩

theorem gains_none (hw : op.wants = none) (a' : PageArea) (p : Nat) :
    s.gains op a' p = false := by
  unfold Ledger.gains
  rw [hw]

theorem gains_null (hr : (op.run s.k).1 = 0) (a' : PageArea) (p : Nat) :
    s.gains op a' p = false := by
  unfold Ledger.gains
  split
  · rw [decide_eq_false]
    exact fun h => h.2.1 hr
  · rfl

theorem loses_none (hf : op.frees = none) (a' : PageArea) (p : Nat) :
    s.loses op a' p = false := by
  unfold Ledger.loses
  rw [hf]

/-- **What a call that hands out pages hands out**: pages nobody held. -/
theorem Sound.takes (h : Sound s) (hw : op.wants = some (a, n)) (hr : (op.run s.k).1 ≠ 0) :
    ∃ q, (op.run s.k).1 = s.k.base a + 4096 * q ∧
      Takes (s.k.bitmap a) ((op.run s.k).2.bitmap a) n q ∧ OnlyArea a s.k (op.run s.k).2 := by
  rcases op.run_wants h.toPlaced hw with h0 | ⟨q, haddr, ht, ho⟩
  · rw [h0] at hr
    exact absurd rfl hr
  · have hin := ht.inside
    have hpos := ht.some_page
    refine ⟨q, ?_, ht, ho⟩
    rw [haddr, h.addr (by omega)]

/-- A call that finds nothing changes nothing. -/
theorem sound_nothing (h : Sound s) (hf : op.frees = none) (h0 : op.run s.k = (0, s.k)) :
    Sound (s.step op) := by
  have hk : (s.step op).k = s.k := by
    unfold Ledger.step
    rw [h0]
  have hout : ∀ a' p, (s.step op).out a' p = s.out a' p := by
    intro a' p
    unfold Ledger.step
    simp only [loses_none hf, gains_null (show (op.run s.k).1 = 0 by rw [h0]), Bool.not_false,
      Bool.and_true, Bool.or_false]
  constructor
  · rw [hk]
    exact h.toPlaced
  · intro a' p hp
    rw [hout]
    rw [hk] at hp ⊢
    exact h.agree a' p hp
  · intro a' p hp
    rw [hout] at hp
    rw [hk]
    exact h.held a' p hp

/-- The pages that a call hands out are marked, and held. -/
theorem sound_takes {q : Nat} (h : Sound s) (hw : op.wants = some (a, n)) (hf : op.frees = none)
    (haddr : (op.run s.k).1 = s.k.base a + 4096 * q)
    (ht : Takes (s.k.bitmap a) ((op.run s.k).2.bitmap a) n q)
    (ho : OnlyArea a s.k (op.run s.k).2) : Sound (s.step op) := by
  have hin := ht.inside
  have hpages : ∀ a', ((op.run s.k).2.bitmap a').pages = (s.k.bitmap a').pages := by
    intro a'
    unfold Bitmap.pages
    rw [ho.words_eq]
  have hout : ∀ a' p, (s.step op).out a' p =
      (s.out a' p || decide (a' = a ∧ q ≤ p ∧ p < q + n)) := by
    intro a' p
    unfold Ledger.step
    simp only [loses_none hf, gains_eq hw (h.positive a) haddr, Bool.not_false, Bool.and_true]
  constructor
  · exact ho.placed h.toPlaced
  · intro a' p hp
    have hp' : p < (s.k.bitmap a').pages := by
      rw [← hpages]
      exact hp
    rw [hout, Bool.not_or, ← h.agree a' p hp']
    by_cases ha : a' = a
    · subst ha
      simp only [true_and]
      exact ht.marked p
    · rw [decide_eq_false (fun hno => ha hno.1), Bool.not_false, Bool.and_true]
      exact congrArg (Bitmap.isFree · p) (ho.others a' ha)
  · intro a' p hp
    rw [hout, Bool.or_eq_true, decide_eq_true_eq] at hp
    refine lt_of_lt_of_eq ?_ (hpages a').symm
    rcases hp with hp | ⟨rfl, h1, h2⟩
    · exact h.held a' p hp
    · omega

/-- The bit of a page of an area: the signed difference of the addresses is not negative. -/
theorem Placed.freedPage {q : Nat} (hk : Placed k) (hq : q < (k.bitmap a).pages) :
    freedPage (k.base a) (k.base a + 4096 * q) = some q := by
  have hin := hk.inside a
  have hsmall := hk.small a
  have hsub : sub32 (k.base a + 4096 * q) (k.base a) = 4096 * q := by
    rw [sub32_of_le (by omega) (by omega)]
    omega
  unfold Mm.freedPage
  rw [hsub, if_pos (by omega)]
  congr 1
  omega

/-- The page that a call frees is free again, and not held. -/
theorem sound_frees {page : Nat} (h : Sound s) (hf : op.frees = some (a, page))
    (hw : op.wants = none) (hok : FreesOwn s op) : Sound (s.step op) := by
  obtain ⟨q, hq, rfl⟩ := hok a page hf
  have hq' := h.held a q hq
  have hk : (s.step op).k =
      s.k.setBitmap (freePage (s.k.bitmap a) (s.k.base a) (s.pageAddr a q)) a := by
    unfold Ledger.step
    rw [AllocOp.run_frees hf]
  have ho : OnlyArea a s.k (s.step op).k := by
    rw [hk]
    exact onlyArea_setBitmap rfl
  have hpages : ∀ a', ((s.step op).k.bitmap a').pages = (s.k.bitmap a').pages := by
    intro a'
    unfold Bitmap.pages
    rw [ho.words_eq]
  have hout : ∀ a' p, (s.step op).out a' p = (s.out a' p && !decide (a' = a ∧ p = q)) := by
    intro a' p
    unfold Ledger.step Ledger.loses
    simp only [gains_none hw, hf, Bool.or_false]
    congr 2
    rw [decide_eq_decide]
    constructor
    · rintro ⟨rfl, hp⟩
      unfold Ledger.pageAddr at hp
      exact ⟨rfl, by omega⟩
    · rintro ⟨rfl, rfl⟩
      exact ⟨rfl, rfl⟩
  constructor
  · exact ho.placed h.toPlaced
  · intro a' p hp
    have hp' : p < (s.k.bitmap a').pages := by
      rw [← hpages]
      exact hp
    rw [hout, Bool.not_and, Bool.not_not, ← h.agree a' p hp']
    by_cases ha : a' = a
    · subst ha
      have hfree := isFree_freePage (s.k.bitmap a') (s.k.base a') (s.pageAddr a' q) p
      rw [hk, bitmap_setBitmap, hfree]
      unfold Ledger.pageAddr
      rw [h.freedPage hq']
      congr 1
      simp only [Option.some.injEq, true_and, decide_eq_decide]
      exact eq_comm
    · rw [decide_eq_false (fun hno => ha hno.1), Bool.or_false, ho.others a' ha]
  · intro a' p hp
    rw [hout, Bool.and_eq_true] at hp
    rw [hpages]
    exact h.held a' p hp.1

/-- **One call**, of any kind, keeps the invariant. -/
theorem sound_step (h : Sound s) (hok : FreesOwn s op) : Sound (s.step op) := by
  rcases op.wants_or_frees with ⟨a, n, hw, hf⟩ | ⟨a, page, hf, hw⟩
  · rcases op.run_wants h.toPlaced hw with h0 | ⟨q, haddr, ht, ho⟩
    · exact sound_nothing h hf h0
    · have hin := ht.inside
      have hpos := ht.some_page
      rw [h.addr (by omega)] at haddr
      exact sound_takes h hw hf haddr ht ho
  · exact sound_frees h hf hw hok

/-! ## 5. Runs -/

/-- The pages of a bitmap lie inside the range it was made for. -/
theorem AreaRange.pages_le (r : AreaRange) :
    r.start + 4096 * (Bitmap.allFree (bitmapWords r.start r.end_)).pages ≤ r.end_ ∧
      (Bitmap.allFree (bitmapWords r.start r.end_)).pages ≤ 524288 := by
  obtain ⟨start, end_, hpos, hord, hin, hsmall⟩ := r
  have hsub : sub32 end_ start = end_ - start := sub32_of_le hord hin
  unfold Bitmap.pages Bitmap.allFree bitmapWords
  simp only [hsub]
  omega

theorem sound_start (k : Kernel) (phys stack : AreaRange) : Sound (Ledger.start k phys stack) where
  positive := by
    rintro (_ | _ | _)
    · exact phys.positive
    · exact (by decide : 0 < mmmStart)
    · exact stack.positive
  inside := by
    rintro (_ | _ | _)
    · exact phys.pages_le.1.trans (Nat.le_of_lt phys.inside)
    · exact (by decide : mmmStart + 4096 * (32 * bitmapWords mmmStart mmmEnd) ≤ 4294967296)
    · exact stack.pages_le.1.trans (Nat.le_of_lt stack.inside)
  small := by
    rintro (_ | _ | _)
    · exact phys.pages_le.2
    · exact (by decide : 32 * bitmapWords mmmStart mmmEnd ≤ 524288)
    · exact stack.pages_le.2
  agree := by
    rintro (_ | _ | _) p -
    all_goals exact isFree_allFree _ p
  held := fun a p h => absurd h (by simp [Ledger.start])

/-- Where the areas are does not change in a run. -/
structure SameAreas (k k' : Kernel) : Prop where
  base : ∀ a, k'.base a = k.base a
  words : ∀ a, (k'.bitmap a).words = (k.bitmap a).words

theorem sameAreas_step (h : Sound s) : SameAreas s.k (s.step op).k := by
  rcases op.wants_or_frees with ⟨a, n, hw, hf⟩ | ⟨a, page, hf, hw⟩
  · rcases op.run_wants h.toPlaced hw with h0 | ⟨q, -, -, ho⟩
    · have hk : (s.step op).k = s.k := by
        unfold Ledger.step
        rw [h0]
      rw [hk]
      exact ⟨fun _ => rfl, fun _ => rfl⟩
    · exact ⟨ho.base, ho.words_eq⟩
  · have ho : OnlyArea a s.k (s.step op).k := by
      unfold Ledger.step
      rw [AllocOp.run_frees hf]
      exact onlyArea_setBitmap rfl
    exact ⟨ho.base, ho.words_eq⟩

/-- The invariant of a run that starts with the areas of `k0`. -/
structure SoundFrom (k0 : Kernel) (s : Ledger) : Prop extends Sound s where
  same : SameAreas k0 s.k

theorem soundFrom_of_run {phys stack : AreaRange} {ops : List AllocOp}
    (hrun : Run (Guarded FreesOwn fun s op t => t = s.step op) (Ledger.start k phys stack) ops s) :
    SoundFrom (initAreas k phys stack) s := by
  refine hrun.invariant ?_ ⟨sound_start k phys stack, fun _ => rfl, fun _ => rfl⟩
  rintro s op t hs ⟨hok, rfl⟩
  have hstep : SameAreas s.k (s.step op).k := sameAreas_step hs.toSound
  exact ⟨sound_step hs.toSound hok, fun a => (hstep.base a).trans (hs.same.base a),
    fun a => (hstep.words a).trans (hs.same.words a)⟩

/-- **The allocators.**  In every run in which callers free only what they hold: the bit of a page
is set exactly when nobody holds the page, and whatever a call hands out next is a run of as many
pages as it asks for, inside the area, free, and held by nobody. -/
theorem allocators_sound (k : Kernel) (phys stack : AreaRange) {ops : List AllocOp}
    (hrun : Run (Guarded FreesOwn fun s op t => t = s.step op) (Ledger.start k phys stack) ops s) :
    SameAreas (initAreas k phys stack) s.k ∧
    (∀ a p, p < (s.k.bitmap a).pages → ((s.k.bitmap a).isFree p = true ↔ s.out a p = false)) ∧
    ∀ (op : AllocOp) a n, op.wants = some (a, n) → (op.run s.k).1 ≠ 0 →
      ∃ q, (op.run s.k).1 = s.k.base a + 4096 * q ∧
        (op.run s.k).1 + 4096 * n ≤ s.k.base a + 4096 * 32 * (s.k.bitmap a).words ∧
        ∀ p, q ≤ p → p < q + n → (s.k.bitmap a).isFree p = true ∧ s.out a p = false := by
  obtain ⟨hs, hsame⟩ := soundFrom_of_run hrun
  refine ⟨hsame, ?_, ?_⟩
  · intro a p hp
    rw [hs.agree a p hp, Bool.not_eq_true']
  · intro op a n hw hr
    obtain ⟨q, haddr, ht, -⟩ := hs.takes hw hr
    have hin := ht.inside
    unfold Bitmap.pages at hin
    refine ⟨q, haddr, by omega, ?_⟩
    intro p h1 h2
    have hfree := ht.free p h1 h2
    refine ⟨hfree, ?_⟩
    rwa [hs.agree a p (by unfold Bitmap.pages; omega), Bool.not_eq_true'] at hfree

/-- The machine of `bootKernel`, for the frames and the stacks. -/
def bootPhys : AreaRange := ⟨0x76500000, 0x80000000, by decide, by decide, by decide, by decide⟩
def bootStack : AreaRange := ⟨0xC6500000, 0xFFFFFFFF, by decide, by decide, by decide, by decide⟩

/-- Three mapable pages, the middle one freed, and two frames: the next single page is the middle
one again, and it was nobody's. -/
theorem allocators_sound_boot :
    ∃ s, Run (Guarded FreesOwn fun s op t => t = s.step op)
        (Ledger.start bootKernel bootPhys bootStack)
        [.mmmAllocatePages 3, .mmmFreePage 0x80001000, .pmmAllocatePages 2] s ∧
      (AllocOp.mmmAllocatePage.run s.k).1 = 0x80001000 ∧
      ∃ q, 0x80001000 = mmmStart + 4096 * q ∧ s.out .mmm q = false := by
  have hnot : ∀ s op, op.frees = none → FreesOwn s op := by
    intro s op hf a page h
    rw [hf] at h
    exact absurd h (by simp)
  have hrun : Run (Guarded FreesOwn fun s op t => t = s.step op)
      (Ledger.start bootKernel bootPhys bootStack)
      [.mmmAllocatePages 3, .mmmFreePage 0x80001000, .pmmAllocatePages 2]
      (exec Ledger.step (Ledger.start bootKernel bootPhys bootStack)
        [.mmmAllocatePages 3, .mmmFreePage 0x80001000, .pmmAllocatePages 2]) := by
    refine Run.cons ⟨hnot _ _ rfl, rfl⟩ (Run.cons ⟨?_, rfl⟩
      (Run.cons ⟨hnot _ _ rfl, rfl⟩ (Run.nil _)))
    intro a page h
    obtain ⟨rfl, rfl⟩ := Prod.mk.inj (Option.some.inj h)
    exact ⟨1, by decide +kernel, by decide +kernel⟩
  refine ⟨_, hrun, by decide +kernel, ?_⟩
  obtain ⟨q, haddr, -, hfree⟩ := (allocators_sound bootKernel bootPhys bootStack hrun).2.2
    .mmmAllocatePage .mmm 1 rfl (by decide +kernel)
  refine ⟨q, Eq.trans ?_ haddr, (hfree q (le_refl q) (by omega)).2⟩
  decide +kernel

end AndixOs.Mm
