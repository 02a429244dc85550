/-
# The heap of a process

A process moves the end of its heap with `swi_sbrk`, from the page behind its image up to the space of its
threads.  The call counts the pages to map from the last byte of the page in which the old end lies: it
takes that page for mapped, but maps the first new page there.  So it never maps the page of an end that
is no page boundary, and where this page is mapped already, because the heap was larger before, it ends in
a `kpanic`.

The heap is right exactly in the runs in which a call that passes a page boundary begins where nothing is
mapped, and every call ends at a page boundary or in a page that is mapped (`heap_right_iff`).
-/
import AndixOs.Lib.Run
import AndixOs.Loader.Heap
import AndixOs.Task.UserThreads

namespace AndixOs.Swi

open AndixOs AndixOs.Mm AndixOs.Task

/-! ## 1. `swi_sbrk` -/

/-- A process with its heap; `start` is the first value of `vheap`, for the record. -/
structure UserHeap where
  k : Kernel
  start : Nat
  vheap : Nat

def UserHeap.table (s : UserHeap) : PageTable := s.k.proc.vuserPD

/-- The description of a page. -/
def sbrkInfo (paddr vaddr : Nat) : KernelMemInfo :=
  { vaddr := vaddr, paddr := paddr, ap := apSvcRwUsrRw, execute := execNon, bufferable := 1,
    cacheable := 1, domain := 0, nonsecure := 0, shareable := 0, tex := 0, type := .smallPage }

/-- A number in an `int32_t`. -/
def int32 (x : Int) : Int := x.bmod 4294967296

/-- The page table of the process is another one. -/
def withTable (k : Kernel) (t : PageTable) : Kernel := { k with proc := { k.proc with vuserPD := t } }

/-- The loop of `swi_sbrk`; `none` for `kpanic`. -/
def sbrkLoop : Nat → Int → Nat → Kernel → Option Kernel
  | 0, _, _, _ => none
  | fuel + 1, tmpIncr, heap, k =>
    if 0 < tmpIncr then
      let virtualPageAddr := w32 (heap / 0x1000 * 0x1000 + 0x1000 - 1)
      match pmmAllocatePage k with
      | (physicalPageAddr, k) =>
        if physicalPageAddr = 0 then none
        else
          match mapMemoryV k.proc.vuserPD (sbrkInfo physicalPageAddr virtualPageAddr) with
          | (r, t) =>
            if r ≠ 0 then none
            else sbrkLoop fuel (tmpIncr - 0x1000) (w32 (heap + 0x1000)) (withTable k t)
    else some k

/-- The end of the heap after a call. -/
def UserHeap.after (s : UserHeap) (incr : Int) : Nat := ((s.vheap + incr) % 4294967296).toNat

/-- `swi_sbrk`; `none` for `kpanic`.  Every round takes `0x1000` from `tmp_incr`. -/
def swiSbrk (s : UserHeap) (incr : Int) : Option UserHeap :=
  let leftOnPage : Nat := 0xFFF - s.vheap % 0x1000
  let tmpIncr := int32 (incr - leftOnPage)
  (sbrkLoop (tmpIncr.toNat + 1) tmpIncr s.vheap s.k).map fun k => ⟨k, s.start, s.after incr⟩

/-! ## 2. Runs -/

/-- The allocator has so many pages. -/
def PagesAvailable (base : Nat) : Nat → Bitmap → Prop
  | 0, _ => True
  | n + 1, b => (allocatePage b base).1 ≠ 0 ∧ PagesAvailable base n (allocatePage b base).2

/-- The pages whose first byte a call adds to the heap. -/
def UserHeap.newPages (s : UserHeap) (incr : Int) : Nat := s.after incr / 0x1000 - s.vheap / 0x1000

/-- A call of the process, and what the rest of the kernel does. -/
inductive HeapCall where
  | sbrk (incr : Int)
  | other (k : Kernel)

/-- One call; `none` is a kernel that has panicked.  The end of the heap stays between its start and the
space of the threads, and there is memory.  The rest of the kernel leaves the pages in between alone. -/
inductive HeapStep : Option UserHeap → HeapCall → Option UserHeap → Prop where
  | sbrk {s : UserHeap} {incr : Int} :
    (s.start : Int) ≤ s.vheap + incr → s.vheap + incr ≤ threadVmemStart →
      PagesAvailable s.k.physStart (s.newPages incr) s.k.pmm →
      HeapStep (some s) (.sbrk incr) (swiSbrk s incr)
  | other {s : UserHeap} {k : Kernel} :
    (∀ va, s.start ≤ va → va < threadVmemStart → walk k.proc.vuserPD va = walk s.table va) →
      HeapStep (some s) (.other k) (some { s with k := k })

/-- The process can read and write every byte of its heap, and what was mapped before is mapped where it
was. -/
structure HeapRight (s t : UserHeap) : Prop where
  covered : ∀ va, t.start ≤ va → va < t.vheap →
    ∃ l, walk t.table va = some l ∧ l.usrReads = true ∧ l.usrWrites = true
  once : ∀ va l, s.start ≤ va → va < threadVmemStart → walk s.table va = some l →
    walk t.table va = some l

/-- The call came back, and the heap is right. -/
def CallRight (s : Option UserHeap) (_ : HeapCall) (t : Option UserHeap) : Prop :=
  ∃ s' t', s = some s' ∧ t = some t' ∧ HeapRight s' t'

/-- The page of an address is mapped. -/
def UserHeap.mapped (s : UserHeap) (va : Nat) : Prop := walk s.table va ≠ none

/-- A call that passes a page boundary begins where nothing is mapped and ends at a page boundary; any
other call ends at a page boundary or in a page that is mapped. -/
def UserHeap.Fits (s : UserHeap) (incr : Int) : Prop :=
  if s.vheap / 0x1000 < s.after incr / 0x1000 then ¬s.mapped s.vheap ∧ s.after incr % 0x1000 = 0
  else s.after incr % 0x1000 = 0 ∨ s.mapped (s.after incr)

def fits (s : Option UserHeap) : HeapCall → Prop
  | .sbrk incr => ∀ s' ∈ s, s'.Fits incr
  | .other _ => True

/-- A heap as it is when the process is loaded: it is empty, begins with a page, and nothing is mapped
from there up to the threads. -/
structure FreshHeap where
  k : Kernel
  start : Nat
  aligned : start % 0x1000 = 0
  unmapped : ∀ va, start ≤ va → va < threadVmemStart → walk k.proc.vuserPD va = none

def FreshHeap.heap (h : FreshHeap) : UserHeap := ⟨h.k, h.start, h.start⟩

/-- The heap that `setup_elf` leaves behind an image. -/
def FreshHeap.ofImage (b : Loader.Bytes32) (payload size : Nat) (l : Loader.LoadState)
    (hempty : l.kernel.proc.vuserPD = emptyTable) : FreshHeap where
  k := (Loader.setupElf b payload size l).2.kernel
  start := (Loader.setupElf b payload size l).2.vheap
  aligned := (Loader.setupElf_heap b payload size hempty).aligned
  unmapped va h _ := (Loader.setupElf_heap b payload size hempty).unmapped va h

variable {s : UserHeap} {k k' : Kernel} {t : PageTable} {heap n hi fuel : Nat} {tmpIncr incr : Int}

/-! ## 3. The loop -/

/-- What the loop leaves: these pages are mapped for the process, and the others are as they were. -/
structure Grown (k k' : Kernel) (first n : Nat) : Prop where
  rights : ∀ va, first ≤ va / 0x1000 → va / 0x1000 < first + n →
    ∃ l, walk k'.proc.vuserPD va = some l ∧ l.attr.ap = apSvcRwUsrRw
  frame : ∀ va, va / 0x1000 < first ∨ first + n ≤ va / 0x1000 →
    walk k'.proc.vuserPD va = walk k.proc.vuserPD va

theorem Grown.refl (k : Kernel) (first : Nat) : Grown k k first 0 :=
  ⟨fun _ h1 h2 => absurd h2 (by omega), fun _ _ => rfl⟩

/-- One page, and the others behind it. -/
theorem Grown.cons {k₁ : Kernel} {first : Nat} (h : Grown k k₁ first 1)
    (h' : Grown k₁ k' (first + 1) n) : Grown k k' first (n + 1) where
  rights va h1 h2 := by
    by_cases hva : va / 0x1000 = first
    · rw [h'.frame va (.inl (by omega))]
      exact h.rights va (by omega) (by omega)
    · exact h'.rights va (by omega) (by omega)
  frame va hva := by
    rw [h'.frame va (by omega), h.frame va (by omega)]

/-- A page that the loop maps. -/
theorem mapMemoryV_grown (k : Kernel) (paddr : Nat) {vaddr : Nat}
    (hnone : walk k.proc.vuserPD vaddr = none) :
    (mapMemoryV k.proc.vuserPD (sbrkInfo paddr vaddr)).1 = 0 ∧
      ∀ b, Grown k (withTable { k with pmm := b } (mapMemoryV k.proc.vuserPD (sbrkInfo paddr vaddr)).2)
        (vaddr / 0x1000) 1 := by
  obtain ⟨hzero, hwalk⟩ := mapMemoryV_small (s := sbrkInfo paddr vaddr) rfl hnone
  refine ⟨hzero, fun b => ⟨fun va h1 h2 => ?_, fun va hva => ?_⟩⟩
  · have hpage : va / 0x1000 = vaddr / 0x1000 := by omega
    exact ⟨_, (hwalk va).trans (if_pos hpage), rfl⟩
  · have hpage : ¬va / 0x1000 = vaddr / 0x1000 := by omega
    exact (hwalk va).trans (if_neg hpage)

/-- **The loop**, where `n` pages are to be mapped and are not. -/
theorem sbrkLoop_grown (hfuel : n < fuel) (hle : tmpIncr ≤ 0x1000 * n)
    (hlt : 0x1000 * (n : Int) < tmpIncr + 0x1000 ∨ n = 0) (htop : heap / 0x1000 + n ≤ 0x60000)
    (hnone : ∀ va, heap / 0x1000 ≤ va / 0x1000 → va / 0x1000 < heap / 0x1000 + n →
      walk k.proc.vuserPD va = none)
    (havail : PagesAvailable k.physStart n k.pmm) :
    ∃ k', sbrkLoop fuel tmpIncr heap k = some k' ∧ Grown k k' (heap / 0x1000) n := by
  induction n generalizing fuel tmpIncr heap k with
  | zero =>
    obtain ⟨fuel, rfl⟩ := Nat.exists_eq_succ_of_ne_zero (Nat.ne_of_gt hfuel)
    rw [sbrkLoop, if_neg (by omega)]
    exact ⟨k, rfl, .refl k _⟩
  | succ n ih =>
    obtain ⟨fuel, rfl⟩ := Nat.exists_eq_succ_of_ne_zero (Nat.ne_of_gt (Nat.zero_lt_of_lt hfuel))
    obtain ⟨hframe, hrest⟩ := havail
    have hvaddr : w32 (heap / 0x1000 * 0x1000 + 0x1000 - 1) = heap / 0x1000 * 0x1000 + 0xFFF :=
      w32_of_lt (by omega)
    have hheap : w32 (heap + 0x1000) = heap + 0x1000 := w32_of_lt (by omega)
    have hpage : (heap / 0x1000 * 0x1000 + 0xFFF) / 0x1000 = heap / 0x1000 := by omega
    have hnext : (heap + 0x1000) / 0x1000 = heap / 0x1000 + 1 := by omega
    obtain ⟨hzero, hgrown⟩ := mapMemoryV_grown k (allocatePage k.pmm k.physStart).1
      (hnone (heap / 0x1000 * 0x1000 + 0xFFF) (by omega) (by omega))
    have hone := hgrown (allocatePage k.pmm k.physStart).2
    rw [hpage] at hone
    rw [sbrkLoop, if_pos (by omega)]
    simp only [pmmAllocatePage, if_neg hframe, hvaddr, hheap, hzero, ne_eq, not_true_eq_false, if_false]
    have hfree : ∀ va, (heap + 0x1000) / 0x1000 ≤ va / 0x1000 →
        va / 0x1000 < (heap + 0x1000) / 0x1000 + n →
        walk (withTable { k with pmm := (allocatePage k.pmm k.physStart).2 }
          (mapMemoryV k.proc.vuserPD (sbrkInfo (allocatePage k.pmm k.physStart).1
            (heap / 0x1000 * 0x1000 + 0xFFF))).2).proc.vuserPD va = none := by
      intro va h1 h2
      rw [hone.frame va (by omega)]
      exact hnone va (by omega) (by omega)
    have hle' : tmpIncr - 0x1000 ≤ 0x1000 * (n : Int) := by omega
    have hlt' : 0x1000 * (n : Int) < tmpIncr - 0x1000 + 0x1000 ∨ n = 0 := by omega
    obtain ⟨k', hloop, hmore⟩ := ih (Nat.lt_of_succ_lt_succ hfuel) hle' hlt' (by omega) hfree hrest
    rw [hnext] at hmore
    exact ⟨k', hloop, hone.cons hmore⟩

/-- Where the first page is mapped already, the kernel panics. -/
theorem sbrkLoop_mapped (hpos : 0 < tmpIncr) (hheap : heap < threadVmemStart)
    (hmapped : walk k.proc.vuserPD heap ≠ none) : sbrkLoop (fuel + 1) tmpIncr heap k = none := by
  have hvaddr : w32 (heap / 0x1000 * 0x1000 + 0x1000 - 1) = heap / 0x1000 * 0x1000 + 0xFFF :=
    w32_of_lt (by rw [threadVmemStart] at hheap; omega)
  have hpage : walk k.proc.vuserPD (heap / 0x1000 * 0x1000 + 0xFFF) ≠ none := fun hnone =>
    hmapped (walk_none_page hnone (by omega))
  rw [sbrkLoop, if_pos hpos]
  simp only [pmmAllocatePage, hvaddr]
  split
  · rfl
  · rw [mapMemoryV_mapped rfl hpage]
    rfl

/-! ## 4. One call -/

/-- The break comes to lie from the first break on, and not in the memory of the threads. -/
structure InRange (s : UserHeap) (incr : Int) : Prop where
  low : (s.start : Int) ≤ s.vheap + incr
  high : s.vheap + incr ≤ threadVmemStart

theorem InRange.after_eq (h : InRange s incr) : (s.after incr : Int) = s.vheap + incr := by
  have hhigh := h.high
  have hlow := h.low
  rw [threadVmemStart] at hhigh
  rw [UserHeap.after]
  omega

/-- The pages of a heap, between its start and the threads: those up to page `hi` are mapped, for the
process to read and write, and these are all pages in use. -/
structure HeapInv (s : UserHeap) (hi : Nat) : Prop where
  aligned : s.start % 0x1000 = 0
  low : s.start ≤ s.vheap
  high : s.vheap ≤ threadVmemStart
  covers : s.vheap ≤ 0x1000 * hi
  none_iff : ∀ va, s.start ≤ va → va < threadVmemStart →
    (walk s.table va = none ↔ hi ≤ va / 0x1000)
  rights : ∀ va l, s.start ≤ va → va < threadVmemStart → walk s.table va = some l →
    l.attr.ap = apSvcRwUsrRw

theorem FreshHeap.inv (h : FreshHeap) (htop : h.start ≤ threadVmemStart) :
    HeapInv h.heap (h.start / 0x1000) where
  aligned := h.aligned
  low := le_refl _
  high := htop
  covers := by
    have haligned := h.aligned
    exact le_of_eq (show h.start = 0x1000 * (h.start / 0x1000) by omega)
  none_iff va h1 h2 := iff_of_true (h.unmapped va h1 h2) (Nat.div_le_div_right h1)
  rights va l h1 h2 hl := absurd ((h.unmapped va h1 h2).symm.trans hl) nofun

/-- A heap that is in order is covered. -/
theorem HeapInv.covered (h : HeapInv s hi) {va : Nat} (h1 : s.start ≤ va) (h2 : va < s.vheap) :
    ∃ l, walk s.table va = some l ∧ l.usrReads = true ∧ l.usrWrites = true := by
  have hne : walk s.table va ≠ none := fun hnone => by
    have hle := (h.none_iff va h1 (Nat.lt_of_lt_of_le h2 h.high)).mp hnone
    have hcov := h.covers
    omega
  obtain ⟨l, hl⟩ := Option.ne_none_iff_exists'.mp hne
  have hap := h.rights va l h1 (Nat.lt_of_lt_of_le h2 h.high) hl
  refine ⟨l, hl, ?_, ?_⟩
  · rw [Leaf.usrReads, hap]
    rfl
  · rw [Leaf.usrWrites, hap]
    rfl

/-- The count of the loop. -/
theorem int32_incr (h : HeapInv s hi) (hr : InRange s incr) :
    int32 (incr - (0xFFF - s.vheap % 0x1000 : Nat)) = incr - (0xFFF - s.vheap % 0x1000 : Nat) := by
  have h1 := hr.low
  have h2 := hr.high
  have h3 := h.high
  rw [threadVmemStart] at h2 h3
  rw [int32, Int.bmod]
  omega

/-- **A call that passes no page boundary** maps nothing. -/
theorem swiSbrk_inside (h : HeapInv s hi) (hr : InRange s incr)
    (hle : s.after incr / 0x1000 ≤ s.vheap / 0x1000) :
    swiSbrk s incr = some ⟨s.k, s.start, s.after incr⟩ := by
  have hafter := hr.after_eq
  have hneg : ¬0 < int32 (incr - (0xFFF - s.vheap % 0x1000 : Nat)) := by
    rw [int32_incr h hr]
    omega
  rw [swiSbrk]
  simp only [sbrkLoop, if_neg hneg]
  rfl

/-- **A call that passes one** where nothing is mapped maps the pages from there on. -/
theorem swiSbrk_grown (h : HeapInv s hi) (hr : InRange s incr)
    (hlt : s.vheap / 0x1000 < s.after incr / 0x1000) (hfree : hi ≤ s.vheap / 0x1000)
    (havail : PagesAvailable s.k.physStart (s.newPages incr) s.k.pmm) :
    ∃ k', swiSbrk s incr = some ⟨k', s.start, s.after incr⟩ ∧
      Grown s.k k' (s.vheap / 0x1000) (s.newPages incr) := by
  have hafter := hr.after_eq
  have hhigh := hr.high
  have hlow := h.low
  have haligned := h.aligned
  rw [threadVmemStart] at hhigh
  have hint := int32_incr h hr
  have hn : s.newPages incr = s.after incr / 0x1000 - s.vheap / 0x1000 := rfl
  have hnone : ∀ va, s.vheap / 0x1000 ≤ va / 0x1000 →
      va / 0x1000 < s.vheap / 0x1000 + s.newPages incr → walk s.k.proc.vuserPD va = none := by
    intro va h1 h2
    have htop : va < threadVmemStart := by
      rw [threadVmemStart]
      omega
    exact (h.none_iff va (by omega) htop).mpr (by omega)
  have hfuel : s.newPages incr < (incr - (0xFFF - s.vheap % 0x1000 : Nat)).toNat + 1 := by omega
  have hle : incr - (0xFFF - s.vheap % 0x1000 : Nat) ≤ 0x1000 * (s.newPages incr : Int) := by omega
  have hlast : 0x1000 * (s.newPages incr : Int) < incr - (0xFFF - s.vheap % 0x1000 : Nat) + 0x1000 := by
    omega
  obtain ⟨k', hloop, hgrown⟩ := sbrkLoop_grown hfuel hle (.inl hlast) (by omega) hnone havail
  refine ⟨k', ?_, hgrown⟩
  rw [swiSbrk]
  simp only [hint, hloop]
  rfl

/-- **A call that passes one** where a page is mapped panics. -/
theorem swiSbrk_panics (h : HeapInv s hi) (hr : InRange s incr)
    (hlt : s.vheap / 0x1000 < s.after incr / 0x1000) (hmapped : s.mapped s.vheap) :
    swiSbrk s incr = none := by
  have hafter := hr.after_eq
  have hhigh := hr.high
  rw [threadVmemStart] at hhigh
  have hpos : 0 < int32 (incr - (0xFFF - s.vheap % 0x1000 : Nat)) := by
    rw [int32_incr h hr]
    omega
  rw [swiSbrk]
  simp only [sbrkLoop_mapped hpos (by rw [threadVmemStart]; omega) hmapped]
  rfl

/-! ## 5. What a call makes of the heap -/

theorem HeapInv.mapped_iff (h : HeapInv s hi) {va : Nat} (h1 : s.start ≤ va) (h2 : va < threadVmemStart) :
    s.mapped va ↔ va / 0x1000 < hi := by
  rw [UserHeap.mapped, ne_eq, h.none_iff va h1 h2, Nat.not_le]

/-- The heap after a call that maps nothing. -/
theorem HeapInv.moved (h : HeapInv s hi) (hr : InRange s incr)
    (hcovers : s.after incr ≤ 0x1000 * hi) : HeapInv ⟨s.k, s.start, s.after incr⟩ hi where
  aligned := h.aligned
  low := by
    have := hr.after_eq
    have := hr.low
    dsimp only
    omega
  high := by
    have := hr.after_eq
    have := hr.high
    dsimp only
    omega
  covers := hcovers
  none_iff := h.none_iff
  rights := h.rights

/-- The heap after a call that maps the pages up to its new end. -/
theorem HeapInv.grown (h : HeapInv s hi) (hr : InRange s incr) (hhi : hi = s.vheap / 0x1000)
    (hlt : s.vheap / 0x1000 < s.after incr / 0x1000) (hend : s.after incr % 0x1000 = 0)
    (hgrown : Grown s.k k' (s.vheap / 0x1000) (s.newPages incr)) :
    HeapInv ⟨k', s.start, s.after incr⟩ (s.after incr / 0x1000) where
  aligned := h.aligned
  low := by
    have hafter := hr.after_eq
    have hlow := hr.low
    dsimp only
    omega
  high := by
    have hafter := hr.after_eq
    have hhigh := hr.high
    dsimp only
    omega
  covers := le_of_eq (show s.after incr = 0x1000 * (s.after incr / 0x1000) by omega)
  none_iff va h1 h2 := by
    have hn : s.newPages incr = s.after incr / 0x1000 - s.vheap / 0x1000 := rfl
    have hold := h.none_iff va h1 h2
    by_cases hin : s.vheap / 0x1000 ≤ va / 0x1000 ∧ va / 0x1000 < s.after incr / 0x1000
    · obtain ⟨l, hl, -⟩ := hgrown.rights va hin.1 (by omega)
      exact iff_of_false (fun hnone => absurd (hl.symm.trans hnone) nofun) (by omega)
    · have hsame : walk k'.proc.vuserPD va = walk s.table va := hgrown.frame va (by omega)
      rw [UserHeap.table, hsame, hold]
      omega
  rights va l h1 h2 hl := by
    have hn : s.newPages incr = s.after incr / 0x1000 - s.vheap / 0x1000 := rfl
    by_cases hin : s.vheap / 0x1000 ≤ va / 0x1000 ∧ va / 0x1000 < s.after incr / 0x1000
    · obtain ⟨l', hl', hap⟩ := hgrown.rights va hin.1 (by omega)
      obtain rfl := Option.some.inj (hl.symm.trans hl')
      exact hap
    · have hsame : walk k'.proc.vuserPD va = walk s.table va := hgrown.frame va (by omega)
      exact h.rights va l h1 h2 (hsame.symm.trans hl)

/-- Between calls. -/
def HeapsInv (s : Option UserHeap) : Prop := ∃ s' hi, s = some s' ∧ HeapInv s' hi

theorem HeapInv.right {s' : UserHeap} {hi' : Nat} (h : HeapInv s' hi')
    (honce : ∀ va l, s.start ≤ va → va < threadVmemStart → walk s.table va = some l →
      walk s'.table va = some l) (a : HeapCall) :
    HeapsInv (some s') ∧ CallRight (some s) a (some s') :=
  ⟨⟨s', hi', rfl, h⟩, s, s', rfl, rfl, fun _ => h.covered, honce⟩

/-- **A call that fits.** -/
theorem sbrk_right (h : HeapInv s hi) (hr : InRange s incr)
    (havail : PagesAvailable s.k.physStart (s.newPages incr) s.k.pmm) (hfits : s.Fits incr) :
    HeapsInv (swiSbrk s incr) ∧ CallRight (some s) (.sbrk incr) (swiSbrk s incr) := by
  have hafter := hr.after_eq
  have hlow := hr.low
  have hhigh := hr.high
  have hcovers := h.covers
  rw [UserHeap.Fits] at hfits
  split at hfits
  · rename_i hlt
    obtain ⟨hfree, hend⟩ := hfits
    have hhi : hi ≤ s.vheap / 0x1000 := by
      rw [h.mapped_iff h.low (by omega)] at hfree
      omega
    obtain ⟨k', heq, hgrown⟩ := swiSbrk_grown h hr hlt hhi havail
    rw [heq]
    refine (h.grown hr (by omega) hlt hend hgrown).right (fun va l h1 h2 hl => ?_) _
    have hmapped : va / 0x1000 < hi :=
      (h.mapped_iff h1 h2).mp fun hnone => absurd (hnone.symm.trans hl) nofun
    exact (hgrown.frame va (.inl (by omega))).trans hl
  · rename_i hle
    rw [swiSbrk_inside h hr (by omega)]
    refine (h.moved hr ?_).right (fun va l _ _ (hl : walk s.table va = some l) => hl) _
    obtain hend | hmapped := hfits
    · omega
    · by_cases htop : s.after incr < threadVmemStart
      · rw [h.mapped_iff (by omega) htop] at hmapped
        omega
      · rw [threadVmemStart] at htop hhigh
        omega

/-- **A call that does not fit.** -/
theorem sbrk_wrong (h : HeapInv s hi) (hr : InRange s incr)
    (havail : PagesAvailable s.k.physStart (s.newPages incr) s.k.pmm) (hfits : ¬s.Fits incr) :
    ¬CallRight (some s) (.sbrk incr) (swiSbrk s incr) := by
  have hafter := hr.after_eq
  have hlow := hr.low
  have hhigh := hr.high
  have hcovers := h.covers
  have haligned := h.aligned
  have hlast : ∀ t : UserHeap, t.start = s.start → t.vheap = s.after incr →
      s.after incr % 0x1000 ≠ 0 → walk t.table (s.after incr - 1) = none →
      ¬CallRight (some s) (.sbrk incr) (some t) := by
    rintro t hstart hvheap hend hnone ⟨_, t', -, ht, hright⟩
    obtain rfl := Option.some.inj ht
    obtain ⟨l, hl, -⟩ := hright.covered (s.after incr - 1) (by omega) (by omega)
    exact absurd (hnone.symm.trans hl) nofun
  rw [UserHeap.Fits] at hfits
  split at hfits
  · rename_i hlt
    by_cases hmapped : s.mapped s.vheap
    · rw [swiSbrk_panics h hr hlt hmapped]
      rintro ⟨_, t', -, ht, -⟩
      exact absurd ht nofun
    · -- the last byte lies behind the pages that were mapped
      have hend : s.after incr % 0x1000 ≠ 0 := fun hend => hfits ⟨hmapped, hend⟩
      have hn : s.newPages incr = s.after incr / 0x1000 - s.vheap / 0x1000 := rfl
      rw [h.mapped_iff h.low (by omega)] at hmapped
      obtain ⟨k', heq, hgrown⟩ := swiSbrk_grown h hr hlt (by omega) havail
      rw [heq]
      refine hlast _ rfl rfl hend ((hgrown.frame _ (.inr (by omega))).trans ?_)
      exact (h.none_iff _ (by omega) (by omega)).mpr (by omega)
  · rename_i hle
    obtain ⟨hend, hmapped⟩ := not_or.mp hfits
    rw [swiSbrk_inside h hr (by omega)]
    refine hlast _ rfl rfl hend ?_
    have hnone : walk s.table (s.after incr) = none := not_not.mp hmapped
    exact walk_none_page hnone (by omega)

/-- **The other calls** leave the heap alone. -/
theorem other_right (h : HeapInv s hi)
    (hsame : ∀ va, s.start ≤ va → va < threadVmemStart → walk k.proc.vuserPD va = walk s.table va) :
    HeapsInv (some { s with k := k }) ∧ CallRight (some s) (.other k) (some { s with k := k }) := by
  have hnext : HeapInv { s with k := k } hi :=
    ⟨h.aligned, h.low, h.high, h.covers, fun va h1 h2 => hsame va h1 h2 ▸ h.none_iff va h1 h2,
      fun va l h1 h2 hl => h.rights va l h1 h2 ((hsame va h1 h2).symm.trans hl)⟩
  exact hnext.right (fun va l h1 h2 hl => (hsame va h1 h2).trans hl) _

/-- An image that reaches into the space of the threads leaves no room for a heap. -/
def NoRoom (s : Option UserHeap) : Prop :=
  ∃ s', s = some s' ∧ threadVmemStart < s'.start ∧ s'.vheap = s'.start

theorem noRoom_step {s t : Option UserHeap} {a : HeapCall} (h : NoRoom s) (hstep : HeapStep s a t) :
    NoRoom t ∧ CallRight s a t ∧ fits s a := by
  obtain ⟨s', rfl, hstart, hvheap⟩ := h
  cases hstep with
  | sbrk hlow hhigh _ => exact absurd (hlow.trans hhigh) (by omega)
  | other _ =>
    refine ⟨⟨_, rfl, hstart, hvheap⟩,
      ⟨s', _, rfl, rfl, fun va h1 h2 => ?_, fun va l h1 h2 _ => ?_⟩, trivial⟩
    · dsimp only at h1 h2
      omega
    · omega

/-! ## 6. Every run -/

/-- **The runs in which the heap is right** are those of calls that fit. -/
theorem heap_right_iff (h : FreshHeap) (as : List HeapCall) (t : Option UserHeap) :
    Run (fun s a t => HeapStep s a t ∧ CallRight s a t) (some h.heap) as t ↔
      Run (Guarded fits HeapStep) (some h.heap) as t := by
  by_cases htop : h.start ≤ threadVmemStart
  · refine Run.decided_iff HeapsInv ?_ ?_ ⟨h.heap, _, rfl, h.inv htop⟩
    · rintro _ a t ⟨s, hi, rfl, hinv⟩ hstep hfits
      cases hstep with
      | sbrk hlow hhigh havail => exact sbrk_right hinv ⟨hlow, hhigh⟩ havail (hfits s rfl)
      | other hsame => exact other_right hinv hsame
    · rintro _ a t ⟨s, hi, rfl, hinv⟩ hstep hfits
      cases hstep with
      | sbrk hlow hhigh havail =>
        refine sbrk_wrong hinv ⟨hlow, hhigh⟩ havail fun hs => hfits fun s' hs' => ?_
        rwa [← Option.some.inj hs']
      | other _ => exact absurd trivial hfits
  · refine Run.decided_iff NoRoom ?_ ?_ ⟨h.heap, rfl, Nat.lt_of_not_le htop, rfl⟩
    · exact fun s a t hs hstep _ => ⟨(noRoom_step hs hstep).1, (noRoom_step hs hstep).2.1⟩
    · exact fun s a t hs hstep hfits => absurd (noRoom_step hs hstep).2.2 hfits

/-! ## 7. Two runs -/

/-- A process with a page of code and no heap yet. -/
def emptyHeap : FreshHeap where
  k := { bootKernel with
    proc := { bootKernel.proc with vuserPD := (mapMemoryV emptyTable (sbrkInfo 0x76500000 0x8000)).2 } }
  start := 0x9000
  aligned := by decide
  unmapped va h1 _ := by
    have hnone : walk emptyTable (sbrkInfo 0x76500000 0x8000).vaddr = none := rfl
    rw [(mapMemoryV_small rfl hnone).2 va]
    exact if_neg (show ¬va / 0x1000 = 0x8000 / 0x1000 by omega)

/-- The process after its heap grew by two pages. -/
def twoPages : UserHeap := (swiSbrk emptyHeap.heap 0x2000).get (by decide +kernel)

/-- And after it shrank by one. -/
def onePageLess : UserHeap := (swiSbrk twoPages (-0x1000)).get (by decide +kernel)

theorem heapStep_of_eq {r : Option UserHeap} (heq : swiSbrk s incr = r) (hr : InRange s incr)
    (havail : PagesAvailable s.k.physStart (s.newPages incr) s.k.pmm) : HeapStep (some s) (.sbrk incr) r :=
  heq ▸ .sbrk hr.low hr.high havail

/-- **Sixteen bytes** are given to the process, and none of them is mapped; and a heap of two pages that
shrinks and grows again ends in a panic. -/
theorem heap_not_right :
    (∃ t, HeapStep (some emptyHeap.heap) (.sbrk 16) (some t) ∧ t.vheap = 0x9010 ∧
      walk t.table 0x9000 = none ∧ ¬CallRight (some emptyHeap.heap) (.sbrk 16) (some t)) ∧
    Run HeapStep (some emptyHeap.heap) [.sbrk 0x2000, .sbrk (-0x1000), .sbrk 0x1000] none := by
  have hinv := emptyHeap.inv (by decide)
  refine ⟨⟨⟨emptyHeap.k, 0x9000, 0x9010⟩, ?_, rfl,
    emptyHeap.unmapped _ (le_refl _) (by decide), ?_⟩, ?_⟩
  · have hr : InRange emptyHeap.heap 16 := ⟨by decide, by decide⟩
    exact heapStep_of_eq (swiSbrk_inside hinv hr (by decide)) hr trivial
  · rintro ⟨s, t, -, ht, hright⟩
    obtain rfl := Option.some.inj ht
    obtain ⟨l, hl, -⟩ := hright.covered 0x9000 (le_refl _) (by decide)
    exact absurd ((emptyHeap.unmapped _ (le_refl _) (by decide)).symm.trans hl) nofun
  · have hgrow : swiSbrk emptyHeap.heap 0x2000 = some twoPages := (Option.some_get _).symm
    have hshrink : swiSbrk twoPages (-0x1000) = some onePageLess := (Option.some_get _).symm
    have hpanic : swiSbrk onePageLess 0x1000 = none := by
      have hnone : (swiSbrk onePageLess 0x1000).isNone = true := by decide +kernel
      exact Option.isNone_iff_eq_none.mp hnone
    have hfirst : (allocatePage emptyHeap.k.pmm emptyHeap.k.physStart).1 ≠ 0 := by decide +kernel
    have hsecond : (allocatePage (allocatePage emptyHeap.k.pmm emptyHeap.k.physStart).2
        emptyHeap.k.physStart).1 ≠ 0 := by decide +kernel
    have hthird : (allocatePage onePageLess.k.pmm onePageLess.k.physStart).1 ≠ 0 := by decide +kernel
    have hsteps := heapStep_of_eq hgrow ⟨by decide, by decide⟩ ⟨hfirst, hsecond, trivial⟩
    have hnew : twoPages.newPages (-0x1000) = 0 := by decide +kernel
    have hnew' : onePageLess.newPages 0x1000 = 1 := by decide +kernel
    refine .cons hsteps (.cons (heapStep_of_eq hshrink ⟨by decide +kernel, by decide +kernel⟩ ?_)
      (.cons (heapStep_of_eq hpanic ⟨by decide +kernel, by decide +kernel⟩ ?_) (.nil _)))
    · rw [hnew]
      trivial
    · rw [hnew']
      exact ⟨hthird, trivial⟩

end AndixOs.Swi
