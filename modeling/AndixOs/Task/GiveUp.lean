/-
# Threads that cannot be created

`create_user_thread` gives up where the structure of the thread, a page of its TLS or a page of its
stack cannot be allocated.  It then frees the structure and calls `release_thread_block`, which
unmaps the block page by page and frees what `unmap_memory_from_pd` returns.

Three things stay behind.  The kernel stack that `create_kernel_thread` has mapped is in no block and
in no structure.  `release_thread_block` passes `userPD`, the physical address of the table, where
the virtual address `vuserPD` is meant: it works on what lies at this address for the process, and
the pages that were mapped stay mapped.  The coarse tables that the mappings needed stay allocated.
So a call that gives up leaves everything as it was only where it has got no page yet, or where the
memory at `userPD` happens to make up for it (`create_gives_back_iff`).
-/
import AndixOs.Task.UserThreads
import AndixOs.Mm.Allocators
import AndixOs.Mm.FirstFit
import AndixOs.Mm.MapMemory
import AndixOs.Mm.Unmap
import Mathlib.Algebra.Order.BigOperators.Group.List

namespace AndixOs.Task

open AndixOs AndixOs.Mm

/-! ## 1. `smm.c`, `thread.c` and `user_process.c` -/

def kernelStackSize : Nat := 0x4000

/-- What `kmalloc` returns for a thread and `kmalloc_align` for a coarse table, by the blocks that
are allocated.  Neither gives away a block that is allocated; for a coarse table there is memory. -/
structure Blocks where
  thread : List Nat → Option Nat
  table : List Nat → Nat
  thread_fresh : ∀ {live b}, thread live = some b → b ∉ live
  table_fresh : ∀ live, table live ∉ live

/-- What a process and the kernel have.

* `live`: the blocks of the kernel's heap that are allocated
* `atUserPD`: what lies at the virtual address `userPD`, read as a table; `none` where an access to
  it ends in a data abort.  It is memory of its own: the process's table is mapped at `vuserPD`. -/
structure Resources where
  k : Kernel
  tls : TlsTemplate
  live : List Nat
  atUserPD : Option PageTable

/-- The blocks that are allocated after a page is mapped at `va`: a megabyte with nothing in it gets
a coarse table. -/
def coarseBlocks (a : Blocks) (t : PageTable) (va : Nat) (live : List Nat) : List Nat :=
  match t (l1Index va) with
  | .fault => a.table live :: live
  | _ => live

/-- The description `map_stack_mem` fills in; `mem.tex` is not set. -/
def stackMemInfo (k : Kernel) (paddr vaddr : Nat) : KernelMemInfo :=
  { vaddr := vaddr, paddr := paddr, ap := apSvcRwUsrNo, execute := execNon, bufferable := 0,
    cacheable := 0, domain := 0, nonsecure := 0, shareable := 0, tex := k.stackTex,
    type := .smallPage }

/-- One round of the mapping loop of `map_stack_mem`; below `0x80000000` `map_kernel_memory` does
nothing. -/
def Resources.mapStackPage (a : Blocks) (w : Resources) (paddr vaddr : Nat) : Resources :=
  { w with
    k := { w.k with
      kernelTable := (mapKernelMemory w.k.kernelTable (stackMemInfo w.k paddr vaddr)).2 }
    live := if vaddr < 0x80000000 then w.live else coarseBlocks a w.k.kernelTable vaddr w.live }

/-- The mapping loop of `map_stack_mem`. -/
def Resources.mapStackPages (a : Blocks) (paddr vaddr : Nat) : Nat → Nat → Resources → Resources
  | 0, _, w => w
  | n + 1, idx, w =>
    mapStackPages a paddr vaddr n (idx + 1)
      (w.mapStackPage a (pageAddr paddr idx) (pageAddr vaddr idx))

/-- The loop of `map_stack_mem` that frees the virtual pages. -/
def freeStackPages (k : Kernel) (vaddr frames : Nat) : Kernel :=
  (List.range frames).foldl (fun k idx => smmFreePage k (pageAddr vaddr idx)) k

/-- The pages of a stack, with the one below it to fault on. -/
def stackFrames (size : Nat) : Nat :=
  (if size / smallPageSize * smallPageSize < size then size / smallPageSize + 1
    else size / smallPageSize) + 1

/-- `map_stack_mem`, 0 for `NULL`. -/
def Resources.mapStackMem (a : Blocks) (w : Resources) (size : Nat) : Nat × Resources :=
  match smmAllocatePages w.k (stackFrames size) with
  | (vaddr, k) =>
    if vaddr = 0 then (0, { w with k := k })
    else
      match pmmAllocatePages k (stackFrames size - 1) with
      | (paddr, k) =>
        if paddr = 0 then (0, { w with k := freeStackPages k vaddr (stackFrames size) })
        else
          let vaddr := w32 (vaddr + smallPageSize)
          (w32 (pageAddr vaddr (stackFrames size - 2) + 0xFF8),
            Resources.mapStackPages a paddr vaddr (stackFrames size - 1) 0 { w with k := k })

/-- `create_kernel_thread` for a thread of the secure world: its structure, if there is memory for
it.  A kernel stack that cannot be mapped is no failure. -/
def Resources.createKernelThread (a : Blocks) (w : Resources) : Option (Nat × Resources) :=
  (a.thread w.live).map fun thread =>
    (thread, (Resources.mapStackMem a { w with live := thread :: w.live } kernelStackSize).2)

/-- `map_user_memory` of a page of the thread. -/
def Resources.mapPage (a : Blocks) (w : Resources) (paddr vaddr : Nat) : Resources :=
  { w with
    k := mapUserMemory w.k (taskMemInfo w.k paddr vaddr)
    live := if vaddr < 0x80000000 then coarseBlocks a w.k.proc.vuserPD vaddr w.live else w.live }

/-- A loop of `create_user_thread`, and whether it gets all its pages. -/
def Resources.getPages (a : Blocks) (start : Nat) : Nat → Nat → Resources → Bool × Resources
  | 0, _, w => (true, w)
  | n + 1, i, w =>
    match pmmAllocatePage w.k with
    | (paddr, k) =>
      if paddr = 0 then (false, { w with k := k })
      else
        getPages a start n (i + 1)
          (Resources.mapPage a { w with k := k } paddr (w32 (start + i * smallPageSize)))

/-- `kfree`. -/
def Resources.kfree (w : Resources) (block : Nat) : Resources :=
  { w with live := w.live.filter (· != block) }

/-- The loop of `release_thread_block`, on the table that its pointer leads to. -/
def releaseLoop (base : Nat) : Nat → Nat → PageTable → Kernel → PageTable × Kernel
  | 0, _, t, k => (t, k)
  | n + 1, i, t, k =>
    match unmapMemoryFromPd t (base + i * smallPageSize) with
    | (pa, t) => releaseLoop base n (i + 1) t (if pa ≠ 0 then pmmFreePage k pa else k)

/-- `release_thread_block`; `none` for a data abort. -/
def Resources.releaseThreadBlock (w : Resources) (base : Nat) : Option Resources :=
  w.atUserPD.map fun t =>
    match releaseLoop base threadLocalPagesSpacing 0 t w.k with
    | (t, k) => { w with k := k, atUserPD := some t }

/-- The TLS template can be read, and the pages of the TLS can be written. -/
def Resources.tlsCopies (w : Resources) (base : Nat) : Bool :=
  tlsPages w.tls == 0 ||
    (List.range w.tls.size.toNat).all (fun o => (readAddr w.k (w32 (w.tls.start.toNat + o))).isSome) &&
      pagesWritable w.k base (tlsPages w.tls)

/-- The first page of a thread's stack, eight pages below the guard page. -/
def firstStackPage (base : Nat) : Nat :=
  base + (threadLocalPagesSpacing - 1) * smallPageSize - defaultUserStackPages * smallPageSize

/-- What comes of a call: the new thread; a data abort while its memory is filled; or `NULL`, with
what is left after the clean-up, `none` where that ends in a data abort. -/
inductive Created where
  | thread (w : Resources)
  | abort
  | null (w : Option Resources)

/-- `create_user_thread`. -/
def Resources.createUserThread (a : Blocks) (w : Resources) : Created :=
  match findFreeThreadBlock w.k with
  | none => .null (some w)
  | some base =>
    match w.createKernelThread a with
    | none => .null (w.releaseThreadBlock base)
    | some (thread, w) =>
      match w.getPages a base (tlsPages w.tls) 0 with
      | (false, w) => .null ((w.kfree thread).releaseThreadBlock base)
      | (true, w) =>
        if w.tlsCopies base = false then .abort
        else
          match w.getPages a (firstStackPage base) defaultUserStackPages 0 with
          | (false, w) => .null ((w.kfree thread).releaseThreadBlock base)
          | (true, w) =>
            if pagesWritable w.k (firstStackPage base) defaultUserStackPages = false then .abort
            else .thread w

/-! ## 2. What is promised -/

/-- The pages of the physical area, the translations of the process and the blocks of the heap are
as they were. -/
structure GivenBack (w w' : Resources) : Prop where
  words : w'.k.pmm.words = w.k.pmm.words
  pmm : ∀ p < w.k.pmm.pages, w'.k.pmm.isFree p = w.k.pmm.isFree p
  table : ∀ va, walk w'.k.proc.vuserPD va = walk w.k.proc.vuserPD va
  live : ∀ b, b ∈ w'.live ↔ b ∈ w.live

/-- Page `p` of the physical area is what the table has at the address. -/
def NamesAt (k : Kernel) (t : PageTable) (va p : Nat) : Prop :=
  (unmapMemoryFromPd t va).1 ≠ 0 ∧ freedPage k.physStart (unmapMemoryFromPd t va).1 = some p

/-- Page `p` of the physical area is what the table has for a page of the block. -/
def Names (k : Kernel) (t : PageTable) (base p : Nat) : Prop :=
  ∃ i < threadLocalPagesSpacing, NamesAt k t (base + i * smallPageSize) p

/-- The pages of the thread, in the order in which they are mapped. -/
def threadPages (tls : TlsTemplate) (base : Nat) : List Nat :=
  (List.range (tlsPages tls)).map (fun i => w32 (base + i * smallPageSize)) ++
    (List.range defaultUserStackPages).map fun i => w32 (firstStackPage base + i * smallPageSize)

/-- The first page of the kernel stack, where there is room for one. -/
def kernelStackAt (k : Kernel) : Option Nat :=
  if (smmAllocatePages k 5).1 = 0 ∨ (pmmAllocatePages k 4).1 = 0 then none
  else some (w32 ((smmAllocatePages k 5).1 + smallPageSize))

/-- The free pages that are left for the block. -/
def pagesLeft (k : Kernel) : Nat :=
  freeCount k.pmm.isFree k.pmm.pages - if (kernelStackAt k).isSome then 4 else 0

/-- A page of a kernel stack needs a coarse table. -/
def NeedsTable (t : PageTable) (va : Nat) : Prop := 0x80000000 ≤ va ∧ t (l1Index va) = .fault

/-- The pages that are left go to addresses that are mapped already, and the kernel stack needs no
coarse table. -/
structure MapsNothing (w : Resources) (base : Nat) : Prop where
  user : ∀ va ∈ (threadPages w.tls base).take (pagesLeft w.k), va < 0x80000000 →
    walk w.k.proc.vuserPD va ≠ none
  kernel : ∀ v, kernelStackAt w.k = some v → ∀ i < 4,
    ¬ NeedsTable w.k.kernelTable (pageAddr v i)

/-- No block is free; or something lies at `userPD`, and what it has for the block are pages that
are free anyway, if there is no memory for the structure, and else the very pages that were free
before the call, which then maps nothing. -/
def MakesUp (a : Blocks) (w : Resources) : Prop :=
  ∀ base, findFreeThreadBlock w.k = some base → ∃ t, w.atUserPD = some t ∧
    if a.thread w.live = none then
      ∀ p < w.k.pmm.pages, Names w.k t base p → w.k.pmm.isFree p = true
    else
      (∀ p < w.k.pmm.pages, Names w.k t base p ↔ w.k.pmm.isFree p = true) ∧ MapsNothing w base

variable {a : Blocks} {w w' w₁ w₂ : Resources} {k k' : Kernel} {t : PageTable}
  {va vb base start n i thread : Nat}

/-! ## 3. Getting pages -/

/-- What getting pages leaves as it is. -/
structure Keeps (w w' : Resources) : Prop where
  words : w'.k.pmm.words = w.k.pmm.words
  start : w'.k.physStart = w.k.physStart
  tls : w'.tls = w.tls
  atUserPD : w'.atUserPD = w.atUserPD

theorem Keeps.refl (w : Resources) : Keeps w w := ⟨rfl, rfl, rfl, rfl⟩

theorem Keeps.trans (h : Keeps w w₁) (h' : Keeps w₁ w') : Keeps w w' where
  words := h'.words.trans h.words
  start := h'.start.trans h.start
  tls := h'.tls.trans h.tls
  atUserPD := h'.atUserPD.trans h.atUserPD

/-- The area of the physical pages, in the address space. -/
def Resources.Fits (w : Resources) : Prop := w.k.pmm.Fits w.k.physStart

theorem Keeps.fits (h : Keeps w w') (hw : w.Fits) : w'.Fits := by
  unfold Resources.Fits Bitmap.Fits Bitmap.pages at *
  rwa [h.words, h.start]

/-- The free pages. -/
def Resources.free (w : Resources) : Nat := freeCount w.k.pmm.isFree w.k.pmm.pages

/-- No page is free: nothing changes. -/
theorem pmmAllocatePage_null (hw : w.Fits) (h : (pmmAllocatePage w.k).1 = 0) :
    (pmmAllocatePage w.k).2 = w.k ∧ w.free = 0 := by
  refine ⟨?_, freeCount_eq_zero.mpr (allocatePage_none hw h)⟩
  rcases allocatePage_spec w.k.pmm w.k.physStart with hnone | ⟨q, b', hq, hin, -⟩
  · rw [pmmAllocatePage, hnone]
  · obtain ⟨hpos, htop⟩ := hw
    have hq0 : w32 (w.k.physStart + q * 4096) = 0 := (congrArg Prod.fst hq).symm.trans h
    rw [w32_of_lt (by omega)] at hq0
    omega

/-- A page is taken. -/
theorem pmmAllocatePage_got (hne : (pmmAllocatePage w.k).1 ≠ 0) :
    (pmmAllocatePage w.k).2.pmm.words = w.k.pmm.words ∧
      freeCount (pmmAllocatePage w.k).2.pmm.isFree w.k.pmm.pages + 1 = w.free := by
  rcases allocatePage_takes w.k.pmm w.k.physStart with hnone | ⟨q, b', hq, htakes⟩
  · exact absurd (congrArg Prod.fst hnone) hne
  · rw [show (pmmAllocatePage w.k).2.pmm = b' from congrArg Prod.snd hq]
    exact ⟨htakes.words, freeCount_taken htakes.inside htakes.free htakes.marked⟩

/-- `map_user_memory` of a page of the thread, as a change of the table. -/
theorem mapPage_k (a : Blocks) (w : Resources) (paddr va : Nat) :
    (w.mapPage a paddr va).k = { w.k with proc := { w.k.proc with
      vuserPD := if va < 0x80000000 then
        (mapMemoryV w.k.proc.vuserPD (taskMemInfo w.k paddr va)).2 else w.k.proc.vuserPD } } := by
  unfold Resources.mapPage mapUserMemory
  dsimp only
  by_cases hva : va < 0x80000000
  · rw [if_neg (show ¬ (taskMemInfo w.k paddr va).vaddr ≥ 0x80000000 from Nat.not_le.mpr hva),
      if_pos hva, if_neg]
    exact (by decide : ¬ (apSvcRwUsrRw = apSvcRwUsrNo ∨ apSvcRwUsrRw = apSvcRoUsrNo ∨
      apSvcRwUsrRw = apSvcNoUsrNo))
  · rw [if_pos (show (taskMemInfo w.k paddr va).vaddr ≥ 0x80000000 from Nat.not_lt.mp hva),
      if_neg hva]

theorem walk_mapPage (a : Blocks) (w : Resources) {paddr : Nat} (hva : va < 0x80000000) :
    walk (w.mapPage a paddr va).k.proc.vuserPD vb =
      if vb / 4096 = va / 4096 ∧ walk w.k.proc.vuserPD vb = none then
        some ⟨paddr / 4096 * 4096 + vb % 4096,
          (taskMemInfo w.k paddr va).attrIn w.k.proc.vuserPD vb⟩
      else walk w.k.proc.vuserPD vb := by
  rw [mapPage_k]
  dsimp only
  rw [if_pos hva, walk_mapTaskPage]

/-- What is mapped stays mapped, and the page is mapped then. -/
theorem mapPage_mapped (a : Blocks) (w : Resources) (paddr va : Nat) :
    (∀ vb, walk w.k.proc.vuserPD vb ≠ none →
      walk (w.mapPage a paddr va).k.proc.vuserPD vb ≠ none) ∧
    (va < 0x80000000 → walk (w.mapPage a paddr va).k.proc.vuserPD va ≠ none) := by
  constructor
  · intro vb hvb
    by_cases hva : va < 0x80000000
    · rw [walk_mapPage a w hva, if_neg fun h => hvb h.2]
      exact hvb
    · rw [mapPage_k, if_neg hva]
      exact hvb
  · intro hva
    rw [walk_mapPage a w hva]
    split
    · exact Option.some_ne_none _
    · rename_i hno
      exact fun hnone => hno ⟨rfl, hnone⟩

/-- Where the page is mapped already, nothing happens. -/
theorem mapPage_already {paddr : Nat} (h : va < 0x80000000 → walk w.k.proc.vuserPD va ≠ none) :
    w.mapPage a paddr va = w := by
  have hk : (w.mapPage a paddr va).k = w.k := by
    rw [mapPage_k]
    by_cases hva : va < 0x80000000
    · rw [if_pos hva, mapMemoryV_mapped rfl (h hva)]
    · rw [if_neg hva]
  have hlive : (w.mapPage a paddr va).live = w.live := by
    unfold Resources.mapPage coarseBlocks
    dsimp only
    split
    · rename_i hva
      split
      · rename_i hfault
        refine absurd ?_ (h hva)
        unfold walk
        rw [hfault]
      · rfl
    · rfl
  calc w.mapPage a paddr va
      = ⟨(w.mapPage a paddr va).k, w.tls, (w.mapPage a paddr va).live, w.atUserPD⟩ := rfl
    _ = w := by rw [hk, hlive]

/-- Pages for these addresses, one after the other. -/
inductive GotPages (a : Blocks) : Resources → List Nat → Resources → Prop
  | nil (w : Resources) : GotPages a w [] w
  | cons {w w' : Resources} {va : Nat} {vas : List Nat} (hne : (pmmAllocatePage w.k).1 ≠ 0)
      (rest : GotPages a (Resources.mapPage a { w with k := (pmmAllocatePage w.k).2 }
        (pmmAllocatePage w.k).1 va) vas w') : GotPages a w (va :: vas) w'

/-- A page of the physical area, mapped or not. -/
theorem keeps_page (a : Blocks) (hne : (pmmAllocatePage w.k).1 ≠ 0) (paddr va : Nat) :
    Keeps w (Resources.mapPage a { w with k := (pmmAllocatePage w.k).2 } paddr va) := by
  constructor
  · rw [mapPage_k]
    exact (pmmAllocatePage_got hne).1
  · rw [mapPage_k]
    rfl
  · rfl
  · rfl

variable {vas : List Nat}

theorem GotPages.keeps (h : GotPages a w vas w') : Keeps w w' := by
  induction h with
  | nil w => exact Keeps.refl w
  | cons hne _ ih => exact (keeps_page a hne _ _).trans ih

/-- **Every address costs a page.** -/
theorem GotPages.free (h : GotPages a w vas w') : w'.free + vas.length = w.free := by
  induction h with
  | nil w => rfl
  | @cons w w' va vas hne _ ih =>
    obtain ⟨hwords, hcount⟩ := pmmAllocatePage_got hne
    have hfree : (Resources.mapPage a { w with k := (pmmAllocatePage w.k).2 }
        (pmmAllocatePage w.k).1 va).free =
          freeCount (pmmAllocatePage w.k).2.pmm.isFree w.k.pmm.pages := by
      unfold Resources.free Bitmap.pages
      rw [mapPage_k]
      dsimp only
      rw [hwords]
    rw [List.length_cons]
    omega

theorem GotPages.mono (h : GotPages a w vas w') (hva : walk w.k.proc.vuserPD va ≠ none) :
    walk w'.k.proc.vuserPD va ≠ none := by
  induction h with
  | nil w => exact hva
  | cons _ _ ih => exact ih ((mapPage_mapped a _ _ _).1 va hva)

/-- Every address is mapped then. -/
theorem GotPages.mapped (h : GotPages a w vas w') :
    ∀ va ∈ vas, va < 0x80000000 → walk w'.k.proc.vuserPD va ≠ none := by
  induction h with
  | nil w => exact fun va hva => absurd hva List.not_mem_nil
  | cons _ rest ih =>
    intro vb hvb hlow
    rcases List.mem_cons.mp hvb with rfl | hrest
    · exact rest.mono ((mapPage_mapped a _ _ _).2 hlow)
    · exact ih vb hrest hlow

/-- If all of them are mapped already, nothing is mapped. -/
theorem GotPages.already (h : GotPages a w vas w')
    (hall : ∀ va ∈ vas, va < 0x80000000 → walk w.k.proc.vuserPD va ≠ none) :
    w'.k.proc.vuserPD = w.k.proc.vuserPD ∧ w'.live = w.live := by
  induction h with
  | nil w => exact ⟨rfl, rfl⟩
  | @cons w w' va vas _ _ ih =>
    have hsame : Resources.mapPage a { w with k := (pmmAllocatePage w.k).2 }
        (pmmAllocatePage w.k).1 va = { w with k := (pmmAllocatePage w.k).2 } :=
      mapPage_already (hall va List.mem_cons_self)
    rw [hsame] at ih
    exact ih fun vb hvb => hall vb (List.mem_cons_of_mem _ hvb)

/-- The addresses of a loop, from round `i` on. -/
def loopAddrs (start i n : Nat) : List Nat :=
  (List.range' i n).map fun j => w32 (start + j * smallPageSize)

theorem loopAddrs_succ (start i n : Nat) :
    loopAddrs start i (n + 1) = w32 (start + i * smallPageSize) :: loopAddrs start (i + 1) n := rfl

/-- The rounds of a loop that breaks off are its first rounds. -/
theorem loopAddrs_prefix (start i : Nat) {m n : Nat} (h : m ≤ n) :
    loopAddrs start i m <+: loopAddrs start i n := by
  obtain ⟨d, rfl⟩ := Nat.exists_eq_add_of_le h
  unfold loopAddrs
  rw [← List.range'_append_1, List.map_append]
  exact List.prefix_append _ _

/-- **A loop** gets all its pages, or stops where no page is free. -/
theorem getPages_cases (a : Blocks) (start n i : Nat) (hw : w.Fits) :
    (∃ w', w.getPages a start n i = (true, w') ∧ GotPages a w (loopAddrs start i n) w') ∨
      ∃ m w', m < n ∧ w.getPages a start n i = (false, w') ∧
        GotPages a w (loopAddrs start i m) w' ∧ w'.free = 0 := by
  induction n generalizing i w with
  | zero => exact Or.inl ⟨w, rfl, GotPages.nil w⟩
  | succ n ih =>
    rw [Resources.getPages]
    by_cases h0 : (pmmAllocatePage w.k).1 = 0
    · obtain ⟨hsame, hfree⟩ := pmmAllocatePage_null hw h0
      refine Or.inr ⟨0, w, Nat.succ_pos n, ?_, GotPages.nil w, hfree⟩
      dsimp only
      rw [if_pos h0, hsame]
    · dsimp only
      rw [if_neg h0]
      have hkeeps := keeps_page a h0 (pmmAllocatePage w.k).1 (w32 (start + i * smallPageSize))
      rcases ih (i + 1) (hkeeps.fits hw) with ⟨w', hget, hgot⟩ | ⟨m, w', hm, hget, hgot, hfree⟩
      · refine Or.inl ⟨w', hget, ?_⟩
        rw [loopAddrs_succ]
        exact GotPages.cons h0 hgot
      · refine Or.inr ⟨m + 1, w', Nat.succ_lt_succ hm, hget, ?_, hfree⟩
        rw [loopAddrs_succ]
        exact GotPages.cons h0 hgot

theorem GotPages.append {vas' : List Nat} (h : GotPages a w vas w₁) (h' : GotPages a w₁ vas' w') :
    GotPages a w (vas ++ vas') w' := by
  induction h with
  | nil w => exact h'
  | cons hne _ ih => exact GotPages.cons hne (ih h')

/-- Pages for the first addresses, until no page is free. -/
theorem GotPages.take {all : List Nat} (h : GotPages a w vas w') (hfirst : vas <+: all)
    (hfree : w'.free = 0) : GotPages a w (all.take w.free) w' := by
  have hlength := h.free
  rw [hfree, Nat.zero_add] at hlength
  rwa [← hlength, ← List.prefix_iff_eq_take.mp hfirst]

theorem threadPages_eq (tls : TlsTemplate) (base : Nat) : threadPages tls base =
    loopAddrs base 0 (tlsPages tls) ++ loopAddrs (firstStackPage base) 0 defaultUserStackPages := by
  unfold threadPages loopAddrs
  rw [List.range_eq_range', List.range_eq_range']

/-! ## 4. The kernel stack -/

/-- What one round of the loop does to the blocks: the new coarse table is a new block. -/
theorem mapStackPage_live (a : Blocks) (w : Resources) (paddr va : Nat) :
    (∀ b ∈ w.live, b ∈ (w.mapStackPage a paddr va).live) ∧
    (¬ NeedsTable w.k.kernelTable va → (w.mapStackPage a paddr va).live = w.live) ∧
    (NeedsTable w.k.kernelTable va → a.table w.live ∈ (w.mapStackPage a paddr va).live) := by
  unfold Resources.mapStackPage NeedsTable
  dsimp only
  by_cases hva : va < 0x80000000
  · rw [if_pos hva]
    exact ⟨fun _ hb => hb, fun _ => rfl, fun h => absurd hva (Nat.not_lt.mpr h.1)⟩
  · rw [if_neg hva]
    unfold coarseBlocks
    cases ht : w.k.kernelTable (l1Index va) with
    | fault =>
      exact ⟨fun _ hb => List.mem_cons_of_mem _ hb,
        fun h => absurd ⟨Nat.not_lt.mp hva, rfl⟩ h, fun _ => List.mem_cons_self⟩
    | table desc l2 => exact ⟨fun _ hb => hb, fun _ => rfl, fun h => L1Entry.noConfusion h.2⟩
    | «section» d => exact ⟨fun _ hb => hb, fun _ => rfl, fun h => L1Entry.noConfusion h.2⟩

/-- One round and the entries: a page that needed no table and does not need one now, or another
page that needs one as before. -/
theorem needsTable_mapStackPage {paddr : Nat} :
    (NeedsTable (w.mapStackPage a paddr va).k.kernelTable vb → NeedsTable w.k.kernelTable vb) ∧
    (¬ NeedsTable w.k.kernelTable va → NeedsTable w.k.kernelTable vb →
      NeedsTable (w.mapStackPage a paddr va).k.kernelTable vb) := by
  have hk : (w.mapStackPage a paddr va).k.kernelTable =
      (mapKernelMemory w.k.kernelTable (stackMemInfo w.k paddr va)).2 := rfl
  rw [hk]
  unfold mapKernelMemory
  split
  · exact ⟨id, fun _ h => h⟩
  rename_i hlow
  split
  · exact ⟨id, fun _ h => h⟩
  constructor
  · exact fun h => ⟨h.1, mapMemoryV_fault h.2⟩
  · intro hva hvb
    refine ⟨hvb.1, ?_⟩
    rw [mapMemoryV_other]
    · exact hvb.2
    · intro heq
      exact hva ⟨Nat.not_lt.mp hlow, (congrArg w.k.kernelTable heq).symm.trans hvb.2⟩

/-- What mapping the kernel stack leaves as it is. -/
structure OnlyStack (w w' : Resources) : Prop where
  pmm : w'.k.pmm = w.k.pmm
  start : w'.k.physStart = w.k.physStart
  proc : w'.k.proc = w.k.proc
  tls : w'.tls = w.tls
  atUserPD : w'.atUserPD = w.atUserPD

theorem onlyStack_mapStackPages (a : Blocks) (w : Resources) (paddr vaddr n i : Nat) :
    OnlyStack w (Resources.mapStackPages a paddr vaddr n i w) := by
  induction n generalizing i w with
  | zero => exact ⟨rfl, rfl, rfl, rfl, rfl⟩
  | succ n ih =>
    obtain ⟨h1, h2, h3, h4, h5⟩ :=
      ih (w.mapStackPage a (pageAddr paddr i) (pageAddr vaddr i)) (i + 1)
    exact ⟨h1, h2, h3, h4, h5⟩

/-- **The blocks after the loop**: as before if no page needs a coarse table, else with one more. -/
theorem live_mapStackPages (a : Blocks) (w : Resources) (paddr vaddr n i : Nat) :
    (∀ b ∈ w.live, b ∈ (Resources.mapStackPages a paddr vaddr n i w).live) ∧
    ((∀ j, i ≤ j → j < i + n → ¬ NeedsTable w.k.kernelTable (pageAddr vaddr j)) →
      (Resources.mapStackPages a paddr vaddr n i w).live = w.live) ∧
    ((∃ j, i ≤ j ∧ j < i + n ∧ NeedsTable w.k.kernelTable (pageAddr vaddr j)) →
      ∃ b ∈ (Resources.mapStackPages a paddr vaddr n i w).live, b ∉ w.live) := by
  induction n generalizing i w with
  | zero => exact ⟨fun _ hb => hb, fun _ => rfl, fun ⟨j, h1, h2, _⟩ => absurd h1 (by omega)⟩
  | succ n ih =>
    obtain ⟨hmono, hsame, hnew⟩ := mapStackPage_live a w (pageAddr paddr i) (pageAddr vaddr i)
    obtain ⟨ihmono, ihsame, ihnew⟩ :=
      ih (w.mapStackPage a (pageAddr paddr i) (pageAddr vaddr i)) (i + 1)
    refine ⟨fun b hb => ihmono b (hmono b hb), fun hno => ?_, ?_⟩
    · refine (ihsame fun j h1 h2 hneeds => ?_).trans (hsame (hno i (le_refl i) (by omega)))
      exact hno j (by omega) (by omega) (needsTable_mapStackPage.1 hneeds)
    · rintro ⟨j, h1, h2, hneeds⟩
      by_cases hi : NeedsTable w.k.kernelTable (pageAddr vaddr i)
      · exact ⟨_, ihmono _ (hnew hi), a.table_fresh w.live⟩
      · have hlater : i + 1 ≤ j := by
          by_contra hlt
          obtain rfl : j = i := by omega
          exact hi hneeds
        obtain ⟨b, hb, hout⟩ := ihnew ⟨j, hlater, by omega, needsTable_mapStackPage.2 hi hneeds⟩
        exact ⟨b, hb, fun hold => hout (hmono b hold)⟩

theorem freeStackPages_only {v : Nat} : (freeStackPages k v n).pmm = k.pmm ∧
    (freeStackPages k v n).physStart = k.physStart ∧ (freeStackPages k v n).proc = k.proc := by
  unfold freeStackPages
  induction n with
  | zero => exact ⟨rfl, rfl, rfl⟩
  | succ n ih =>
    rw [List.range_succ, List.foldl_append]
    exact ih

/-- Where there is no room for a kernel stack, the physical area stays as it is; else it loses four
pages. -/
theorem mapStackMem_cases (a : Blocks) (hw : w.Fits) :
    (kernelStackAt w.k = none ∧ (w.mapStackMem a kernelStackSize).2.live = w.live ∧
      OnlyStack w (w.mapStackMem a kernelStackSize).2) ∨
    ∃ paddr v w₁, kernelStackAt w.k = some v ∧ w₁.free + 4 = w.free ∧ w₁.live = w.live ∧
      w₁.k.kernelTable = w.k.kernelTable ∧ w₁.k.proc = w.k.proc ∧ Keeps w w₁ ∧
      (w.mapStackMem a kernelStackSize).2 = Resources.mapStackPages a paddr v 4 0 w₁ := by
  have hframes : stackFrames kernelStackSize = 5 := by decide
  have hpmm : pmmAllocatePages (smmAllocatePages w.k 5).2 (5 - 1) = ((pmmAllocatePages w.k 4).1,
      { (smmAllocatePages w.k 5).2 with pmm := (pmmAllocatePages w.k 4).2.pmm }) := rfl
  have hbound : w.k.pmm.pages < 4294967295 := by
    obtain ⟨hpos, htop⟩ := hw
    omega
  unfold Resources.mapStackMem kernelStackAt
  rw [hframes]
  dsimp only
  rw [hpmm]
  dsimp only
  by_cases hsmm : (smmAllocatePages w.k 5).1 = 0
  · rw [if_pos hsmm, if_pos (Or.inl hsmm)]
    exact Or.inl ⟨rfl, rfl, ⟨rfl, rfl, rfl, rfl, rfl⟩⟩
  rw [if_neg hsmm]
  rcases allocatePages_takes w.k.pmm w.k.physStart (show 4 < 4294967296 by decide) hbound with
    hnone | ⟨q, b', hq, htakes⟩
  · have hzero : (pmmAllocatePages w.k 4).1 = 0 := congrArg Prod.fst hnone
    have hsame : (pmmAllocatePages w.k 4).2.pmm = w.k.pmm := congrArg Prod.snd hnone
    rw [if_pos hzero, if_pos (Or.inr hzero), hsame]
    obtain ⟨h1, h2, h3⟩ := freeStackPages_only
      (k := { (smmAllocatePages w.k 5).2 with pmm := w.k.pmm })
      (v := (smmAllocatePages w.k 5).1) (n := 5)
    exact Or.inl ⟨rfl, rfl, ⟨h1, h2, h3, rfl, rfl⟩⟩
  · have haddr : (pmmAllocatePages w.k 4).1 = w.k.physStart + q * 4096 := by
      have hin := htakes.inside
      obtain ⟨hpos, htop⟩ := hw
      exact (congrArg Prod.fst hq).trans (w32_of_lt (by omega))
    have hne : (pmmAllocatePages w.k 4).1 ≠ 0 := by
      have hpos := hw.1
      omega
    have hb : (pmmAllocatePages w.k 4).2.pmm = b' := congrArg Prod.snd hq
    rw [if_neg hne, if_neg (not_or.mpr ⟨hsmm, hne⟩), hb]
    refine Or.inr ⟨_, _, { w with k := { (smmAllocatePages w.k 5).2 with pmm := b' } }, rfl, ?_, rfl,
      rfl, rfl, ⟨htakes.words, rfl, rfl, rfl⟩, rfl⟩
    have hcount := freeCount_taken htakes.inside htakes.free htakes.marked
    unfold Resources.free
    rw [Bitmap.pages_of_words htakes.words]
    exact hcount

/-- What `create_kernel_thread` leaves: its structure is a new block, and so is a coarse table that
it needed. -/
structure WithStack (w : Resources) (thread : Nat) (w' : Resources) : Prop where
  keeps : Keeps w w'
  proc : w'.k.proc = w.k.proc
  left : w'.free = pagesLeft w.k
  same : (∀ v, kernelStackAt w.k = some v → ∀ i < 4,
    ¬ NeedsTable w.k.kernelTable (pageAddr v i)) → w'.live = thread :: w.live
  more : (¬ ∀ v, kernelStackAt w.k = some v → ∀ i < 4,
    ¬ NeedsTable w.k.kernelTable (pageAddr v i)) → ∃ b ∈ w'.live, b ∉ thread :: w.live

theorem createKernelThread_cases (a : Blocks) (hw : w.Fits) :
    (a.thread w.live = none ∧ w.createKernelThread a = none) ∨
      ∃ thread w', a.thread w.live = some thread ∧
        w.createKernelThread a = some (thread, w') ∧ WithStack w thread w' := by
  unfold Resources.createKernelThread
  cases ha : a.thread w.live with
  | none => exact Or.inl ⟨rfl, rfl⟩
  | some thread =>
    refine Or.inr ⟨thread, _, rfl, rfl, ?_⟩
    rcases mapStackMem_cases a (w := { w with live := thread :: w.live }) hw with
      ⟨hnone, hlive, honly⟩ | ⟨paddr, v, w₁, hsome, hfree, hlive, htable, hproc, hkeeps, heq⟩
    · have hnone : kernelStackAt w.k = none := hnone
      constructor
      · exact ⟨congrArg Bitmap.words honly.pmm, honly.start, honly.tls, honly.atUserPD⟩
      · exact honly.proc
      · unfold Resources.free pagesLeft
        rw [honly.pmm, hnone]
        rfl
      · exact fun _ => hlive
      · intro hneeds
        refine absurd (fun v hv => ?_) hneeds
        rw [hnone] at hv
        exact absurd hv.symm (Option.some_ne_none v)
    · have hsome : kernelStackAt w.k = some v := hsome
      obtain ⟨-, hsame, hmore⟩ := live_mapStackPages a w₁ paddr v 4 0
      rw [hlive, htable] at hsame hmore
      rw [heq]
      have honly := onlyStack_mapStackPages a w₁ paddr v 4 0
      constructor
      · exact ⟨(congrArg Bitmap.words honly.pmm).trans hkeeps.words, honly.start.trans hkeeps.start,
          honly.tls.trans hkeeps.tls, honly.atUserPD.trans hkeeps.atUserPD⟩
      · exact honly.proc.trans hproc
      · have hleft : w₁.free = pagesLeft w.k := by
          unfold pagesLeft
          rw [hsome]
          exact (Nat.sub_eq_of_eq_add hfree.symm).symm
        rw [← hleft]
        unfold Resources.free
        rw [honly.pmm]
      · exact fun hno => hsame fun j _ hj => hno v hsome j (by omega)
      · intro hneeds
        refine hmore ?_
        by_contra hno
        refine hneeds fun v' hv' i hi hi' => hno ⟨i, Nat.zero_le i, by omega, ?_⟩
        rw [hsome] at hv'
        obtain rfl := Option.some.inj hv'
        exact hi'

/-! ## 5. The clean-up -/

/-- Unmapping a page changes nothing about what unmapping another page returns. -/
theorem unmap_apart (t : PageTable) (h : vb / 0x1000 ≠ va / 0x1000) :
    (unmapMemoryFromPd (unmapMemoryFromPd t va).2 vb).1 = (unmapMemoryFromPd t vb).1 := by
  by_cases h1 : l1Index vb = l1Index va
  · have h2 : l2Index vb ≠ l2Index va := fun h2 => h (page_eq_iff.mpr ⟨h1, h2⟩)
    cases ht : t (l1Index va) with
    | fault => simp only [unmapMemoryFromPd, h1, ht]
    | table desc l2 =>
      by_cases h0 : l2 (l2Index va) % 4 = 0
      · simp only [unmapMemoryFromPd, h1, ht, if_pos h0]
      · simp only [unmapMemoryFromPd, h1, ht, if_neg h0, Function.update_self,
          Function.update_of_ne h2]
        split <;> rfl
    | «section» d => simp only [unmapMemoryFromPd, h1, ht, Function.update_self]
  · have hsame := unmapMemoryFromPd_other t h1
    unfold unmapMemoryFromPd at hsame ⊢
    dsimp only at hsame ⊢
    rw [hsame]
    cases t (l1Index vb) with
    | fault => rfl
    | table desc l2 =>
      dsimp only
      split <;> rfl
    | «section» d => rfl

theorem namesAt_unmap {p : Nat} (h : vb / 0x1000 ≠ va / 0x1000) :
    NamesAt k (unmapMemoryFromPd t va).2 vb p ↔ NamesAt k t vb p := by
  unfold NamesAt
  rw [unmap_apart t h]

/-- What the loop of `release_thread_block` leaves as it is. -/
theorem releaseLoop_keeps (base n i : Nat) (t : PageTable) (k : Kernel) :
    (releaseLoop base n i t k).2.pmm.words = k.pmm.words ∧
      (releaseLoop base n i t k).2.physStart = k.physStart ∧
      (releaseLoop base n i t k).2.proc = k.proc := by
  induction n generalizing i t k with
  | zero => exact ⟨rfl, rfl, rfl⟩
  | succ n ih =>
    rw [releaseLoop]
    dsimp only
    obtain ⟨h1, h2, h3⟩ := ih (i + 1) (unmapMemoryFromPd t (base + i * smallPageSize)).2
      (if (unmapMemoryFromPd t (base + i * smallPageSize)).1 ≠ 0 then
        pmmFreePage k (unmapMemoryFromPd t (base + i * smallPageSize)).1 else k)
    rw [h1, h2, h3]
    split
    · exact ⟨rfl, rfl, rfl⟩
    · exact ⟨rfl, rfl, rfl⟩

/-- **The loop frees what the table has for the pages.** -/
theorem isFree_releaseLoop (base n i : Nat) (t : PageTable) (k : Kernel) (p : Nat) :
    (releaseLoop base n i t k).2.pmm.isFree p = true ↔ k.pmm.isFree p = true ∨
      ∃ j, i ≤ j ∧ j < i + n ∧ NamesAt k t (base + j * smallPageSize) p := by
  induction n generalizing i t k with
  | zero =>
    constructor
    · exact Or.inl
    · rintro (h | ⟨j, h1, h2, -⟩)
      · exact h
      · omega
  | succ n ih =>
    rw [releaseLoop]
    dsimp only
    rw [ih]
    have hstart : ∀ pa, NamesAt (if pa ≠ 0 then pmmFreePage k pa else k) = NamesAt k := by
      intro pa
      split <;> rfl
    have hfirst : (if (unmapMemoryFromPd t (base + i * smallPageSize)).1 ≠ 0 then
        pmmFreePage k (unmapMemoryFromPd t (base + i * smallPageSize)).1
          else k).pmm.isFree p = true ↔
        k.pmm.isFree p = true ∨ NamesAt k t (base + i * smallPageSize) p := by
      unfold NamesAt
      split
      · rename_i hne
        rw [pmmFreePage]
        dsimp only
        rw [isFree_freePage, Bool.or_eq_true, decide_eq_true_eq, and_iff_right hne]
      · rename_i h0
        exact ⟨Or.inl, fun h => h.elim id fun h => absurd h.1 h0⟩
    rw [hfirst, hstart]
    have hapart : ∀ j, i + 1 ≤ j →
        (NamesAt k (unmapMemoryFromPd t (base + i * smallPageSize)).2 (base + j * smallPageSize) p ↔
          NamesAt k t (base + j * smallPageSize) p) := by
      intro j hj
      refine namesAt_unmap ?_
      unfold smallPageSize
      omega
    constructor
    · rintro ((hfree | hnow) | ⟨j, h1, h2, hlater⟩)
      · exact Or.inl hfree
      · exact Or.inr ⟨i, le_refl i, by omega, hnow⟩
      · exact Or.inr ⟨j, by omega, by omega, (hapart j h1).mp hlater⟩
    · rintro (hfree | ⟨j, h1, h2, hnames⟩)
      · exact Or.inl (Or.inl hfree)
      · by_cases hj : j = i
        · exact Or.inl (Or.inr (hj ▸ hnames))
        · exact Or.inr ⟨j, by omega, by omega, (hapart j (by omega)).mpr hnames⟩

/-- **`release_thread_block`** frees what the table at `userPD` has for the block, and that is all. -/
theorem releaseThreadBlock_some (h : w.atUserPD = some t) (base : Nat) :
    ∃ w', w.releaseThreadBlock base = some w' ∧ w'.k.pmm.words = w.k.pmm.words ∧
      w'.k.proc = w.k.proc ∧ w'.live = w.live ∧
      ∀ p, w'.k.pmm.isFree p = true ↔ w.k.pmm.isFree p = true ∨ Names w.k t base p := by
  unfold Resources.releaseThreadBlock
  rw [h]
  refine ⟨_, rfl, (releaseLoop_keeps _ _ _ _ _).1, (releaseLoop_keeps _ _ _ _ _).2.2, rfl,
    fun p => ?_⟩
  refine (isFree_releaseLoop _ _ _ _ _ _).trans (or_congr Iff.rfl ?_)
  unfold Names
  constructor
  · rintro ⟨j, -, hj, hnames⟩
    exact ⟨j, by omega, hnames⟩
  · rintro ⟨j, hj, hnames⟩
    exact ⟨j, Nat.zero_le j, by omega, hnames⟩

/-- Where no page is free before, the free pages are those that the clean-up frees. -/
theorem releaseThreadBlock_used (h : w.atUserPD = some t) (base : Nat) (hnone : w.free = 0) :
    ∃ w', w.releaseThreadBlock base = some w' ∧ w'.k.pmm.words = w.k.pmm.words ∧
      w'.k.proc = w.k.proc ∧ w'.live = w.live ∧
      ∀ p < w.k.pmm.pages, w'.k.pmm.isFree p = true ↔ Names w.k t base p := by
  obtain ⟨w', hrelease, hwords, hproc, hlive, hfree⟩ := releaseThreadBlock_some h base
  refine ⟨w', hrelease, hwords, hproc, hlive, fun p hp => (hfree p).trans (or_iff_right ?_)⟩
  rw [freeCount_eq_zero.mp hnone p hp]
  exact Bool.false_ne_true

theorem names_congr {p : Nat} (h : k'.physStart = k.physStart) :
    Names k' t base p ↔ Names k t base p := by
  unfold Names NamesAt
  rw [h]

theorem releaseThreadBlock_none (h : w.atUserPD = none) (base : Nat) :
    w.releaseThreadBlock base = none := by
  unfold Resources.releaseThreadBlock
  rw [h]
  rfl

/-! ## 6. Every call that fails -/

/-- **Where `create_user_thread` fails**: it finds no block; or there is no memory for the structure;
or no page is free any more, and the pages that were left have gone to the first addresses of the
thread. -/
theorem createUserThread_null {o : Option Resources} (hw : w.Fits)
    (h : w.createUserThread a = .null o) :
    (findFreeThreadBlock w.k = none ∧ o = some w) ∨
      ∃ base, findFreeThreadBlock w.k = some base ∧
        ((a.thread w.live = none ∧ o = w.releaseThreadBlock base) ∨
          ∃ thread w₁ w₂, a.thread w.live = some thread ∧ WithStack w thread w₁ ∧
            GotPages a w₁ ((threadPages w.tls base).take (pagesLeft w.k)) w₂ ∧ w₂.free = 0 ∧
            o = (w₂.kfree thread).releaseThreadBlock base) := by
  unfold Resources.createUserThread at h
  cases hbase : findFreeThreadBlock w.k with
  | none =>
    rw [hbase] at h
    exact Or.inl ⟨rfl, (Created.null.inj h).symm⟩
  | some base =>
    rw [hbase] at h
    dsimp only at h
    refine Or.inr ⟨base, rfl, ?_⟩
    rcases createKernelThread_cases a hw with ⟨ha, hnone⟩ | ⟨thread, w₁, ha, hsome, hstack⟩
    · rw [hnone] at h
      exact Or.inl ⟨ha, (Created.null.inj h).symm⟩
    rw [hsome] at h
    dsimp only at h
    have hw₁ := hstack.keeps.fits hw
    refine Or.inr ⟨thread, w₁, ?_⟩
    rw [← hstack.left, threadPages_eq, ← hstack.keeps.tls]
    rcases getPages_cases a base (tlsPages w₁.tls) 0 hw₁ with
      ⟨w₂, hget, hgot⟩ | ⟨m, w₂, hm, hget, hgot, hfree⟩
    · rw [hget] at h
      dsimp only at h
      split at h
      · exact Created.noConfusion h
      rcases getPages_cases a (firstStackPage base) defaultUserStackPages 0
        (hgot.keeps.fits hw₁) with ⟨w₃, hget₃, hgot₃⟩ | ⟨m, w₃, hm, hget₃, hgot₃, hfree⟩
      · rw [hget₃] at h
        dsimp only at h
        split at h
        · exact Created.noConfusion h
        · exact Created.noConfusion h
      · rw [hget₃] at h
        have hfirst := loopAddrs_prefix (firstStackPage base) 0 (Nat.le_of_lt hm)
        exact ⟨w₃, ha, hstack, (hgot.append hgot₃).take
          ((List.prefix_append_right_inj _).mpr hfirst) hfree, hfree, (Created.null.inj h).symm⟩
    · rw [hget] at h
      have hfirst := loopAddrs_prefix base 0 (Nat.le_of_lt hm)
      exact ⟨w₂, ha, hstack, hgot.take (hfirst.trans (List.prefix_append _ _)) hfree, hfree,
        (Created.null.inj h).symm⟩

/-- The clean-up where there was no memory for the structure. -/
theorem givenBack_block_iff (ht : w.atUserPD = some t) (base : Nat) :
    (∃ w', w.releaseThreadBlock base = some w' ∧ GivenBack w w') ↔
      ∀ p < w.k.pmm.pages, Names w.k t base p → w.k.pmm.isFree p = true := by
  obtain ⟨w', hrelease, hwords, hproc, hlive, hfree⟩ := releaseThreadBlock_some ht base
  rw [hrelease]
  constructor
  · rintro ⟨w'', heq, hback⟩ p hp hnames
    obtain rfl := Option.some.inj heq
    rw [← hback.pmm p hp]
    exact (hfree p).mpr (Or.inr hnames)
  · intro hall
    refine ⟨w', rfl, hwords, fun p hp => ?_, fun va => by rw [hproc], fun b => by rw [hlive]⟩
    refine Bool.eq_iff_iff.mpr ((hfree p).trans ?_)
    exact ⟨fun h => h.elim id (hall p hp), Or.inl⟩

/-- The clean-up where no page is free any more. -/
theorem givenBack_pages_iff (hstack : WithStack w thread w₁) (hthread : thread ∉ w.live)
    (hgot : GotPages a w₁ ((threadPages w.tls base).take (pagesLeft w.k)) w₂)
    (hnone : w₂.free = 0) (ht : w.atUserPD = some t) :
    (∃ w', (w₂.kfree thread).releaseThreadBlock base = some w' ∧ GivenBack w w') ↔
      (∀ p < w.k.pmm.pages, Names w.k t base p ↔ w.k.pmm.isFree p = true) ∧
        MapsNothing w base := by
  have hkeeps := hstack.keeps.trans hgot.keeps
  obtain ⟨w', hrelease, hwords, hproc, hlive, hfree⟩ :=
    releaseThreadBlock_used (w := w₂.kfree thread) (hkeeps.atUserPD.trans ht) base hnone
  rw [hrelease]
  have hfree' : ∀ p < w.k.pmm.pages, w'.k.pmm.isFree p = true ↔ Names w.k t base p := by
    intro p hp
    have hpages : (w₂.kfree thread).k.pmm.pages = w.k.pmm.pages :=
      Bitmap.pages_of_words hkeeps.words
    exact (hfree p (hpages ▸ hp)).trans (names_congr hkeeps.start)
  have hlive' : ∀ b, b ∈ w'.live ↔ b ∈ w₂.live ∧ b ≠ thread := by
    intro b
    rw [hlive]
    exact List.mem_filter.trans (and_congr Iff.rfl bne_iff_ne)
  constructor
  · rintro ⟨w'', heq, hback⟩
    obtain rfl := Option.some.inj heq
    have huser : ∀ va ∈ (threadPages w.tls base).take (pagesLeft w.k), va < 0x80000000 →
        walk w.k.proc.vuserPD va ≠ none := by
      intro va hva hlow
      rw [← hback.table va, hproc]
      exact hgot.mapped va hva hlow
    refine ⟨fun p hp => ?_, huser, ?_⟩
    · rw [← hback.pmm p hp]
      exact (hfree' p hp).symm
    · by_contra hneeds
      obtain ⟨b, hb, hnew⟩ := hstack.more hneeds
      have hsame := (hgot.already fun va hva hlow => by
        rw [hstack.proc]
        exact huser va hva hlow).2
      have hmem := (hback.live b).mp ((hlive' b).mpr ⟨hsame ▸ hb, fun heq => hnew (by simp [heq])⟩)
      exact hnew (List.mem_cons_of_mem _ hmem)
  · rintro ⟨hnames, huser, hkernel⟩
    obtain ⟨htable, hsame⟩ := hgot.already fun va hva hlow => by
      rw [hstack.proc]
      exact huser va hva hlow
    refine ⟨w', rfl, hwords.trans hkeeps.words, fun p hp => ?_, fun va => ?_, fun b => ?_⟩
    · exact Bool.eq_iff_iff.mpr ((hfree' p hp).trans (hnames p hp))
    · rw [hproc, show (w₂.kfree thread).k.proc.vuserPD = w₂.k.proc.vuserPD from rfl, htable,
        hstack.proc]
    · rw [hlive', hsame, hstack.same hkernel, List.mem_cons]
      constructor
      · rintro ⟨rfl | hb, hne⟩
        · exact absurd rfl hne
        · exact hb
      · exact fun hb => ⟨Or.inr hb, fun heq => hthread (heq ▸ hb)⟩

/-- **When a call that fails gives everything back.**  Wherever `create_user_thread` fails, the
physical pages, the translations of the process and the blocks of the heap are as before the call
exactly when it has found no block, or the memory at the address `userPD` makes up for what is
missed. -/
theorem create_gives_back_iff (a : Blocks) {w : Resources} {o : Option Resources} (hw : w.Fits)
    (h : w.createUserThread a = .null o) :
    (∃ w', o = some w' ∧ GivenBack w w') ↔ MakesUp a w := by
  unfold MakesUp
  obtain ⟨hnone, rfl⟩ | ⟨base, hbase, hcase⟩ := createUserThread_null hw h
  · refine iff_of_true ⟨w, rfl, rfl, fun _ _ => rfl, fun _ => rfl, fun _ => Iff.rfl⟩ ?_
    intro base hbase
    rw [hnone] at hbase
    exact absurd hbase.symm (Option.some_ne_none base)
  have hone : ∀ P : Nat → Prop,
      (∀ base, findFreeThreadBlock w.k = some base → P base) ↔ P base := by
    intro P
    rw [hbase]
    exact ⟨fun hall => hall base rfl, fun hP base' heq => Option.some.inj heq ▸ hP⟩
  rw [hone]
  cases ht : w.atUserPD with
  | none =>
    -- the clean-up ends in a data abort
    have habort : o = none := by
      obtain ⟨-, rfl⟩ | ⟨thread, w₁, w₂, -, hstack, hgot, -, rfl⟩ := hcase
      · exact releaseThreadBlock_none ht base
      · exact releaseThreadBlock_none (w := w₂.kfree thread)
          ((hstack.keeps.trans hgot.keeps).atUserPD.trans ht) base
    refine iff_of_false ?_ ?_
    · rintro ⟨w', ho, -⟩
      rw [habort] at ho
      exact absurd ho.symm (Option.some_ne_none w')
    · rintro ⟨t, heq, -⟩
      exact absurd heq.symm (Option.some_ne_none t)
  | some t =>
    have hsome : ∀ P : PageTable → Prop, (∃ t', some t = some t' ∧ P t') ↔ P t := by
      intro P
      exact ⟨fun ⟨t', heq, hP⟩ => Option.some.inj heq ▸ hP, fun hP => ⟨t, rfl, hP⟩⟩
    rw [hsome]
    obtain ⟨ha, rfl⟩ | ⟨thread, w₁, w₂, ha, hstack, hgot, hfree, rfl⟩ := hcase
    · rw [if_pos ha]
      exact givenBack_block_iff ht base
    · rw [ha, if_neg (Option.some_ne_none thread)]
      exact givenBack_pages_iff hstack (a.thread_fresh ha) hgot hfree ht

theorem not_names_empty {p : Nat} : ¬ Names k emptyTable base p :=
  fun ⟨_, _, hne, _⟩ => hne rfl

/-- Without a free page there is no kernel stack. -/
theorem kernelStackAt_none (hw : w.Fits) (h : w.free = 0) : kernelStackAt w.k = none := by
  have hbound : w.k.pmm.pages < 4294967295 := by
    obtain ⟨hpos, htop⟩ := hw
    omega
  refine if_pos (Or.inr ?_)
  rcases allocatePages_takes w.k.pmm w.k.physStart (show 4 < 4294967296 by decide) hbound with
    hnone | ⟨q, b', -, htakes⟩
  · exact congrArg Prod.fst hnone
  · have hin := htakes.inside
    have hused := freeCount_eq_zero.mp h q (by omega)
    rw [htakes.free q (le_refl q) (by omega)] at hused
    exact absurd hused.symm Bool.false_ne_true

/-- **Where the memory at `userPD` has nothing for the block**, a call that fails behind the search
gives everything back only if it has got no page. -/
theorem makesUp_idle (a : Blocks) (hw : w.Fits) (ht : w.atUserPD = some emptyTable)
    (hbase : findFreeThreadBlock w.k = some base) :
    MakesUp a w ↔ a.thread w.live = none ∨ w.free = 0 := by
  constructor
  · intro h
    obtain ⟨t, ht', hcase⟩ := h base hbase
    obtain rfl := Option.some.inj (ht.symm.trans ht')
    split at hcase
    · rename_i ha
      exact Or.inl ha
    · refine Or.inr (freeCount_eq_zero.mpr fun p hp => ?_)
      exact Bool.eq_false_iff.mpr fun hfree => not_names_empty ((hcase.1 p hp).mpr hfree)
  · intro h base' _
    refine ⟨emptyTable, ht, ?_⟩
    split
    · exact fun p _ hnames => absurd hnames not_names_empty
    · rename_i ha
      have hnone := h.resolve_left ha
      refine ⟨fun p hp => iff_of_false not_names_empty ?_, ?_, ?_⟩
      · rw [freeCount_eq_zero.mp hnone p hp]
        exact Bool.false_ne_true
      · have hleft : pagesLeft w.k = 0 := by
          unfold pagesLeft
          rw [show freeCount w.k.pmm.isFree w.k.pmm.pages = 0 from hnone, Nat.zero_sub]
        rw [hleft, List.take_zero]
        exact fun va hva => absurd hva List.not_mem_nil
      · intro v hv
        rw [kernelStackAt_none hw hnone] at hv
        exact absurd hv.symm (Option.some_ne_none v)

/-- A heap that has memory for everything. -/
def plentyOfHeap : Blocks where
  thread live := some (live.sum + 0xC0100000)
  table live := live.sum + 0xC0100000
  thread_fresh {live b} h hb := by
    have hle := List.le_sum_of_mem hb
    have heq := Option.some.inj h
    omega
  table_fresh live hb := by
    have hle := List.le_sum_of_mem hb
    omega

/-- A process without TLS, on a machine with these pages of the first 32, and zeros at `userPD`. -/
def withPages (free : BitVec 32) : Resources where
  k := { bootKernel with pmm := ⟨1, fun _ => free⟩ }
  tls := ⟨0, 0⟩
  live := []
  atUserPD := some emptyTable

theorem withPages_fits (free : BitVec 32) : (withPages free).Fits :=
  ⟨show 0 < 0x76500000 by decide, show 0x76500000 + 4096 * (32 * 1) ≤ 4294967296 by decide⟩

/-- Whether the first page of the area is free after a call that fails and returns. -/
def Created.freeAfter : Created → Option Bool
  | .null (some w) => some (w.k.pmm.isFree 0)
  | _ => none

theorem Created.of_freeAfter {c : Created} {free : Bool} (h : c.freeAfter = some free) :
    ∃ w', c = .null (some w') ∧ w'.k.pmm.isFree 0 = free := by
  cases c with
  | thread w => exact absurd h.symm (Option.some_ne_none free)
  | abort => exact absurd h.symm (Option.some_ne_none free)
  | null o =>
    cases o with
    | none => exact absurd h.symm (Option.some_ne_none free)
    | some w' => exact ⟨w', rfl, Option.some.inj h⟩

/-- A heap that has memory for coarse tables only. -/
def noThreads : Blocks where
  thread _ := none
  table := plentyOfHeap.table
  thread_fresh h := absurd h.symm (Option.some_ne_none _)
  table_fresh := plentyOfHeap.table_fresh

/-- Six pages are free, and there is no memory for the structure: nothing is lost. -/
theorem create_gives_back_noThreads :
    ∃ w', (withPages 0x3F).createUserThread noThreads = .null (some w') ∧
      GivenBack (withPages 0x3F) w' := by
  have hfree : ((withPages 0x3F).createUserThread noThreads).freeAfter = some true := by
    decide +kernel
  obtain ⟨w', h, -⟩ := Created.of_freeAfter hfree
  have hbase : findFreeThreadBlock (withPages 0x3F).k = some threadVmemStart := by decide +kernel
  obtain ⟨w'', heq, hback⟩ := (create_gives_back_iff noThreads (withPages_fits 0x3F) h).mpr
    ((makesUp_idle noThreads (withPages_fits 0x3F) rfl hbase).mpr (Or.inl rfl))
  exact ⟨w'', heq ▸ h, hback⟩

/-- **Six free pages**: four become the kernel stack, two the first pages of the user's stack, and
none comes back. -/
theorem create_keeps_pages :
    ∃ w', (withPages 0x3F).createUserThread plentyOfHeap = .null (some w') ∧
      ¬ GivenBack (withPages 0x3F) w' := by
  have hfree : ((withPages 0x3F).createUserThread plentyOfHeap).freeAfter = some false := by
    decide +kernel
  obtain ⟨w', h, hlost⟩ := Created.of_freeAfter hfree
  refine ⟨w', h, fun hback => ?_⟩
  have hbefore : (withPages 0x3F).k.pmm.isFree 0 = true := by decide
  rw [hback.pmm 0 (by decide), hbefore] at hlost
  exact Bool.false_ne_true hlost.symm

end AndixOs.Task
