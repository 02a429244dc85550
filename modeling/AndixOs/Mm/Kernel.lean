/-
# The kernel's memory management

The state that `mm.c`, `mmu.c`, `pmm.c`, `mmm.c` and `umm.c` work on (the kernel's page table, the
bitmaps of physical frames and of mapable kernel pages, and the process whose table is active) and
their functions under the source's names.
-/
import AndixOs.Mm.PageTable
import AndixOs.Lib.Copy

namespace AndixOs.Mm

/-! ## 1. The state -/

/-- What these functions use of `struct user_process_t`. -/
structure UserProcess where
  pid : Nat
  membitmap : Bitmap
  vuserPD : PageTable

/-- Where the kernel image, its heap and its stacks lie: the symbols of the linker script, and what
`init_heap` and `smm_init` were given. -/
structure Layout where
  codeStart : Nat
  codeEnd : Nat
  dataStart : Nat
  dataEnd : Nat
  heapStart : Nat
  heapEnd : Nat
  smmStart : Nat
  smmEnd : Nat

/-- The state.  `stackTex` is what the stack holds where `map_mem_to_task` leaves `info.tex`
uninitialised. -/
structure Kernel where
  kernelTable : PageTable
  pmm : Bitmap
  physStart : Nat
  mmm : Bitmap
  smm : Bitmap
  layout : Layout
  proc : UserProcess
  stackTex : Nat

/-- `virt_start_addr` and `virt_end_addr` of the mapable area, as `init_vmm` sets them. -/
def mmmStart : Nat := 0x80000000
def mmmEnd : Nat := 0xC0000000

def userStartMappedMem : Nat := 0x70001000

/-- `sizeof(proc->membitmap) / 4`. -/
def membitmapWords : Nat := 800

/-- The kernel's table after the boot: the image and its heap are mapped by sections. -/
def bootTable : PageTable := fun i =>
  if 0xC00 ≤ i ∧ i < 0xC65 then .section (0x70000402 + (i - 0xC00) * 0x100000) else .fault

/-- A machine with 256 MB of secure memory from `0x70000000` on, right after `init_vmm`, and a
process without a mapping. -/
def bootKernel : Kernel where
  kernelTable := bootTable
  pmm := .allFree 1240
  physStart := 0x76500000
  mmm := .allFree 8192
  smm := .allFree 7383
  layout := ⟨0xC0008000, 0xC0060000, 0xC0060000, 0xC0080000, 0xC0100000, 0xC64FFFFF, 0xC6500000,
    0xFFFFFFFF⟩
  proc := ⟨1, .allFree membitmapWords, emptyTable⟩
  stackTex := 0

/-! ## 2. Translation -/

/-- The translation of an address: the process's table below `0x80000000`, the kernel's above. -/
def translate (k : Kernel) (va : Nat) : Option Leaf :=
  if va < 0x80000000 then walk k.proc.vuserPD va else walk k.kernelTable va

/-- Where a load of the kernel goes. -/
def readAddr (k : Kernel) (va : Nat) : Option Nat :=
  (translate k va).bind fun l => if l.svcReads then some l.pa else none

/-- Where a store of the kernel goes. -/
def writeAddr (k : Kernel) (va : Nat) : Option Nat :=
  (translate k va).bind fun l => if l.svcWrites then some l.pa else none

/-- `v_to_p`, which asks for a write translation: 0 for `NULL`. -/
def vToP (k : Kernel) (va : Nat) : Nat := (writeAddr k va).getD 0

/-- `memcpy`: whether it returns or ends in a data abort, the memory, and the bytes moved. -/
def memcpy (k : Kernel) (m : Mem) (dest src count : Nat) : Bool × Mem × List Moved :=
  copyBytes (fun j => readAddr k (w32 (src + j))) (fun j => writeAddr k (w32 (dest + j))) count 0 m

/-! ## 3. Kernel mappings -/

/-- `needed_pages`. -/
def neededPages (ptr size : Nat) : Nat :=
  if w32 (ptr + size) < ptr then 0 else w32 (ptr + size) / 4096 + 1 - ptr / 4096

/-- `map_kernel_memory`. -/
def mapKernelMemory (t : PageTable) (s : KernelMemInfo) : Int × PageTable :=
  if s.vaddr < 0x80000000 then (-1, t)
  else if s.ap = apSvcRwUsrRw ∨ s.ap = apSvcRwUsrRo ∨ s.ap = apSvcRoUsrRo then (-1, t)
  else mapMemoryV t s

/-- `unmap_kernel_memory`. -/
def unmapKernelMemory (k : Kernel) (vaddr : Nat) : Kernel :=
  { k with kernelTable := (unmapMemoryFromPd k.kernelTable vaddr).2 }

/-- `psize` in `map_kernel_sections`. -/
def MemType.size : MemType → Nat
  | .largePage => 0x10000
  | .smallPage => 0x1000
  | .section => 0x100000

/-- The mapping loop: `some v` when mapping the block at `v` fails.  A block further, `vaddr`
leaves the kernel half before the fuel is used up. -/
def mapSectionsLoop (s : KernelMemInfo) (end_ : Nat) :
    Nat → Nat → Nat → PageTable → Option Nat × PageTable
  | 0, _, _, t => (none, t)
  | fuel + 1, start, vstart, t =>
    if start ≤ end_ then
      match mapKernelMemory t { s with paddr := start, vaddr := vstart } with
      | (r, t) =>
        if r ≠ 0 then (some vstart, t)
        else mapSectionsLoop s end_ fuel (w32 (start + s.type.size)) (w32 (vstart + s.type.size)) t
    else (none, t)

/-- The unmapping loop after a failure. -/
def unmapSectionsLoop (psize fvend : Nat) : Nat → Nat → PageTable → PageTable
  | 0, _, t => t
  | fuel + 1, fvstart, t =>
    if fvstart ≤ fvend then
      unmapSectionsLoop psize fvend fuel (w32 (fvstart + psize)) (unmapMemoryFromPd t fvstart).2
    else t

/-- More blocks than there are from any address on. -/
def sectionsFuel (psize : Nat) : Nat := 4294967296 / psize + 2

/-- `map_kernel_sections`. -/
def mapKernelSections (t : PageTable) (start end_ vstart : Nat) (s : KernelMemInfo) :
    Int × PageTable :=
  match mapSectionsLoop s end_ (sectionsFuel s.type.size) start vstart t with
  | (none, t) => (0, t)
  | (some v, t) =>
    (-1, unmapSectionsLoop s.type.size (sub32 v 1) (sectionsFuel s.type.size) vstart t)

/-- `mmm_allocate_pages`. -/
def mmmAllocatePages (k : Kernel) (numpages : Nat) : Nat × Kernel :=
  let r := allocatePages k.mmm mmmStart numpages
  (r.1, { k with mmm := r.2 })

/-- The description `map_phys_mem` fills in; `map_kernel_sections` sets the addresses. -/
def physMemInfo (access cache buffer nonsecure : Nat) : KernelMemInfo :=
  { vaddr := 0, paddr := 0, ap := access, execute := execNon, bufferable := buffer,
    cacheable := cache, domain := 0, nonsecure := nonsecure, shareable := 0, tex := 0,
    type := .smallPage }

/-- `map_phys_mem`, 0 for `NULL`. -/
def mapPhysMem (k : Kernel) (paddr size access cache buffer nonsecure : Nat) : Nat × Kernel :=
  match mmmAllocatePages k (neededPages paddr size) with
  | (vstart, k) =>
    if vstart = 0 then (0, k)
    else
      match mapKernelSections k.kernelTable paddr (w32 (paddr + size)) vstart
        (physMemInfo access cache buffer nonsecure) with
      | (r, t) =>
        if r ≠ 0 then (0, { k with kernelTable := t })
        else (vstart / 4096 * 4096 + paddr % 4096, { k with kernelTable := t })

/-- `mmm_allocate_page`. -/
def mmmAllocatePage (k : Kernel) : Nat × Kernel :=
  let r := allocatePage k.mmm mmmStart
  (r.1, { k with mmm := r.2 })

/-- `mmm_free_page`. -/
def mmmFreePage (k : Kernel) (page : Nat) : Kernel :=
  { k with mmm := freePage k.mmm mmmStart page }

/-- `smm_allocate_pages`. -/
def smmAllocatePages (k : Kernel) (numpages : Nat) : Nat × Kernel :=
  let r := allocatePages k.smm k.layout.smmStart numpages
  (r.1, { k with smm := r.2 })

/-- `smm_free_page`. -/
def smmFreePage (k : Kernel) (page : Nat) : Kernel :=
  { k with smm := freePage k.smm k.layout.smmStart page }

/-- The address that `vaddr += SMALL_PAGE_SIZE` comes to in round `i`. -/
def pageAddr (vaddr i : Nat) : Nat := w32 (vaddr + smallPageSize * i)

/-- The loop of the callers that unmaps what `map_phys_mem` mapped. -/
def unmapPages (k : Kernel) (vaddr rounds : Nat) : Kernel :=
  (List.range rounds).foldl (fun k i => unmapKernelMemory k (pageAddr vaddr i)) k

/-- The rounds of `while (freed < size) { …; freed += SMALL_PAGE_SIZE; }`.  Sizes above `0xFFFFF000`,
for which `freed` wraps and the loop has no end, are left out: no bitmap has that many pages. -/
def pageRounds (size : Nat) : Nat := (size + 4095) / 4096

/-! ## 4. The process's mapable window -/

/-- `pmm_allocate_pages`. -/
def pmmAllocatePages (k : Kernel) (numpages : Nat) : Nat × Kernel :=
  let r := allocatePages k.pmm k.physStart numpages
  (r.1, { k with pmm := r.2 })

/-- `pmm_allocate_page`. -/
def pmmAllocatePage (k : Kernel) : Nat × Kernel :=
  let r := allocatePage k.pmm k.physStart
  (r.1, { k with pmm := r.2 })

/-- `pmm_allocate_aligned_pages`. -/
def pmmAllocateAlignedPages (k : Kernel) (numpages align : Nat) : Nat × Kernel :=
  let r := allocateAlignedPages k.pmm k.physStart numpages align
  (r.1, { k with pmm := r.2 })

/-- `pmm_free_page`. -/
def pmmFreePage (k : Kernel) (page : Nat) : Kernel :=
  { k with pmm := freePage k.pmm k.physStart page }

/-- `allocate_task_mapped_page_frames`. -/
def allocateTaskMappedPageFrames (k : Kernel) (numpages : Nat) : Nat × Kernel :=
  let r := allocatePages k.proc.membitmap userStartMappedMem numpages
  (r.1, { k with proc := { k.proc with membitmap := r.2 } })

/-- The description `map_mem_to_task` fills in; `paddr` stays the same for every page. -/
def taskMemInfo (k : Kernel) (paddr vaddr : Nat) : KernelMemInfo :=
  { vaddr := vaddr, paddr := paddr, ap := apSvcRwUsrRw, execute := execNon, bufferable := 1,
    cacheable := 1, domain := 0, nonsecure := 0, shareable := 0, tex := k.stackTex,
    type := .smallPage }

/-- The mapping loop of `map_mem_to_task`, whose results nobody looks at. -/
def mapTaskPages (k : Kernel) (paddr frameStart pgcount : Nat) (t : PageTable) : PageTable :=
  (List.range pgcount).foldl
    (fun t i => (mapMemoryV t (taskMemInfo k paddr (pageAddr frameStart i))).2) t

/-- `map_mem_to_task`: a window without room gives the start address 0. -/
def mapMemToTask (k : Kernel) (paddr size : Nat) : Nat × Kernel :=
  match allocateTaskMappedPageFrames k (neededPages paddr size) with
  | (frameStart, k) =>
    (frameStart / 4096 * 4096 + paddr % 4096,
      { k with proc := { k.proc with
          vuserPD := mapTaskPages k paddr frameStart (neededPages paddr size) k.proc.vuserPD } })

/-- `allocate_map_mem_to_task`, 0 for `NULL`. -/
def allocateMapMemToTask (k : Kernel) (size : Nat) : Nat × Kernel :=
  match pmmAllocatePages k (neededPages 0 size) with
  | (physicalMem, k) => if physicalMem = 0 then (0, k) else mapMemToTask k physicalMem size

/-- `unmap_mem_from_task`: every round unmaps the page of `vaddr`. -/
def unmapMemFromTask (k : Kernel) (vaddr size : Nat) : Kernel :=
  if userStartMappedMem ≤ vaddr ∧
      w32 (vaddr + size) < userStartMappedMem + membitmapWords * 4 * 32 * smallPageSize then
    { k with proc := { k.proc with
        vuserPD := Nat.repeat (fun t => (unmapMemoryFromPd t vaddr).2) (pageRounds size)
          k.proc.vuserPD } }
  else k

/-- The freeing loop of `free_mem_from_task`. -/
def pmmFreeRun (k : Kernel) (paddr rounds : Nat) : Kernel :=
  (List.range rounds).foldl (fun k i => pmmFreePage k (pageAddr paddr i)) k

/-- `free_mem_from_task`. -/
def freeMemFromTask (k : Kernel) (vaddr size : Nat) : Kernel :=
  pmmFreeRun (unmapMemFromTask k vaddr size) (vToP k vaddr) (pageRounds size)

/-! ## 5. Initialisation -/

/-- The words of a bitmap: `bitmap_size / 4`, with a byte for eight pages. -/
def bitmapWords (start end_ : Nat) : Nat := sub32 end_ start / (4096 * 8) / 4

/-- What `pmm_init` does to the bitmap. -/
def pmmInit (k : Kernel) (physStart physEnd : Nat) : Kernel :=
  { k with pmm := .allFree (bitmapWords physStart physEnd), physStart := physStart }

/-- `mmm_init`, with the addresses `init_vmm` gives it. -/
def mmmInit (k : Kernel) : Kernel := { k with mmm := .allFree (bitmapWords mmmStart mmmEnd) }

/-- `smm_init`. -/
def smmInit (k : Kernel) (virtStart virtEnd : Nat) : Kernel :=
  { k with smm := .allFree (bitmapWords virtStart virtEnd),
           layout := { k.layout with smmStart := virtStart, smmEnd := virtEnd } }

/-! ## 6. `unmap_memory` -/

/-- `mem_space`. -/
inductive MemSpace where
  | mapableMem
  | kernelCode
  | kernelData
  | kernelHeap
  | stackMem
  | userMem
  deriving DecidableEq

/-- `mmm_is_mem_addr` and `smm_is_mem_addr`: the bit is compared with 1, not with 0, and `-1` is
255 in a `uint8_t`. -/
def isMemAddr (b : Bitmap) (start end_ vaddr : Nat) : Nat :=
  if start ≤ vaddr ∧ vaddr < end_ then
    let offset := (vaddr - start) / 4096
    if b.word (offset / 32 : Nat) &&& bit (offset % 32) = 1 then 255 else 1
  else 0

/-- `vmm_is_kernel_…_mem_addr`. -/
def isInside (start end_ addr : Nat) : Bool := decide (start ≤ addr) && decide (addr < end_)

/-- `mem_get_type`. -/
def memGetType (k : Kernel) (addr : Nat) : MemSpace :=
  if isMemAddr k.mmm mmmStart mmmEnd addr ≠ 0 then .mapableMem
  else if isInside k.layout.codeStart k.layout.codeEnd addr then .kernelCode
  else if isInside k.layout.dataStart k.layout.dataEnd addr then .kernelData
  else if isInside k.layout.heapStart k.layout.heapEnd addr then .kernelHeap
  else if isMemAddr k.smm k.layout.smmStart k.layout.smmEnd addr ≠ 0 then .stackMem
  else .userMem

/-- `vmm_get_virt_block_size`: `start` and `end_` as they were before the call, and after it. -/
def vmmGetVirtBlockSize (t : PageTable) (addr start end_ : Nat) : Nat × Nat :=
  match t (l1Index addr) with
  | .fault => (0, 0)
  | .table _ l2 =>
    match l2 (l2Index addr) % 4 with
    | 0 => (0, 0)
    | 2 => (addr / 0x1000 * 0x1000, w32 (addr / 0x1000 * 0x1000 + 0xFFF))
    | 1 => (addr / 0x1000 * 0x1000, w32 (addr / 0x1000 * 0x1000 + 0xFFFF))
    -- a small page with XN is of neither type: nothing is written
    | _ => (start, end_)
  | .section _ => (addr / 0x100000 * 0x100000, w32 (addr / 0x100000 * 0x100000 + 0xFFFFF))

/-- The body of the loop in `unmap_memory`. -/
def unmapRound (k : Kernel) (mem : MemSpace) (vaddr : Nat) : Kernel :=
  match mem with
  | .mapableMem => mmmFreePage (unmapKernelMemory k vaddr) vaddr
  | .stackMem => smmFreePage (unmapKernelMemory k vaddr) vaddr
  | _ => k

/-- The loop of `unmap_memory`; `none` while it is still going.  `vaddr` is not moved on. -/
def unmapMemoryLoop (mem : MemSpace) (vaddr vend : Nat) : Nat → Nat → Nat → Kernel → Option Kernel
  | 0, _, _, _ => none
  | fuel + 1, start, end_, k =>
    match vmmGetVirtBlockSize k.kernelTable vaddr start end_ with
    | (start, end_) =>
      let k := unmapRound k mem vaddr
      if vend < end_ then unmapMemoryLoop mem vaddr vend fuel start end_ k else some k

/-- `unmap_memory`.  In the areas it unmaps, the block is gone in the second round; elsewhere
nothing changes from round to round, so a loop that reaches a third round never ends. -/
def unmapMemory (k : Kernel) (addr size : Nat) : Option Kernel :=
  if w32 (addr + size) < addr then some k
  else unmapMemoryLoop (memGetType k addr) addr (w32 (addr + size)) 3 0 0 k

end AndixOs.Mm
