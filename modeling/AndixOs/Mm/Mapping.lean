/-
# What mapping does

The rules of the kernel's memory management: what a successful `mapPhysMem` maps, what
`allocateMapMemToTask` hands to a process, and what unmapping and freeing change.

Two conditions on the state carry them, and both hold after the boot: `MapableOk` (a page that is
free in the `mmm` bitmap is not mapped) and `WindowOk` (the same for the mapable window of the
process, and the frames of `pmm` are where `init_vmm` puts them).
-/
import AndixOs.Mm.Kernel
import Mathlib.Tactic.Ring

namespace AndixOs.Mm

/-! ## 1. The conditions -/

/-- The mapable kernel area. -/
structure MapableOk (k : Kernel) : Prop where
  words : k.mmm.words = 8192
  free : ∀ p, k.mmm.isFree p = true → p < k.mmm.pages →
    walk k.kernelTable (mmmStart + 4096 * p) = none

/-- The mapable window of the process, and the frames `pmm` hands out: they are whole pages below
`2^32`, not at 0, and no more than `SECURE_MEMORY_SIZE` bytes. -/
structure WindowOk (k : Kernel) : Prop where
  words : k.proc.membitmap.words = membitmapWords
  free : ∀ p, k.proc.membitmap.isFree p = true → p < k.proc.membitmap.pages →
    walk k.proc.vuserPD (userStartMappedMem + 4096 * p) = none
  coarse : ∀ p, p < k.proc.membitmap.pages →
    Coarse k.proc.vuserPD (userStartMappedMem + 4096 * p)
  aligned : k.physStart % 4096 = 0
  positive : 0 < k.physStart
  below : k.physStart + 4096 * k.pmm.pages ≤ 4294967296
  few : k.pmm.pages ≤ 65536

/-- Nothing is mapped below the kernel image. -/
theorem bootTable_fault {va : Nat} (h : va < 0xC0000000) : bootTable (l1Index va) = .fault := by
  unfold bootTable l1Index
  rw [if_neg (by omega)]

theorem bootKernel_mapableOk : MapableOk bootKernel where
  words := rfl
  free := by
    intro p _ hp
    have hp' : p < 262144 := hp
    unfold walk
    rw [show bootKernel.kernelTable = bootTable from rfl, bootTable_fault]
    unfold mmmStart
    omega

theorem bootKernel_windowOk : WindowOk bootKernel where
  words := rfl
  free := fun _ _ _ => rfl
  coarse := fun _ _ _ h => L1Entry.noConfusion h
  aligned := rfl
  positive := by decide
  below := by decide
  few := by decide

/-! ## 2. Pages -/

theorem walk_none_page {t : PageTable} {va vb : Nat} (h : walk t va = none)
    (hp : vb / 0x1000 = va / 0x1000) : walk t vb = none := by
  obtain ⟨h1, h2⟩ := page_eq_iff.mp hp
  cases ht : t (l1Index va) with
  | fault =>
    unfold walk
    rw [h1, ht]
  | table desc l2 =>
    exact walk_of_zero (by rw [h1]; exact ht) (by rw [h2]; exact mod4_of_walk_none ht h)
  | «section» d => exact absurd ht (not_section_of_walk_none h d)

/-- The walk of a table in which the `m` pages from `vstart` on lead to the addresses from `start`
on, and every other address goes where it went. -/
def mappedRun (t : PageTable) (start vstart m : Nat) (attr : Nat → PageAttr) (va : Nat) :
    Option Leaf :=
  if vstart / 4096 ≤ va / 4096 ∧ va / 4096 < vstart / 4096 + m then
    some ⟨(start + 4096 * (va / 4096 - vstart / 4096)) / 4096 * 4096 + va % 4096, attr va⟩
  else walk t va

/-- A run of no pages. -/
theorem mappedRun_zero (t : PageTable) (start vstart : Nat) (attr : Nat → PageAttr) (va : Nat) :
    mappedRun t start vstart 0 attr va = walk t va :=
  if_neg fun h => by omega

/-- A run is its first page and the run of the others. -/
theorem mappedRun_succ {t t' : PageTable} {start vstart va : Nat} {attr : Nat → PageAttr}
    (m : Nat) (h : walk t' va = if va / 0x1000 = vstart / 0x1000 then
      some ⟨start / 0x1000 * 0x1000 + va % 0x1000, attr va⟩ else walk t va) :
    mappedRun t' (start + 4096) (vstart + 4096) m attr va =
      mappedRun t start vstart (m + 1) attr va := by
  unfold mappedRun
  rw [h]
  by_cases h1 : (vstart + 4096) / 4096 ≤ va / 4096 ∧ va / 4096 < (vstart + 4096) / 4096 + m
  · rw [if_pos h1, if_pos (by omega)]
    congr 4
    omega
  · rw [if_neg h1]
    by_cases h2 : va / 0x1000 = vstart / 0x1000
    · rw [if_pos h2, if_pos (by omega)]
      congr 4
      omega
    · rw [if_neg h2, if_neg (by omega)]

/-- The attributes that mapping a description gives at an address. -/
def KernelMemInfo.attrIn (s : KernelMemInfo) (t : PageTable) (va : Nat) : PageAttr :=
  s.attrNs (regionNs t s.nonsecure va)

/-! ## 3. Mapping kernel pages -/

/-- A kernel mapping that succeeds found its page unmapped, and maps it. -/
theorem mapKernelMemory_small {t : PageTable} {s : KernelMemInfo} (hs : s.type = .smallPage)
    {paddr vaddr : Nat}
    (h : (mapKernelMemory t { s with paddr := paddr, vaddr := vaddr }).1 = 0) :
    0x80000000 ≤ vaddr ∧ walk t vaddr = none ∧
      ∀ vb, walk (mapKernelMemory t { s with paddr := paddr, vaddr := vaddr }).2 vb =
        (if vb / 0x1000 = vaddr / 0x1000 then
          some ⟨paddr / 0x1000 * 0x1000 + vb % 0x1000, s.attrIn t vb⟩
        else walk t vb) ∧
        regionNs (mapKernelMemory t { s with paddr := paddr, vaddr := vaddr }).2 s.nonsecure vb =
          regionNs t s.nonsecure vb ∧
        (s.execute % 2 = 1 → vb / 0x1000 = vaddr / 0x1000 ∨ XnPage t vb →
          XnPage (mapKernelMemory t { s with paddr := paddr, vaddr := vaddr }).2 vb) := by
  unfold mapKernelMemory at h ⊢
  by_cases hlow : vaddr < 0x80000000
  · rw [if_pos hlow] at h
    exact absurd h (by simp)
  · rw [if_neg hlow] at h ⊢
    by_cases hap : s.ap = apSvcRwUsrRw ∨ s.ap = apSvcRwUsrRo ∨ s.ap = apSvcRoUsrRo
    · rw [if_pos hap] at h
      exact absurd h (by simp)
    · rw [if_neg hap] at h ⊢
      have hnone : walk t vaddr = none := by
        by_contra hne
        rw [mapMemoryV_mapped (s := { s with paddr := paddr, vaddr := vaddr }) hs hne] at h
        exact absurd h (by simp)
      refine ⟨Nat.le_of_not_lt hlow, hnone, fun vb => ⟨?_,
        regionNs_mapMemoryV (s := { s with paddr := paddr, vaddr := vaddr }) hs vb, ?_⟩⟩
      rotate_left
      · intro hx hvb
        have hxn := xnPage_mapMemoryV (s := { s with paddr := paddr, vaddr := vaddr }) hs hx hnone
        exact hvb.elim (fun hvb => hxn.1.page hvb) (hxn.2 vb)
      rw [(mapMemoryV_small (s := { s with paddr := paddr, vaddr := vaddr }) hs hnone).2 vb]
      by_cases hvb : vb / 0x1000 = vaddr / 0x1000
      · rw [if_pos hvb, if_pos hvb]
        unfold KernelMemInfo.attrIn
        rw [regionNs_page hvb]
        rfl
      · rw [if_neg hvb, if_neg hvb]

theorem mapSectionsLoop_succ {s : KernelMemInfo} {end_ fuel start vstart : Nat} {t t' : PageTable}
    (hs : s.type = .smallPage) (hle : start ≤ end_)
    (h : mapSectionsLoop s end_ (fuel + 1) start vstart t = (none, t')) :
    (mapKernelMemory t { s with paddr := start, vaddr := vstart }).1 = 0 ∧
      mapSectionsLoop s end_ fuel (w32 (start + 4096)) (w32 (vstart + 4096))
        (mapKernelMemory t { s with paddr := start, vaddr := vstart }).2 = (none, t') := by
  have hsize : s.type.size = 4096 := by rw [hs]; rfl
  rw [mapSectionsLoop, if_pos hle, hsize] at h
  simp only at h
  split at h
  · exact absurd h (by simp)
  · rename_i hr
    exact ⟨not_not.mp hr, h⟩

/-- A loop that goes on to a page has not wrapped its virtual address. -/
theorem vaddr_not_wrapped {s : KernelMemInfo} {end_ fuel start vstart : Nat} {t t' : PageTable}
    (hs : s.type = .smallPage) (hle : start ≤ end_)
    (h : mapSectionsLoop s end_ (fuel + 1) start (w32 (vstart + 4096)) t = (none, t'))
    (hv : vstart < 4294967296) (hal : vstart % 4096 = 0) : vstart + 4096 < 4294967296 := by
  by_contra hge
  have hz : w32 (vstart + 4096) = 0 := by
    unfold w32
    omega
  have hhigh := (mapKernelMemory_small hs (mapSectionsLoop_succ hs hle h).1).1
  rw [hz] at hhigh
  exact absurd hhigh (by decide)

/-- **A mapping loop that succeeds has mapped every page**, and the physical range does not wrap. -/
theorem mapSectionsLoop_spec {s : KernelMemInfo} {end_ : Nat} (hs : s.type = .smallPage)
    (hend : end_ < 4294967296) :
    ∀ {fuel start vstart : Nat} {t t' : PageTable},
      mapSectionsLoop s end_ fuel start vstart t = (none, t') → start < 4294967296 →
      vstart < 4294967296 → vstart % 4096 = 0 → 1048577 ≤ vstart / 4096 + fuel →
      start ≤ end_ →
      start / 4096 + (end_ - start) / 4096 + 1 < 1048576 ∧
        (s.execute % 2 = 1 → ∀ va, XnPage t va ∨ (vstart / 4096 ≤ va / 4096 ∧
          va / 4096 < vstart / 4096 + ((end_ - start) / 4096 + 1)) → XnPage t' va) ∧
        ∀ va, walk t' va = mappedRun t start vstart ((end_ - start) / 4096 + 1) (s.attrIn t) va
  | 0, _, _, _, _, _, _, hv, _, hfuel, _ => absurd hfuel (by omega)
  | fuel + 1, start, vstart, t, t', h, hst, hv, hal, hfuel, hle => by
    obtain ⟨hr, hrest⟩ := mapSectionsLoop_succ hs hle h
    obtain ⟨hhigh, -, hwalk⟩ := mapKernelMemory_small hs hr
    clear hr
    obtain ⟨f, rfl⟩ : ∃ f, fuel = f + 1 := ⟨fuel - 1, by omega⟩
    by_cases hover : start + 4096 < 4294967296
    · rw [w32_of_lt hover] at hrest
      by_cases hmore : start + 4096 ≤ end_
      · have hnext := vaddr_not_wrapped hs hmore hrest hv hal
        rw [w32_of_lt hnext] at hrest
        obtain ⟨hno, hxn, hmap⟩ := mapSectionsLoop_spec hs hend hrest hover hnext (by omega)
          (by omega) hmore
        have hcount : (end_ - start) / 4096 + 1 = (end_ - (start + 4096)) / 4096 + 1 + 1 := by omega
        refine ⟨by omega, ?_, fun va => ?_⟩
        · intro hx va hva
          refine hxn hx va ?_
          rcases hva with hva | hva
          · exact Or.inl ((hwalk va).2.2 hx (Or.inr hva))
          · by_cases h1 : va / 4096 = vstart / 4096
            · exact Or.inl ((hwalk va).2.2 hx (Or.inl h1))
            · exact Or.inr (by omega)
        have hattr : s.attrIn (mapKernelMemory t { s with paddr := start, vaddr := vstart }).2 va =
            s.attrIn t va := by
          unfold KernelMemInfo.attrIn
          rw [(hwalk va).2.1]
        rw [hmap va, hcount, ← mappedRun_succ _ (hwalk va).1]
        unfold mappedRun
        rw [hattr]
      · rw [mapSectionsLoop, if_neg hmore] at hrest
        obtain rfl : (mapKernelMemory t { s with paddr := start, vaddr := vstart }).2 = t' :=
          (Prod.mk.inj hrest).2
        have hcount : (end_ - start) / 4096 = 0 := by omega
        rw [hcount]
        refine ⟨by omega, ?_, fun va => ?_⟩
        · intro hx va hva
          exact (hwalk va).2.2 hx (hva.elim Or.inr fun h => Or.inl (by omega))
        rw [← mappedRun_succ 0 (hwalk va).1, mappedRun_zero]
    · -- the physical address wraps: the loop would have to cover everything
      have hsmall : w32 (start + 4096) = start + 4096 - 4294967296 := by
        unfold w32
        omega
      rw [hsmall] at hrest
      have hnext := vaddr_not_wrapped hs (by omega) hrest hv hal
      rw [w32_of_lt hnext] at hrest
      have hno := (mapSectionsLoop_spec hs hend hrest (by omega) hnext (by omega) (by omega)
        (by omega)).1
      omega

/-- **A kernel mapping that succeeds.** -/
theorem mapKernelSections_spec {t : PageTable} {s : KernelMemInfo} {start end_ vstart : Nat}
    (hs : s.type = .smallPage) (hend : end_ < 4294967296) (hle : start ≤ end_)
    (hlow : 0x80000000 ≤ vstart) (hv : vstart < 4294967296) (hal : vstart % 4096 = 0)
    (h : (mapKernelSections t start end_ vstart s).1 = 0) :
    start / 4096 + (end_ - start) / 4096 + 1 < 1048576 ∧
      (s.execute % 2 = 1 → ∀ va, XnPage t va ∨ (vstart / 4096 ≤ va / 4096 ∧
        va / 4096 < vstart / 4096 + ((end_ - start) / 4096 + 1)) →
          XnPage (mapKernelSections t start end_ vstart s).2 va) ∧
      ∀ va, walk (mapKernelSections t start end_ vstart s).2 va =
        mappedRun t start vstart ((end_ - start) / 4096 + 1) (s.attrIn t) va := by
  have hsize : s.type.size = 4096 := by rw [hs]; rfl
  have hfuel : sectionsFuel 4096 = 1048578 := rfl
  unfold mapKernelSections at h ⊢
  rw [hsize, hfuel] at h ⊢
  rcases hloop : mapSectionsLoop s end_ 1048578 start vstart t with ⟨_ | v, t'⟩
  · exact mapSectionsLoop_spec hs hend hloop (by omega) hv hal (by omega) hle
  · rw [hloop] at h
    exact absurd h (show (-1 : Int) ≠ 0 by decide)

/-- `needed_pages` fails exactly where the range wraps. -/
theorem neededPages_eq {ptr size : Nat} (hp : ptr < 4294967296) (hs : size < 4294967296) :
    neededPages ptr size =
      if ptr + size < 4294967296 then (ptr + size) / 4096 + 1 - ptr / 4096 else 0 := by
  unfold neededPages
  by_cases h : ptr + size < 4294967296
  · rw [w32_of_lt h, if_pos h, if_neg (by omega)]
  · have hw : w32 (ptr + size) = ptr + size - 4294967296 := by
      unfold w32
      omega
    rw [hw, if_neg h, if_pos (by omega)]

/-- What `mapPhysMem` has done when it returns `v`: the pages from `q` on were free, and lead to
the range now. -/
structure MapsRange (k k' : Kernel) (paddr size : Nat) (s : KernelMemInfo) (v q : Nat) :
    Prop where
  run : FirstRun k.mmm.isFree (neededPages paddr size) k.mmm.pages q
  addr : v = mmmStart + 4096 * q + paddr % 4096
  inside : paddr + size < 4294967296
  walk : ∀ va, walk k'.kernelTable va =
    mappedRun k.kernelTable paddr (mmmStart + 4096 * q) (size / 4096 + 1)
      (s.attrIn k.kernelTable) va
  xn : s.execute % 2 = 1 → ∀ va, XnPage k.kernelTable va ∨
    ((mmmStart + 4096 * q) / 4096 ≤ va / 4096 ∧
      va / 4096 < (mmmStart + 4096 * q) / 4096 + (size / 4096 + 1)) → XnPage k'.kernelTable va
  words : k'.mmm.words = k.mmm.words
  marked : ∀ p, k'.mmm.isFree p =
    (k.mmm.isFree p && !decide (q ≤ p ∧ p < q + neededPages paddr size))
  rest : k' = { k with kernelTable := k'.kernelTable, mmm := k'.mmm }

/-- Room for a range: the first run of free pages that is long enough, and the bitmap without it. -/
structure TakesRun (k : Kernel) (paddr size q : Nat) (b' : Bitmap) : Prop where
  inside : paddr + size < 4294967296
  count : neededPages paddr size = (paddr + size) / 4096 + 1 - paddr / 4096
  run : FirstRun k.mmm.isFree (neededPages paddr size) k.mmm.pages q
  pages : q + neededPages paddr size ≤ 262144
  words : b'.words = k.mmm.words
  marked : ∀ p, b'.isFree p =
    (k.mmm.isFree p && !decide (q ≤ p ∧ p < q + neededPages paddr size))

/-- The pages that `map_phys_mem` asks for. -/
theorem mmmAllocatePages_cases {k : Kernel} (hk : k.mmm.words = 8192) {paddr size : Nat}
    (hp : paddr < 4294967296) (hs : size < 4294967296) :
    (mmmAllocatePages k (neededPages paddr size) = (0, k) ∧ (paddr + size < 4294967296 →
      ∀ q, ¬ FirstRun k.mmm.isFree (neededPages paddr size) k.mmm.pages q)) ∨
    ∃ q b', TakesRun k paddr size q b' ∧
      mmmAllocatePages k (neededPages paddr size) = (mmmStart + 4096 * q, { k with mmm := b' }) := by
  have hpages : k.mmm.pages = 262144 := Bitmap.pages_of_words hk
  have hn := neededPages_eq hp hs
  by_cases hin : paddr + size < 4294967296
  · rw [if_pos hin] at hn
    rcases allocatePages_spec k.mmm mmmStart (n := neededPages paddr size) (by omega) (by omega) with
      ⟨hr, hnone⟩ | ⟨q, b', hr, hrun, hw, hfree, -⟩
    · refine Or.inl ⟨?_, fun _ => hnone⟩
      simp only [mmmAllocatePages, hr]
    · have hle := hrun.inside
      have hv : w32 (mmmStart + q * 4096) = mmmStart + 4096 * q := by
        rw [w32_of_lt (by unfold mmmStart; omega)]
        omega
      refine Or.inr ⟨q, b', ⟨hin, hn, hrun, by omega, hw, hfree⟩, ?_⟩
      simp only [mmmAllocatePages, hr, hv]
  · rw [if_neg hin] at hn
    refine Or.inl ⟨?_, fun h => absurd h hin⟩
    simp only [mmmAllocatePages, hn,
      allocatePages_zero mmmStart (show k.mmm.pages < 4294967295 by rw [hpages]; decide)]

/-- What `map_phys_mem` does: nothing where there is no room; else the pages are taken, whatever
comes of the mapping. -/
theorem mapPhysMem_cases {k : Kernel} (hk : k.mmm.words = 8192) {paddr size : Nat}
    (access cache buffer nonsecure : Nat) (hp : paddr < 4294967296) (hs : size < 4294967296) :
    mapPhysMem k paddr size access cache buffer nonsecure = (0, k) ∨
    ∃ q b', TakesRun k paddr size q b' ∧
      mapPhysMem k paddr size access cache buffer nonsecure =
        (if (mapKernelSections k.kernelTable paddr (paddr + size) (mmmStart + 4096 * q)
            (physMemInfo access cache buffer nonsecure)).1 = 0 then
          mmmStart + 4096 * q + paddr % 4096 else 0,
        { k with
          mmm := b'
          kernelTable := (mapKernelSections k.kernelTable paddr (paddr + size) (mmmStart + 4096 * q)
            (physMemInfo access cache buffer nonsecure)).2 }) := by
  obtain ⟨hnone, -⟩ | ⟨q, b', htakes, hr⟩ := mmmAllocatePages_cases hk hp hs
  · left
    simp only [mapPhysMem, hnone]
    rfl
  · have hne : mmmStart + 4096 * q ≠ 0 := by unfold mmmStart; omega
    have halign : (mmmStart + 4096 * q) / 4096 * 4096 = mmmStart + 4096 * q := by
      unfold mmmStart
      omega
    refine Or.inr ⟨q, b', htakes, ?_⟩
    simp only [mapPhysMem, hr, if_neg hne, w32_of_lt htakes.inside, halign]
    split
    · rfl
    · rename_i hdone
      simp only [if_pos (not_not.mp hdone)]

/-- **Mapping physical memory** fails, or maps the range on free pages. -/
theorem mapPhysMem_spec {k : Kernel} (hk : k.mmm.words = 8192)
    {paddr size : Nat} (access cache buffer nonsecure : Nat) (hp : paddr < 4294967296)
    (hs : size < 4294967296) :
    (mapPhysMem k paddr size access cache buffer nonsecure).1 = 0 ∨
    ∃ q, MapsRange k (mapPhysMem k paddr size access cache buffer nonsecure).2 paddr size
      (physMemInfo access cache buffer nonsecure) (mapPhysMem k paddr size access cache buffer nonsecure).1 q := by
  obtain hnull | ⟨q, b', htakes, heq⟩ := mapPhysMem_cases hk access cache buffer nonsecure hp hs
  · exact Or.inl (by rw [hnull])
  have hin := htakes.inside
  have hcount := htakes.count
  have hpages := htakes.pages
  rw [heq]
  by_cases hr0 : (mapKernelSections k.kernelTable paddr (paddr + size) (mmmStart + 4096 * q)
      (physMemInfo access cache buffer nonsecure)).1 = 0
  · obtain ⟨-, hxn, hwalk⟩ := mapKernelSections_spec rfl hin (Nat.le_add_right _ _)
      (by unfold mmmStart; omega) (by unfold mmmStart; omega) (by unfold mmmStart; omega) hr0
    rw [Nat.add_sub_cancel_left] at hxn hwalk
    exact Or.inr ⟨q, htakes.run, if_pos hr0, hin, hwalk, hxn, htakes.words, htakes.marked, rfl⟩
  · exact Or.inl (if_neg hr0)

/-- **A range inside one page** is mapped wherever there is a free page. -/
theorem mapPhysMem_onePage {k : Kernel} (hk : MapableOk k) {paddr size : Nat}
    (cache buffer nonsecure : Nat) (hp : paddr < 4294967295 - 4095)
    (hone : paddr % 4096 + size < 4096) :
    mapPhysMem k paddr size apSvcRwUsrNo cache buffer nonsecure = (0, k) ∨
      (mapPhysMem k paddr size apSvcRwUsrNo cache buffer nonsecure).1 ≠ 0 := by
  have hs : size < 4294967296 := by omega
  obtain hnull | ⟨q, b', htakes, heq⟩ := mapPhysMem_cases hk.words apSvcRwUsrNo cache buffer
    nonsecure (Nat.lt_of_lt_of_le hp (by decide)) hs
  · exact Or.inl hnull
  have hn : neededPages paddr size = 1 := by
    rw [htakes.count]
    omega
  have hpages := htakes.pages
  -- the one page is free, so it is not mapped, and the loop ends after it
  have hin := htakes.run.inside
  have hnone := hk.free q (htakes.run.run q (le_refl q) (by omega)) (by omega)
  have hmap := mapMemoryV_small (t := k.kernelTable) (s := { physMemInfo apSvcRwUsrNo cache buffer
    nonsecure with paddr := paddr, vaddr := mmmStart + 4096 * q }) rfl hnone
  have hkm : mapKernelMemory k.kernelTable { physMemInfo apSvcRwUsrNo cache buffer nonsecure with
      paddr := paddr, vaddr := mmmStart + 4096 * q } =
      mapMemoryV k.kernelTable { physMemInfo apSvcRwUsrNo cache buffer nonsecure with
        paddr := paddr, vaddr := mmmStart + 4096 * q } := by
    have hhigh : ¬ mmmStart + 4096 * q < 0x80000000 := by unfold mmmStart; omega
    have hap : ¬ (apSvcRwUsrNo = apSvcRwUsrRw ∨ apSvcRwUsrNo = apSvcRwUsrRo ∨
        apSvcRwUsrNo = apSvcRoUsrRo) := by decide
    unfold mapKernelMemory
    exact (if_neg hhigh).trans (if_neg hap)
  have hloop : (mapKernelSections k.kernelTable paddr (paddr + size) (mmmStart + 4096 * q)
      (physMemInfo apSvcRwUsrNo cache buffer nonsecure)).1 = 0 := by
    have hfuel : sectionsFuel (physMemInfo apSvcRwUsrNo cache buffer nonsecure).type.size =
        1048576 + 1 + 1 := by
      have hsize : (physMemInfo apSvcRwUsrNo cache buffer nonsecure).type.size = 4096 := rfl
      rw [hsize]
      unfold sectionsFuel
      omega
    have hsize : w32 (paddr + (physMemInfo apSvcRwUsrNo cache buffer nonsecure).type.size) =
        paddr + 4096 := w32_of_lt (by
      have hsize : (physMemInfo apSvcRwUsrNo cache buffer nonsecure).type.size = 4096 := rfl
      rw [hsize]
      omega)
    unfold mapKernelSections
    rw [hfuel, mapSectionsLoop, if_pos (Nat.le_add_right _ _), hkm]
    simp only [hmap.1, ne_eq, not_true_eq_false, if_false]
    rw [hsize, mapSectionsLoop, if_neg (by omega)]
  right
  rw [heq, if_pos hloop]
  simp only
  unfold mmmStart
  omega

/-- The addresses of a mapped range lead to the range; the end of a range that is not on a page
boundary may not be mapped, but leads nowhere else. -/
theorem MapsRange.translate {k k' : Kernel} {paddr size : Nat} {s : KernelMemInfo} {v q j : Nat}
    (hk : MapableOk k) (h : MapsRange k k' paddr size s v q) (hj : j < size) :
    translate k' (v + j) =
      if (paddr % 4096 + j) / 4096 ≤ size / 4096 then
        some ⟨paddr + j, s.attrIn k.kernelTable (v + j)⟩
      else none := by
  have hin := h.run.inside
  have hpages : k.mmm.pages = 262144 := Bitmap.pages_of_words hk.words
  have hn := neededPages_eq (show paddr < 4294967296 by have := h.inside; omega)
    (show size < 4294967296 by have := h.inside; omega)
  rw [if_pos h.inside] at hn
  have hlast : (paddr % 4096 + j) / 4096 < neededPages paddr size := by omega
  have hva : v + j = 0x80000000 + 4096 * q + (paddr % 4096 + j) := by
    rw [h.addr]
    unfold mmmStart
    omega
  have hlow : v + j < 4294967296 := by omega
  unfold Mm.translate
  rw [if_neg (by omega), h.walk]
  unfold mappedRun
  by_cases hmapped : (paddr % 4096 + j) / 4096 ≤ size / 4096
  · rw [if_pos hmapped, if_pos (by unfold mmmStart; omega)]
    congr 2
    unfold mmmStart
    omega
  · rw [if_neg hmapped, if_neg (by unfold mmmStart; omega)]
    have hfree := h.run.run (q + (paddr % 4096 + j) / 4096) (by omega) (by omega)
    exact walk_none_page (hk.free _ hfree (by omega)) (by unfold mmmStart; omega)

/-! ## 4. Handing frames to a process -/

/-- A first-level entry after an edit: the old one, none, or one of a coarse table. -/
def KeepsCoarse (t t' : PageTable) : Prop :=
  ∀ i, t' i = t i ∨ t' i = .fault ∨ ∃ desc l2, t' i = .table desc l2

theorem KeepsCoarse.refl (t : PageTable) : KeepsCoarse t t := fun _ => Or.inl rfl

theorem KeepsCoarse.update {t : PageTable} {i : Nat} {e : L1Entry}
    (he : e = .fault ∨ ∃ desc l2, e = .table desc l2) : KeepsCoarse t (Function.update t i e) := by
  intro x
  by_cases hx : x = i
  · subst hx
    rw [Function.update_self]
    exact Or.inr he
  · exact Or.inl (Function.update_of_ne hx _ _)

theorem KeepsCoarse.coarse {t t' : PageTable} {va : Nat} (hk : KeepsCoarse t t')
    (h : Coarse t va) : Coarse t' va := by
  intro d
  rcases hk (l1Index va) with he | he | ⟨desc, l2, he⟩
  · rw [he]
    exact h d
  · rw [he]
    exact fun h => L1Entry.noConfusion h
  · rw [he]
    exact fun h => L1Entry.noConfusion h

theorem keepsCoarse_mapMemoryV (t : PageTable) {s : KernelMemInfo} (hs : s.type = .smallPage) :
    KeepsCoarse t (mapMemoryV t s).2 := by
  unfold mapMemoryV
  cases ht : t (l1Index s.vaddr) with
  | fault =>
    simp only [ht, hs]
    exact KeepsCoarse.update (Or.inr ⟨_, _, rfl⟩)
  | table desc l2 =>
    simp only [ht, hs]
    split
    · exact KeepsCoarse.update (Or.inr ⟨_, _, rfl⟩)
    · exact KeepsCoarse.refl t
  | «section» d' =>
    simp only [ht]
    exact KeepsCoarse.refl t

/-- Every page the loop maps leads to the first frame: `info.paddr` is never moved on. -/
def aliasedRun (k : Kernel) (t : PageTable) (paddr vaddr n va : Nat) : Option Leaf :=
  if vaddr / 4096 ≤ va / 4096 ∧ va / 4096 < vaddr / 4096 + n then
    some ⟨paddr / 4096 * 4096 + va % 4096, (taskMemInfo k paddr vaddr).attrIn t va⟩
  else walk t va

/-- One more page. -/
theorem mapTaskPages_succ (k : Kernel) (paddr frameStart n : Nat) (t : PageTable) :
    mapTaskPages k paddr frameStart (n + 1) t =
      (mapMemoryV (mapTaskPages k paddr frameStart n t)
        (taskMemInfo k paddr (pageAddr frameStart n))).2 := by
  unfold mapTaskPages
  rw [List.range_succ, List.foldl_append, List.foldl_cons, List.foldl_nil]

theorem pageAddr_of_lt {vaddr i : Nat} (h : vaddr + 4096 * i < 4294967296) :
    pageAddr vaddr i = vaddr + 4096 * i := w32_of_lt h

/-- **The mapping loop of `map_mem_to_task`** on pages that are not mapped. -/
theorem mapTaskPages_spec (k : Kernel) (paddr : Nat) {vaddr : Nat} {t : PageTable}
    (hal : vaddr % 4096 = 0) :
    ∀ {n : Nat}, vaddr / 4096 + n < 1048576 → (∀ i, i < n → walk t (vaddr + 4096 * i) = none) →
      (∀ va, walk (mapTaskPages k paddr vaddr n t) va = aliasedRun k t paddr vaddr n va) ∧
        (∀ va, Coarse t va → Coarse (mapTaskPages k paddr vaddr n t) va) ∧
        ∀ va, regionNs (mapTaskPages k paddr vaddr n t) 0 va = regionNs t 0 va
  | 0, _, _ => by
    refine ⟨fun va => ?_, fun va h => h, fun va => rfl⟩
    unfold aliasedRun
    rw [if_neg (by omega)]
    rfl
  | n + 1, hhi, hfree => by
    obtain ⟨hmap, hcoarse, hns⟩ := mapTaskPages_spec k paddr hal (n := n) (by omega)
      (fun i hi => hfree i (by omega))
    have hpage := pageAddr_of_lt (show vaddr + 4096 * n < 4294967296 by omega)
    have hs : (taskMemInfo k paddr (pageAddr vaddr n)).type = .smallPage := rfl
    have hva : (taskMemInfo k paddr (pageAddr vaddr n)).vaddr = vaddr + 4096 * n := hpage
    -- the page is not among those mapped before
    have hnone : walk (mapTaskPages k paddr vaddr n t)
        (taskMemInfo k paddr (pageAddr vaddr n)).vaddr = none := by
      rw [hva, hmap]
      unfold aliasedRun
      rw [if_neg (by omega)]
      exact hfree n (Nat.lt_succ_self n)
    have hwalk := (mapMemoryV_small hs hnone).2
    rw [hva] at hwalk
    rw [mapTaskPages_succ]
    refine ⟨fun va => ?_, fun va h => (keepsCoarse_mapMemoryV _ hs).coarse (hcoarse va h),
      fun va => (regionNs_mapMemoryV (t := mapTaskPages k paddr vaddr n t) hs va).trans (hns va)⟩
    rw [hwalk va, hmap va]
    unfold aliasedRun
    by_cases h1 : va / 4096 = (vaddr + 4096 * n) / 4096
    · rw [if_pos h1, if_pos (by omega)]
      have hattr : regionNs (mapTaskPages k paddr vaddr n t) 0 (vaddr + 4096 * n) =
          regionNs t 0 va := by
        rw [hns, regionNs_page h1]
      exact congrArg (fun ns => some (Leaf.mk (paddr / 4096 * 4096 + va % 4096)
        ((taskMemInfo k paddr vaddr).attrNs ns))) hattr
    · rw [if_neg h1]
      by_cases h2 : vaddr / 4096 ≤ va / 4096 ∧ va / 4096 < vaddr / 4096 + n
      · rw [if_pos h2, if_pos (by omega)]
      · rw [if_neg h2, if_neg (by omega)]

/-- What `allocateMapMemToTask` has done when it returns `v`: the window's pages from `q` on and
the frames from `f` on were free, and all the pages lead to the first frame. -/
structure Handed (k k' : Kernel) (size v q f : Nat) : Prop where
  window : FirstRun k.proc.membitmap.isFree (size / 4096 + 1) k.proc.membitmap.pages q
  frames : FirstRun k.pmm.isFree (size / 4096 + 1) k.pmm.pages f
  addr : v = userStartMappedMem + 4096 * q
  walk : ∀ va, walk k'.proc.vuserPD va =
    aliasedRun k k.proc.vuserPD (k.physStart + 4096 * f) v (size / 4096 + 1) va
  coarse : ∀ va, Coarse k.proc.vuserPD va → Coarse k'.proc.vuserPD va
  windowWords : k'.proc.membitmap.words = k.proc.membitmap.words
  windowMarked : ∀ p, k'.proc.membitmap.isFree p =
    (k.proc.membitmap.isFree p && !decide (q ≤ p ∧ p < q + (size / 4096 + 1)))
  frameWords : k'.pmm.words = k.pmm.words
  frameMarked : ∀ p, k'.pmm.isFree p =
    (k.pmm.isFree p && !decide (f ≤ p ∧ p < f + (size / 4096 + 1)))
  rest : k' = { k with pmm := k'.pmm, proc := { k.proc with
    membitmap := k'.proc.membitmap, vuserPD := k'.proc.vuserPD } }

/-- The frames of a buffer: there is no run of free ones, or the first run is taken. -/
theorem pmmAllocatePages_cases {k : Kernel} (hk : WindowOk k) {size : Nat}
    (hs : size < 4294967296) :
    (pmmAllocatePages k (neededPages 0 size) = (0, k) ∧
        ∀ f, ¬ FirstRun k.pmm.isFree (size / 4096 + 1) k.pmm.pages f) ∨
      ∃ f b', pmmAllocatePages k (neededPages 0 size) =
          (k.physStart + 4096 * f, { k with pmm := b' }) ∧
        FirstRun k.pmm.isFree (size / 4096 + 1) k.pmm.pages f ∧ b'.words = k.pmm.words ∧
        (∀ p, b'.isFree p = (k.pmm.isFree p && !decide (f ≤ p ∧ p < f + (size / 4096 + 1)))) ∧
        k.physStart + 4096 * f + size < 4294967296 ∧ size / 4096 + 1 ≤ 65536 := by
  have hbelow := hk.below
  have hfew := hk.few
  have hn : neededPages 0 size = size / 4096 + 1 := by
    rw [neededPages_eq (by decide) hs, Nat.zero_add, if_pos hs, Nat.zero_div, Nat.sub_zero]
  rcases allocatePages_spec k.pmm k.physStart (n := size / 4096 + 1) (by omega) (by omega) with
    ⟨hr, hnone⟩ | ⟨f, b', hr, hframes, hfw, hfree, -⟩
  · refine Or.inl ⟨?_, hnone⟩
    simp only [pmmAllocatePages, hn, hr]
  · have hle := hframes.inside
    have hp : w32 (k.physStart + f * 4096) = k.physStart + 4096 * f := by
      rw [w32_of_lt (by omega)]
      omega
    rw [hp] at hr
    refine Or.inr ⟨f, b', ?_, hframes, hfw, hfree, by omega, by omega⟩
    simp only [pmmAllocatePages, hn, hr]

/-- **Handing memory to a process** fails, or maps free window pages. -/
theorem allocateMapMemToTask_spec {k : Kernel} (hk : WindowOk k) {size : Nat}
    (hs : size < 4294967296) :
    (allocateMapMemToTask k size).1 = 0 ∧
        ((∀ f, ¬ FirstRun k.pmm.isFree (size / 4096 + 1) k.pmm.pages f) ∨
          ∀ q, ¬ FirstRun k.proc.membitmap.isFree (size / 4096 + 1) k.proc.membitmap.pages q) ∨
      ∃ q f, Handed k (allocateMapMemToTask k size).2 size (allocateMapMemToTask k size).1 q f := by
  have hpages : k.proc.membitmap.pages = 25600 := Bitmap.pages_of_words hk.words
  rcases pmmAllocatePages_cases hk hs with
    ⟨hr, hnone⟩ | ⟨f, b', hr, hframes, hfw, hfree, hin, hmax⟩
  · left
    refine ⟨?_, Or.inl hnone⟩
    simp only [allocateMapMemToTask, hr]
    rfl
  · have hpos := hk.positive
    have hal := hk.aligned
    have hn' : neededPages (k.physStart + 4096 * f) size = size / 4096 + 1 := by
      rw [neededPages_eq (by omega) hs, if_pos hin]
      omega
    have hne : k.physStart + 4096 * f ≠ 0 := by omega
    rcases allocatePages_spec k.proc.membitmap userStartMappedMem (n := size / 4096 + 1)
      (by omega) (by omega) with ⟨hw, hnone⟩ | ⟨q, w', hw, hwindow, hww, hwfree, -⟩
    · left
      refine ⟨?_, Or.inr hnone⟩
      simp only [allocateMapMemToTask, hr, if_neg hne, mapMemToTask,
        allocateTaskMappedPageFrames, hn', hw]
      omega
    · have hin := hwindow.inside
      have hv : w32 (userStartMappedMem + q * 4096) = userStartMappedMem + 4096 * q := by
        rw [w32_of_lt (by unfold userStartMappedMem; omega)]
        omega
      rw [hv] at hw
      right
      refine ⟨q, f, ?_⟩
      simp only [allocateMapMemToTask, hr, if_neg hne, mapMemToTask,
        allocateTaskMappedPageFrames, hn', hw]
      have haddr : (userStartMappedMem + 4096 * q) / 4096 * 4096 + (k.physStart + 4096 * f) % 4096 =
          userStartMappedMem + 4096 * q := by
        unfold userStartMappedMem
        omega
      rw [haddr]
      have hrun := fun k1 => mapTaskPages_spec k1 (k.physStart + 4096 * f)
        (show (userStartMappedMem + 4096 * q) % 4096 = 0 by unfold userStartMappedMem; omega)
        (t := k.proc.vuserPD) (n := size / 4096 + 1)
        (by unfold userStartMappedMem; omega) (by
          intro i hi
          rw [Nat.add_assoc, ← Nat.mul_add]
          exact hk.free (q + i) (hwindow.run _ (by omega) (by omega)) (by omega))
      exact ⟨hwindow, hframes, rfl, (hrun _).1, (hrun _).2.1, hww, hwfree, hfw, hfree, rfl⟩

end AndixOs.Mm
