/-
# Giving a mapping back

`unmap_memory` is meant to undo `map_phys_mem`.  Its loop asks for the size of the block at an
address it never moves on, so it unmaps and frees one page.

The results are about every mapable state that mapping and unmapping can reach: `Mapable` holds
after `mmm_init` and both operations keep it (`mapable_of_run`), whatever they are asked for and
whether or not they succeed.  In such a state `unmap_memory` undoes `map_phys_mem` exactly when
the run is one page long (`unmapMemory_restores_iff`).
-/
import AndixOs.Mm.Mapping
import AndixOs.Lib.Run

namespace AndixOs.Mm

variable {k : Kernel} {t : PageTable} {paddr size access cache buffer nonsecure : Nat}

/-! ## 1. Unmapping one page -/

/-- The page of the address is gone, whatever held it. -/
theorem walk_unmap_page (t : PageTable) {va vb : Nat} (h : vb / 0x1000 = va / 0x1000) :
    walk (unmapMemoryFromPd t va).2 vb = none := by
  by_cases hc : Coarse t va
  · rw [walk_unmapMemoryFromPd hc, if_pos h]
  · -- a section takes the whole megabyte with it
    obtain ⟨d, hd⟩ := not_forall.mp hc
    simp only [unmapMemoryFromPd, not_not.mp hd, walk, (page_eq_iff.mp h).1, Function.update_self]

/-- Other megabytes are not touched. -/
theorem unmapMemoryFromPd_other (t : PageTable) {va i : Nat} (h : i ≠ l1Index va) :
    (unmapMemoryFromPd t va).2 i = t i := by
  cases ht : t (l1Index va) with
  | fault => simp only [unmapMemoryFromPd, ht]
  | table desc l2 =>
    simp only [unmapMemoryFromPd, ht]
    split
    · rfl
    · exact Function.update_of_ne h _ _
  | «section» d => simp only [unmapMemoryFromPd, ht, Function.update_of_ne h]

theorem walk_unmap_other (t : PageTable) {va vb : Nat} (h : l1Index vb ≠ l1Index va) :
    walk (unmapMemoryFromPd t va).2 vb = walk t vb := by
  simp only [walk, unmapMemoryFromPd_other t h]

/-- Unmapping maps nothing. -/
theorem walk_unmap_none {va vb : Nat} (h : walk t vb = none) :
    walk (unmapMemoryFromPd t va).2 vb = none := by
  by_cases h1 : l1Index vb = l1Index va
  · by_cases hc : Coarse t va
    · rw [walk_unmapMemoryFromPd hc]
      split
      · rfl
      · exact h
    · obtain ⟨d, hd⟩ := not_forall.mp hc
      simp only [unmapMemoryFromPd, not_not.mp hd, walk, h1, Function.update_self]
  · rw [walk_unmap_other t h1, h]

/-! ## 2. `unmap_memory` on the mapable area -/

/-- An address of the mapable area. -/
theorem memGetType_mapable {v : Nat} (h1 : mmmStart ≤ v) (h2 : v < mmmEnd) :
    memGetType k v = .mapableMem := by
  have hne : isMemAddr k.mmm mmmStart mmmEnd v ≠ 0 := by
    unfold isMemAddr
    rw [if_pos ⟨h1, h2⟩]
    simp only
    split <;> decide
  unfold memGetType
  rw [if_pos hne]

/-- The bit that `mmm_free_page` sets for an address of the mapable area. -/
theorem freedPage_mapable {v : Nat} (h1 : mmmStart ≤ v) (h2 : v < mmmEnd) :
    freedPage mmmStart v = some ((v - mmmStart) / 4096) := by
  unfold mmmStart mmmEnd at *
  have hsub : sub32 v 0x80000000 = v - 0x80000000 := sub32_of_le h1 (by omega)
  unfold freedPage
  rw [hsub, if_pos (by omega)]

/-- The size lookup writes nothing for such a page. -/
theorem vmmGetVirtBlockSize_xn {t : PageTable} {va start end_ : Nat} (h : XnPage t va) :
    vmmGetVirtBlockSize t va start end_ = (start, end_) := by
  obtain ⟨desc, l2, ht, h3⟩ := h
  unfold vmmGetVirtBlockSize
  rw [ht]
  simp only [h3]

/-- **What `unmap_memory` does to a mapping of `map_phys_mem`**: whatever the size, the loop makes
one round, and the one page of the address is unmapped and freed. -/
theorem unmapMemory_mapable {v : Nat} (h1 : mmmStart ≤ v) (h2 : v < mmmEnd)
    (hpage : XnPage k.kernelTable v) (hwrap : v + size < 4294967296) :
    unmapMemory k v size = some (mmmFreePage (unmapKernelMemory k v) v) := by
  unfold unmapMemory
  rw [w32_of_lt hwrap, if_neg (by omega), memGetType_mapable h1 h2, unmapMemoryLoop,
    vmmGetVirtBlockSize_xn hpage]
  simp only
  rw [if_neg (by omega)]
  rfl

/-- What is left after a page is unmapped and freed. -/
theorem isFree_unmapPage {v : Nat} (h1 : mmmStart ≤ v) (h2 : v < mmmEnd) (p : Nat) :
    (mmmFreePage (unmapKernelMemory k v) v).mmm.isFree p =
      (k.mmm.isFree p || decide (p = (v - mmmStart) / 4096)) := by
  have h := isFree_freePage k.mmm mmmStart v p
  rw [freedPage_mapable h1 h2] at h
  simp only [Option.some.injEq] at h
  rw [show (mmmFreePage (unmapKernelMemory k v) v).mmm = freePage k.mmm mmmStart v from rfl, h]
  congr 1
  rw [decide_eq_decide]
  exact eq_comm

/-! ## 3. A mapping that fails is taken back -/

/-- A kernel mapping that fails changes nothing. -/
theorem mapKernelMemory_fails {s : KernelMemInfo} (hs : s.type = .smallPage)
    (h : (mapKernelMemory t s).1 ≠ 0) : (mapKernelMemory t s).2 = t := by
  unfold mapKernelMemory at h ⊢
  by_cases hlow : s.vaddr < 0x80000000
  · rw [if_pos hlow]
  · rw [if_neg hlow] at h ⊢
    by_cases hap : s.ap = apSvcRwUsrRw ∨ s.ap = apSvcRwUsrRo ∨ s.ap = apSvcRoUsrRo
    · rw [if_pos hap]
    · rw [if_neg hap] at h ⊢
      by_cases hnone : walk t s.vaddr = none
      · exact absurd (mapMemoryV_small hs hnone).1 h
      · rw [mapMemoryV_mapped hs hnone]

/-- The loop fails at the first page that is mapped, at the kernel image at the latest; until then
it has mapped the pages from `vstart` on. -/
theorem mapSectionsLoop_fails {s : KernelMemInfo} {end_ : Nat} (hs : s.type = .smallPage) :
    ∀ {fuel start vstart v : Nat} {t t' : PageTable},
      mapSectionsLoop s end_ fuel start vstart t = (some v, t') → walk t mmmEnd ≠ none →
      vstart ≤ mmmEnd → vstart % 4096 = 0 →
      vstart ≤ v ∧ v ≤ mmmEnd ∧ v % 4096 = 0 ∧
        ∀ va, va / 4096 < vstart / 4096 ∨ v / 4096 ≤ va / 4096 → walk t' va = walk t va
  | 0, _, _, _, _, _, h, _, _, _ => absurd h (by simp [mapSectionsLoop])
  | fuel + 1, start, vstart, v, t, t', h, himage, hv, hal => by
    have hsize : s.type.size = 4096 := by rw [hs]; rfl
    rw [mapSectionsLoop, hsize] at h
    split at h
    · simp only at h
      split at h
      · rename_i hr
        obtain ⟨hvv, ht⟩ := Prod.mk.inj h
        obtain rfl := Option.some.inj hvv
        have hsame := mapKernelMemory_fails
          (s := { s with paddr := start, vaddr := vstart }) hs hr
        rw [← ht, hsame]
        exact ⟨le_refl _, hv, hal, fun _ _ => rfl⟩
      · rename_i hr
        obtain ⟨-, hnone, hwalk⟩ := mapKernelMemory_small hs (not_not.mp hr)
        -- the image is mapped, so this page is below it
        have hlow : vstart ≠ mmmEnd := by
          rintro rfl
          exact himage hnone
        have hnext : vstart + 4096 ≤ mmmEnd := by unfold mmmEnd at *; omega
        have hw : w32 (vstart + 4096) = vstart + 4096 := w32_of_lt (by unfold mmmEnd at *; omega)
        rw [hw] at h
        have himage' := (hwalk mmmEnd).1
        rw [if_neg (by unfold mmmEnd at *; omega)] at himage'
        obtain ⟨h1, h2, h3, h4⟩ := mapSectionsLoop_fails hs h (by rw [himage']; exact himage) hnext
          (by omega)
        refine ⟨by omega, h2, h3, ?_⟩
        intro va hva
        rw [h4 va (by omega), (hwalk va).1, if_neg (by omega)]
    · exact absurd h (by simp)

/-- The unmapping loop leaves the pages up to `fvend` unmapped, and the megabytes from the image
on as they were. -/
theorem walk_unmapSectionsLoop {fvend : Nat} (hend : fvend < mmmEnd) :
    ∀ (fuel fvstart : Nat) (t : PageTable), fvstart % 4096 = 0 →
      fvend / 4096 + 1 ≤ fvstart / 4096 + fuel →
      (∀ va, walk t va = none ∨ (fvstart / 4096 ≤ va / 4096 ∧ va / 4096 ≤ fvend / 4096) →
        walk (unmapSectionsLoop 4096 fvend fuel fvstart t) va = none) ∧
      ∀ va, mmmEnd ≤ va → walk (unmapSectionsLoop 4096 fvend fuel fvstart t) va = walk t va
  | 0, fvstart, t, _, hfuel => by
    refine ⟨fun va hva => ?_, fun va _ => rfl⟩
    exact hva.elim id fun h => absurd h (by omega)
  | fuel + 1, fvstart, t, hal, hfuel => by
    rw [unmapSectionsLoop]
    split
    · have hw : w32 (fvstart + 4096) = fvstart + 4096 :=
        w32_of_lt (by unfold mmmEnd at *; omega)
      rw [hw]
      obtain ⟨h1, h2⟩ := walk_unmapSectionsLoop hend fuel (fvstart + 4096)
        (unmapMemoryFromPd t fvstart).2 (by omega) (by omega)
      constructor
      · intro va hva
        refine h1 va ?_
        by_cases hpage : va / 4096 = fvstart / 4096
        · exact Or.inl (walk_unmap_page t hpage)
        · exact hva.imp walk_unmap_none fun h => by omega
      · intro va hva
        rw [h2 va hva, walk_unmap_other]
        unfold l1Index mmmEnd at *
        omega
    · refine ⟨fun va hva => ?_, fun va _ => rfl⟩
      exact hva.elim id fun h => absurd h (by omega)

/-- **A mapping that fails** maps nothing that was not mapped, and spares the kernel image. -/
theorem mapKernelSections_fails {s : KernelMemInfo} {start end_ vstart : Nat}
    (hs : s.type = .smallPage) (himage : walk t mmmEnd ≠ none) (hlow : mmmStart ≤ vstart)
    (hv : vstart ≤ mmmEnd) (hal : vstart % 4096 = 0)
    (h : (mapKernelSections t start end_ vstart s).1 ≠ 0) :
    (∀ va, walk t va = none → walk (mapKernelSections t start end_ vstart s).2 va = none) ∧
      ∀ va, mmmEnd ≤ va →
        walk (mapKernelSections t start end_ vstart s).2 va = walk t va := by
  have hsize : s.type.size = 4096 := by rw [hs]; rfl
  unfold mapKernelSections at h ⊢
  rcases hloop : mapSectionsLoop s end_ (sectionsFuel s.type.size) start vstart t with ⟨_ | v, t'⟩
  · rw [hloop] at h
    exact absurd rfl h
  · obtain ⟨h1, h2, h3, h4⟩ := mapSectionsLoop_fails hs hloop himage hv hal
    have hpos : 0 < mmmStart := by decide
    have hsub : sub32 v 1 = v - 1 := sub32_of_le (by omega) (by unfold mmmEnd at *; omega)
    simp only [hsize, hsub]
    have hfuel : sectionsFuel 4096 = 1048578 := rfl
    obtain ⟨h5, h6⟩ := walk_unmapSectionsLoop (show v - 1 < mmmEnd by omega) (sectionsFuel 4096)
      vstart t' hal (by rw [hfuel]; unfold mmmEnd at *; omega)
    constructor
    · intro va hva
      refine h5 va ?_
      by_cases hout : va / 4096 < vstart / 4096 ∨ v / 4096 ≤ va / 4096
      · exact Or.inl ((h4 va hout).trans hva)
      · exact Or.inr (by omega)
    · intro va hva
      rw [h6 va hva, h4 va (Or.inr (by omega))]

/-! ## 4. The reachable states -/

/-- The states of the mapable area: besides `MapableOk`, the kernel image follows the area, and the
stacks lie behind it. -/
structure Mapable (k : Kernel) : Prop extends MapableOk k where
  image : walk k.kernelTable mmmEnd ≠ none
  smmAbove : mmmEnd + 0x100000 ≤ k.layout.smmStart

theorem bootKernel_mapable : Mapable bootKernel where
  toMapableOk := bootKernel_mapableOk
  image := by decide
  smmAbove := by decide

/-- What a caller can ask of the mapable area. -/
inductive MmOp where
  | mapPhysMem (paddr size : UInt32) (access cache buffer nonsecure : UInt8)
  | unmapMemory (addr size : UInt32)

/-- A call; `none` if it never returns. -/
def mmStep (k : Kernel) : MmOp → Option Kernel
  | .mapPhysMem paddr size access cache buffer nonsecure =>
    some (mapPhysMem k paddr.toNat size.toNat access.toNat cache.toNat buffer.toNat
      nonsecure.toNat).2
  | .unmapMemory addr size => unmapMemory k addr.toNat size.toNat

/-- Mapping keeps the states, whether it succeeds or fails. -/
theorem mapable_mapPhysMem (hk : Mapable k) (hp : paddr < 4294967296) (hs : size < 4294967296) :
    Mapable (mapPhysMem k paddr size access cache buffer nonsecure).2 := by
  obtain hnull | ⟨q, b', htakes, heq⟩ := mapPhysMem_cases hk.words access cache buffer nonsecure hp hs
  · rw [hnull]
    exact hk
  have hin := htakes.inside
  have hcount := htakes.count
  have hpages := htakes.pages
  have hwindow : k.mmm.pages = 262144 := Bitmap.pages_of_words hk.words
  have hpages' : b'.pages = 262144 := Bitmap.pages_of_words (htakes.words.trans hk.words)
  rw [heq]
  -- whatever the mapping did, the free pages are not mapped and the image is
  have hkeep : ∀ t', (∀ va, walk k.kernelTable va = none →
      va < mmmStart + 4096 * q ∨ mmmStart + 4096 * (q + neededPages paddr size) ≤ va →
      walk t' va = none) → walk t' mmmEnd = walk k.kernelTable mmmEnd →
      Mapable { k with mmm := b', kernelTable := t' } := by
    intro t' hnone himage
    refine ⟨⟨htakes.words.trans hk.words, fun p hp hlt => ?_⟩, by rw [himage]; exact hk.image,
      hk.smmAbove⟩
    simp only at hp hlt ⊢
    rw [htakes.marked, Bool.and_eq_true, Bool.not_eq_true', decide_eq_false_iff_not] at hp
    rw [hpages'] at hlt
    refine hnone _ (hk.free p hp.1 (by omega)) ?_
    unfold mmmStart
    omega
  by_cases hr0 : (mapKernelSections k.kernelTable paddr (paddr + size) (mmmStart + 4096 * q)
      (physMemInfo access cache buffer nonsecure)).1 = 0
  · obtain ⟨-, -, hwalk⟩ := mapKernelSections_spec rfl hin (Nat.le_add_right _ _)
      (by unfold mmmStart; omega) (by unfold mmmStart; omega) (by unfold mmmStart; omega) hr0
    rw [Nat.add_sub_cancel_left] at hwalk
    refine hkeep _ (fun va hva hout => ?_) ?_
    · rw [hwalk va]
      unfold mappedRun mmmStart at *
      rw [if_neg (by omega), hva]
    · rw [hwalk mmmEnd]
      unfold mappedRun mmmStart mmmEnd
      rw [if_neg (by omega)]
  · obtain ⟨h1, h2⟩ := mapKernelSections_fails rfl hk.image (Nat.le_add_right _ _)
      (by unfold mmmStart mmmEnd; omega) (by unfold mmmStart; omega) hr0
    exact hkeep _ (fun va hva _ => h1 va hva) (h2 mmmEnd (le_refl _))

/-- Where `mem_get_type` finds the memory that `unmap_memory` unmaps. -/
theorem memGetType_bounds (k : Kernel) (addr : Nat) :
    (memGetType k addr = .mapableMem → mmmStart ≤ addr ∧ addr < mmmEnd) ∧
      (memGetType k addr = .stackMem → k.layout.smmStart ≤ addr) := by
  have hmem : ∀ b start end_, isMemAddr b start end_ addr ≠ 0 → start ≤ addr ∧ addr < end_ := by
    intro b start end_ h
    by_contra hno
    exact h (if_neg hno)
  unfold memGetType
  constructor
  · intro h
    by_cases hm : isMemAddr k.mmm mmmStart mmmEnd addr ≠ 0
    · exact hmem _ _ _ hm
    · rw [if_neg hm] at h
      repeat' split at h
      all_goals exact MemSpace.noConfusion h
  · intro h
    by_cases hs : isMemAddr k.smm k.layout.smmStart k.layout.smmEnd addr ≠ 0
    · exact (hmem _ _ _ hs).1
    · rw [if_neg hs] at h
      repeat' split at h
      all_goals exact MemSpace.noConfusion h

/-- Unmapping keeps the states, outside the first megabyte of the kernel image. -/
theorem mapable_unmapKernelMemory {vaddr : Nat} (hk : Mapable k)
    (hne : l1Index mmmEnd ≠ l1Index vaddr) : Mapable (unmapKernelMemory k vaddr) := by
  refine ⟨⟨hk.words, fun p hp hlt => walk_unmap_none (hk.free p hp hlt)⟩, ?_, hk.smmAbove⟩
  exact (walk_unmap_other k.kernelTable hne).symm ▸ hk.image

/-- One round of `unmap_memory`. -/
theorem mapable_unmapRound {mem : MemSpace} {vaddr : Nat} (hk : Mapable k)
    (hmapable : mem = .mapableMem → mmmStart ≤ vaddr ∧ vaddr < mmmEnd)
    (hstack : mem = .stackMem → k.layout.smmStart ≤ vaddr) : Mapable (unmapRound k mem vaddr) := by
  cases mem with
  | mapableMem =>
    obtain ⟨h1, h2⟩ := hmapable rfl
    have hk' := mapable_unmapKernelMemory hk (show l1Index mmmEnd ≠ l1Index vaddr by
      unfold l1Index mmmEnd at *; omega)
    refine ⟨⟨hk.words, fun p hp hlt => ?_⟩, hk'.image, hk.smmAbove⟩
    have hfree := isFree_freePage k.mmm mmmStart vaddr p
    rw [freedPage_mapable h1 h2] at hfree
    rcases Bool.or_eq_true_iff.mp (hfree.symm.trans hp) with hp | hp
    · exact hk'.free p hp hlt
    · refine walk_unmap_page k.kernelTable ?_
      have hpage := Option.some.inj (of_decide_eq_true hp)
      unfold mmmStart at *
      omega
  | stackMem =>
    have h1 := hstack rfl
    have h2 := hk.smmAbove
    have hk' := mapable_unmapKernelMemory hk (show l1Index mmmEnd ≠ l1Index vaddr by
      unfold l1Index mmmEnd at *; omega)
    exact ⟨⟨hk.words, hk'.free⟩, hk'.image, hk.smmAbove⟩
  | kernelCode => exact hk
  | kernelData => exact hk
  | kernelHeap => exact hk
  | userMem => exact hk

theorem layout_unmapRound (k : Kernel) (mem : MemSpace) (vaddr : Nat) :
    (unmapRound k mem vaddr).layout = k.layout := by
  cases mem <;> rfl

/-- The rounds of `unmap_memory`. -/
theorem mapable_unmapMemoryLoop {mem : MemSpace} {vaddr vend : Nat}
    (hmapable : mem = .mapableMem → mmmStart ≤ vaddr ∧ vaddr < mmmEnd) :
    ∀ {fuel start end_ : Nat} {k k' : Kernel}, Mapable k →
      (mem = .stackMem → k.layout.smmStart ≤ vaddr) →
      unmapMemoryLoop mem vaddr vend fuel start end_ k = some k' → Mapable k'
  | 0, _, _, _, _, _, _, h => absurd h (by simp [unmapMemoryLoop])
  | fuel + 1, start, end_, k, k', hk, hstack, h => by
    rw [unmapMemoryLoop] at h
    simp only at h
    have hround := mapable_unmapRound hk hmapable hstack
    split at h
    · refine mapable_unmapMemoryLoop hmapable hround ?_ h
      rw [layout_unmapRound]
      exact hstack
    · obtain rfl := Option.some.inj h
      exact hround

/-- `unmap_memory` keeps the states, if it returns. -/
theorem mapable_unmapMemory {addr : Nat} {k k' : Kernel} (hk : Mapable k)
    (h : unmapMemory k addr size = some k') : Mapable k' := by
  unfold unmapMemory at h
  split at h
  · obtain rfl := Option.some.inj h
    exact hk
  · obtain ⟨h1, h2⟩ := memGetType_bounds k addr
    exact mapable_unmapMemoryLoop h1 hk h2 h

/-- **The reachable states.**  Whatever is asked of the mapable area, a free page is not mapped. -/
theorem mapable_of_run {k0 : Kernel} {ops : List MmOp} (h0 : Mapable k0)
    (hrun : Run (stepOf mmStep) k0 ops k) : Mapable k := by
  refine hrun.invariant ?_ h0
  intro k op k' hk hop
  cases op with
  | mapPhysMem paddr size access cache buffer nonsecure =>
    obtain rfl := Option.some.inj hop
    exact mapable_mapPhysMem hk paddr.toNat_lt size.toNat_lt
  | unmapMemory addr size => exact mapable_unmapMemory hk hop

/-- Unmapping an address of the area takes its page away, and maps nothing. -/
theorem walk_unmapMemory {v va : Nat} {k k' : Kernel} (h1 : mmmStart ≤ v) (h2 : v < mmmEnd)
    (hwrap : v + size < 4294967296) (h : unmapMemory k v size = some k')
    (hva : va = v ∨ walk k.kernelTable va = none) : walk k'.kernelTable va = none := by
  have hround (k : Kernel) (hva : va = v ∨ walk k.kernelTable va = none) :
      walk (unmapRound k .mapableMem v).kernelTable va = none := by
    obtain rfl | hnone := hva
    · exact walk_unmap_page k.kernelTable rfl
    · exact walk_unmap_none hnone
  have hloop : ∀ {fuel start end_ : Nat} {k : Kernel}, va = v ∨ walk k.kernelTable va = none →
      unmapMemoryLoop .mapableMem v (v + size) fuel start end_ k = some k' →
      walk k'.kernelTable va = none := by
    intro fuel
    induction fuel with
    | zero =>
      intro start end_ k _ h
      simp [unmapMemoryLoop] at h
    | succ fuel ih =>
      intro start end_ k hva h
      rw [unmapMemoryLoop] at h
      simp only at h
      split at h
      · exact ih (Or.inr (hround k hva)) h
      · obtain rfl := Option.some.inj h
        exact hround k hva
  unfold unmapMemory at h
  rw [w32_of_lt hwrap, if_neg (by omega), memGetType_mapable h1 h2] at h
  exact hloop hva h

/-! ## 5. Mappings that are held -/

/-- The mapable page of an address. -/
def mapablePage (v : Nat) : Nat := (v - mmmStart) / 4096

/-- The mapable area is what it was in `k0`, up to one page for each of the addresses `live`. -/
structure Holding (k0 k : Kernel) (live : List Nat) : Prop where
  words : k.mmm.words = 8192
  addrs : ∀ v ∈ live, mmmStart ≤ v ∧ v < mmmEnd ∧ k0.mmm.isFree (mapablePage v) = true ∧
    XnPage k.kernelTable v
  apart : (live.map mapablePage).Nodup
  marked : ∀ p, k.mmm.isFree p = (k0.mmm.isFree p && !decide (p ∈ live.map mapablePage))
  walk : ∀ va, (∀ v ∈ live, va / 4096 ≠ v / 4096) →
    walk k.kernelTable va = walk k0.kernelTable va

/-- The area is what it was. -/
def Restored (k0 k : Kernel) : Prop :=
  (∀ p, k.mmm.isFree p = k0.mmm.isFree p) ∧
    ∀ va, walk k.kernelTable va = walk k0.kernelTable va

variable {k0 k' : Kernel} {live : List Nat}

theorem Holding.start (h : k0.mmm.words = 8192) : Holding k0 k0 [] where
  words := h
  addrs := fun v hv => absurd hv (List.not_mem_nil)
  apart := List.nodup_nil
  marked := fun p => by simp
  walk := fun _ _ => rfl

theorem Holding.restored (h : Holding k0 k []) : Restored k0 k :=
  ⟨fun p => (h.marked p).trans (by simp), fun va => h.walk va fun v hv => absurd hv (by simp)⟩

theorem Holding.perm {live' : List Nat} (h : Holding k0 k live) (hp : live.Perm live') :
    Holding k0 k live' where
  words := h.words
  addrs := fun v hv => h.addrs v (hp.mem_iff.mpr hv)
  apart := (hp.map mapablePage).nodup_iff.mp h.apart
  marked := fun p => by
    rw [h.marked]
    simp only [(hp.map mapablePage).mem_iff]
  walk := fun va hva => h.walk va fun v hv => hva v (hp.mem_iff.mp hv)

/-- What is free is still not mapped. -/
theorem Holding.mapableOk (h0 : MapableOk k0) (h : Holding k0 k live) : MapableOk k where
  words := h.words
  free := by
    intro p hp hlt
    have hpages : k.mmm.pages = k0.mmm.pages := by
      unfold Bitmap.pages
      rw [h.words, h0.words]
    rw [h.marked, Bool.and_eq_true, Bool.not_eq_true', decide_eq_false_iff_not] at hp
    rw [h.walk, h0.free p hp.1 (by omega)]
    intro v hv hpage
    refine hp.2 (List.mem_map.mpr ⟨v, hv, ?_⟩)
    have hlow := (h.addrs v hv).1
    unfold mapablePage
    unfold mmmStart at *
    omega

/-- A mapping of one page is held. -/
theorem Holding.map {s : KernelMemInfo} {v q : Nat} (h : Holding k0 k live) (hx : s.execute % 2 = 1)
    (hm : MapsRange k k' paddr size s v q)
    (hone : (paddr + size) / 4096 = paddr / 4096) : Holding k0 k' (v :: live) := by
  have hin := hm.run.inside
  have hpages : k.mmm.pages = 262144 := Bitmap.pages_of_words h.words
  have hn := neededPages_eq (show paddr < 4294967296 by have := hm.inside; omega)
    (show size < 4294967296 by have := hm.inside; omega)
  rw [if_pos hm.inside] at hn
  have hn1 : neededPages paddr size = 1 := by omega
  have haddr := hm.addr
  have hpage : mapablePage v = q := by
    unfold mapablePage
    unfold mmmStart at *
    omega
  have hfree := hm.run.run q (le_refl q) (by omega)
  rw [h.marked, Bool.and_eq_true, Bool.not_eq_true', decide_eq_false_iff_not] at hfree
  have hnew : ∀ va, (mmmStart + 4096 * q) / 4096 ≤ va / 4096 ∧
      va / 4096 < (mmmStart + 4096 * q) / 4096 + (size / 4096 + 1) ↔ va / 4096 = v / 4096 := by
    intro va
    unfold mmmStart at *
    omega
  constructor
  · exact hm.words.trans h.words
  · intro w hw
    rcases List.mem_cons.mp hw with rfl | hw
    · refine ⟨by omega, by unfold mmmStart mmmEnd at *; omega, by rw [hpage]; exact hfree.1, ?_⟩
      exact hm.xn hx _ (Or.inr ((hnew _).mpr rfl))
    · obtain ⟨h1, h2, h3, h4⟩ := h.addrs w hw
      exact ⟨h1, h2, h3, hm.xn hx _ (Or.inl h4)⟩
  · rw [List.map_cons, List.nodup_cons, hpage]
    exact ⟨hfree.2, h.apart⟩
  · intro p
    rw [hm.marked, h.marked, List.map_cons, hpage, hn1, Bool.and_assoc, ← Bool.not_or,
      ← Bool.decide_or]
    congr 2
    rw [decide_eq_decide, List.mem_cons, or_comm]
    exact or_congr_left (by omega)
  · intro va hva
    rw [hm.walk]
    unfold mappedRun
    rw [if_neg fun hno => hva v (List.mem_cons_self ..) ((hnew va).mp hno)]
    exact h.walk va fun w hw => hva w (List.mem_cons_of_mem _ hw)

/-- The pages of other addresses stay. -/
theorem XnPage.unmap {va vb : Nat} (h : XnPage t vb) (hne : vb / 0x1000 ≠ va / 0x1000) :
    XnPage (unmapMemoryFromPd t va).2 vb := by
  obtain ⟨desc, l2, hvb, h3⟩ := h
  by_cases h1 : l1Index vb = l1Index va
  · have h2 : l2Index vb ≠ l2Index va := fun h2 => hne (page_eq_iff.mpr ⟨h1, h2⟩)
    have hva := h1 ▸ hvb
    simp only [unmapMemoryFromPd, hva]
    split
    · exact ⟨desc, l2, hvb, h3⟩
    · exact ⟨desc, _, by rw [h1]; exact Function.update_self .., by
        rw [Function.update_of_ne h2]; exact h3⟩
  · exact ⟨desc, l2, (unmapMemoryFromPd_other t h1).trans hvb, h3⟩

/-- **Giving a held page back.** -/
theorem Holding.unmap {v : Nat} (h0 : MapableOk k0) (h : Holding k0 k (v :: live))
    (hwrap : v + size < 4294967296) :
    ∃ k', unmapMemory k v size = some k' ∧ Holding k0 k' live := by
  obtain ⟨hlow, hhigh, hfree, hxn⟩ := h.addrs v (List.mem_cons_self ..)
  have hapart := h.apart
  rw [List.map_cons, List.nodup_cons] at hapart
  have hother : ∀ w ∈ live, w / 4096 ≠ v / 4096 := by
    intro w hw hpage
    refine hapart.1 (List.mem_map.mpr ⟨w, hw, ?_⟩)
    have hlow' := (h.addrs w (List.mem_cons_of_mem _ hw)).1
    unfold mapablePage
    unfold mmmStart at *
    omega
  refine ⟨_, unmapMemory_mapable hlow hhigh hxn hwrap, ?_⟩
  constructor
  · exact h.words
  · intro w hw
    obtain ⟨h1, h2, h3, h4⟩ := h.addrs w (List.mem_cons_of_mem _ hw)
    exact ⟨h1, h2, h3, h4.unmap (hother w hw)⟩
  · exact hapart.2
  · intro p
    rw [isFree_unmapPage hlow hhigh, h.marked, List.map_cons]
    by_cases hp : p = mapablePage v
    · subst hp
      rw [hfree, decide_eq_false hapart.1]
      simp [mapablePage]
    · have hp' : ¬ p = (v - mmmStart) / 4096 := hp
      simp only [List.mem_cons, hp, hp', false_or, decide_false, Bool.or_false]
  · intro va hva
    refine (walk_unmapMemoryFromPd hxn.coarse va).trans ?_
    by_cases hpage : va / 0x1000 = v / 0x1000
    · rw [if_pos hpage]
      have hpages : k0.mmm.pages = 262144 := Bitmap.pages_of_words h0.words
      refine (walk_none_page (h0.free _ hfree ?_) ?_).symm
      · unfold mapablePage mmmStart mmmEnd at *
        omega
      · unfold mapablePage mmmStart at *
        omega
    · rw [if_neg hpage]
      refine h.walk va fun w hw => ?_
      rcases List.mem_cons.mp hw with rfl | hw
      · exact hpage
      · exact hva w hw

/-! ## 6. `map_phys_mem` and `unmap_memory` -/

/-- **What a map and an unmap leave.**  They restore the area exactly when the range and its end
lie in one page. -/
theorem unmapMemory_restores (hk : MapableOk k) (hp : paddr < 4294967296)
    (hs : size < 4294967296) (hv : (mapPhysMem k paddr size access cache buffer nonsecure).1 ≠ 0) :
    (∃ k', unmapMemory (mapPhysMem k paddr size access cache buffer nonsecure).2
        (mapPhysMem k paddr size access cache buffer nonsecure).1 size = some k' ∧ Restored k k') ↔
      (paddr + size) / 4096 = paddr / 4096 := by
  rcases mapPhysMem_spec hk.words access cache buffer nonsecure hp hs with h0 | ⟨q, hm⟩
  · exact absurd h0 hv
  · generalize mapPhysMem k paddr size access cache buffer nonsecure = r at hv hm ⊢
    obtain ⟨v, k'⟩ := r
    simp only at hv hm ⊢
    have hin := hm.run.inside
    have hpages : k.mmm.pages = 262144 := Bitmap.pages_of_words hk.words
    have hn := neededPages_eq hp hs
    rw [if_pos hm.inside] at hn
    have haddr := hm.addr
    have hwrap : v + size < 4294967296 := by
      unfold mmmStart at haddr
      omega
    constructor
    · rintro ⟨k'', hun, hrest, -⟩
      by_contra hcross
      -- the second page of the run stays marked
      have hxn : XnPage k'.kernelTable v := by
        refine hm.xn rfl v (Or.inr ?_)
        unfold mmmStart at *
        omega
      have hlow : mmmStart ≤ v := by omega
      have hhigh : v < mmmEnd := by
        unfold mmmStart mmmEnd at *
        omega
      rw [unmapMemory_mapable hlow hhigh hxn hwrap] at hun
      obtain rfl := Option.some.inj hun
      have hsecond := hrest (q + 1)
      have hfree := hm.run.run (q + 1) (by omega) (by omega)
      rw [isFree_unmapPage hlow hhigh, hm.marked, hfree, decide_eq_true (by omega),
        decide_eq_false (by unfold mmmStart at *; omega)] at hsecond
      exact absurd hsecond (by decide)
    · intro hone
      obtain ⟨k'', hun, hh⟩ :=
        ((Holding.start hk.words).map rfl hm hone).unmap hk hwrap
      exact ⟨k'', hun, hh.restored⟩

end AndixOs.Mm
