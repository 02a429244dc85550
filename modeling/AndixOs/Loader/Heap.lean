/-
# The heap behind an image

`setup_elf` sets `vheap` page by page to the end of what it has mapped.  When it returns, the heap begins
at a page boundary, and nothing is mapped from there on (`setupElf_heap`), whatever the image says.
-/
import AndixOs.Loader.Safe

namespace AndixOs.Loader

open AndixOs AndixOs.Mm

variable {b : Bytes32} {payload size : Nat} {s s' : LoadState}

/-- `vheap` is a page boundary, and nothing is mapped from there on. -/
structure HeapBehind (s : LoadState) : Prop where
  aligned : s.vheap % 0x1000 = 0
  unmapped : ∀ va, s.vheap ≤ va → walk s.kernel.proc.vuserPD va = none

theorem HeapBehind.congr (h : HeapBehind s) (htable : s'.kernel.proc.vuserPD = s.kernel.proc.vuserPD)
    (hvheap : s'.vheap = s.vheap) : HeapBehind s' :=
  ⟨hvheap ▸ h.aligned, fun va hva => htable ▸ h.unmapped va (hvheap ▸ hva)⟩

theorem HeapBehind.record (h : HeapBehind s) (e : LoadEvent) : HeapBehind (s.record e) := h.congr rfl rfl

/-! ## 1. A segment -/

theorem mapUserPage_table (info : KernelMemInfo) :
    (mapUserPage s info).kernel.proc.vuserPD = (mapMemoryV s.kernel.proc.vuserPD info).2 := by
  rw [mapUserPage]
  dsimp only
  split <;> rfl

theorem mapUserPage_vheap (info : KernelMemInfo) : (mapUserPage s info).vheap = s.vheap := by
  rw [mapUserPage]
  dsimp only
  split <;> rfl

/-- The other pages are as they were. -/
theorem walk_mapUserPage (flags paddr : Nat) {vaddr va : Nat} (hva : ¬va / 0x1000 = vaddr / 0x1000) :
    walk (mapUserPage s (segInfo flags vaddr paddr)).kernel.proc.vuserPD va =
      walk s.kernel.proc.vuserPD va := by
  rw [mapUserPage_table]
  by_cases hnone : walk s.kernel.proc.vuserPD (segInfo flags vaddr paddr).vaddr = none
  · exact ((mapMemoryV_small rfl hnone).2 va).trans (if_neg hva)
  · rw [mapMemoryV_mapped rfl hnone]

theorem mapRound_kernel (ph : Phdr) (ppage i : Nat) : (mapRound ph ppage i s).kernel =
    (mapUserPage s (segInfo ph.pFlags (w32 (ph.pVaddr + 4096 * i)) (w32 (ppage + 4096 * i)))).kernel := by
  rw [mapRound]

/-- A round of the mapping loop moves `vheap` behind its page. -/
theorem HeapBehind.mapRound (h : HeapBehind s) (ph : Phdr) (ppage i : Nat)
    (hlow : w32 (ph.pVaddr + 4096 * i) < 0x80000000) : HeapBehind (mapRound ph ppage i s) := by
  have hend : w32 (ph.pVaddr + 4096 * (i + 1)) = w32 (ph.pVaddr + 4096 * i) + 4096 := by
    rw [w32] at hlow ⊢
    rw [w32]
    omega
  have haligned := h.aligned
  have hvheap : (Loader.mapRound ph ppage i s).vheap =
      heapAfter s.vheap (w32 (ph.pVaddr + 4096 * i) + 4096) := by
    rw [Loader.mapRound, hend]
    dsimp only
    rw [mapUserPage_vheap]
  refine ⟨?_, fun va hva => ?_⟩
  · rw [hvheap, heapAfter]
    split <;> omega
  · rw [hvheap, heapAfter] at hva
    have hne : ¬va / 0x1000 = w32 (ph.pVaddr + 4096 * i) / 0x1000 := by
      split at hva <;> omega
    have hle : s.vheap ≤ va := by
      split at hva <;> omega
    rw [mapRound_kernel, walk_mapUserPage _ _ hne]
    exact h.unmapped va hle

theorem HeapBehind.mapSegment (ph : Phdr) (ppage left i : Nat) (h : HeapBehind s) :
    HeapBehind (mapSegment ph ppage left i s).2 := by
  induction left generalizing i s with
  | zero => exact h
  | succ left ih =>
    rw [Loader.mapSegment]
    split
    · exact h.record _
    · rename_i hlow
      exact ih (i + 1) (h.mapRound ph ppage i (Nat.lt_of_not_le hlow))

theorem storeRun_vheap (addr count : Nat) (src : Nat → UInt8) :
    (storeRun s addr count src).2.vheap = s.vheap := rfl

theorem fillSegment_vheap (ph : Phdr) : (fillSegment b payload s ph).2.vheap = s.vheap := by
  have hzero : (zeroSegment s ph).2.vheap = s.vheap := by rw [zeroSegment, storeRun_vheap]
  by_cases hz : (zeroSegment s ph).1 = true
  · rw [fillSegment_zeroed b payload hz, copySegment, storeRun_vheap]
    exact hzero
  · rw [fillSegment_fault b payload hz, hzero]

theorem HeapBehind.loadSegment (h : HeapBehind s) (ph : Phdr) :
    HeapBehind (loadSegment b payload s ph).2 := by
  have halloc : HeapBehind (allocSegment s ph).2 := h.congr rfl rfl
  have hplace : HeapBehind (placeSegment s ph).2 := halloc.mapSegment ph _ (pgCount ph) 0
  rw [loadSegment_eq]
  split
  · have htable : (fillSegment b payload (placeSegment s ph).2 ph).2.kernel.proc.vuserPD =
        (placeSegment s ph).2.kernel.proc.vuserPD := by rw [fillSegment_kernel]
    exact hplace.congr htable (fillSegment_vheap ph)
  · exact hplace

/-! ## 2. The headers -/

theorem HeapBehind.readFields (h : HeapBehind s) (idx : Nat) (offs : List Nat) :
    HeapBehind (readFields b payload idx s offs) := by
  induction offs generalizing s with
  | nil => exact h
  | cons off offs ih => exact ih (h.record _)

theorem HeapBehind.otherHeader (h : HeapBehind s) (idx : Nat) :
    HeapBehind (otherHeader b payload idx s) := by
  have htype : HeapBehind (readType b payload idx s) := h.record _
  have hfields : HeapBehind (Loader.readFields b payload idx (readType b payload idx s) tlsFields) :=
    htype.readFields idx tlsFields
  rw [Loader.otherHeader]
  dsimp only
  split
  · exact hfields.congr rfl rfl
  · exact htype

theorem HeapBehind.loadHeader (h : HeapBehind s) (idx : Nat) :
    HeapBehind (loadHeader b payload idx s).2 := by
  have htype : HeapBehind (readType b payload idx s) := h.record _
  have hfields : HeapBehind (Loader.readFields b payload idx (readType b payload idx s) loadFields) :=
    htype.readFields idx loadFields
  rw [Loader.loadHeader]
  exact hfields.loadSegment _

theorem HeapBehind.loadHeaders (h : HeapBehind s) (left idx : Nat) :
    HeapBehind (loadHeaders b payload size left idx s).2 := by
  induction left generalizing idx s with
  | zero => exact h
  | succ left ih =>
    by_cases href : w32 (payload + size) < phdrAddr b payload idx
    · rw [loadHeaders_refused href]
      exact h
    · by_cases ht : (readPhdr b (phdrAddr b payload idx)).pType = ptLoad
      · have hload : HeapBehind (Loader.loadHeader b payload idx s).2 := h.loadHeader idx
        rw [loadHeaders_load href ht]
        cases hl : Loader.loadHeader b payload idx s with
        | mk ok s' =>
          rw [hl] at hload
          cases ok with
          | true => exact ih hload (idx + 1)
          | false => exact hload
      · rw [loadHeaders_other href ht]
        exact ih (h.otherHeader idx) (idx + 1)

theorem HeapBehind.checkHeader (h : HeapBehind s) (cs : List (Nat × Nat × Nat)) :
    HeapBehind (checkHeader b payload cs s).2 := by
  induction cs generalizing s with
  | nil => exact h
  | cons c cs ih =>
    obtain ⟨off, w, v⟩ := c
    rw [Loader.checkHeader]
    split
    · exact h.record _
    · exact ih (h.record _)

theorem HeapBehind.readHeader (h : HeapBehind s) : HeapBehind (readHeader b payload s) := by
  rw [Loader.readHeader]
  exact ((((h.record _).record _).record _).record _).record _

theorem HeapBehind.loadImage (h : HeapBehind s) : HeapBehind (loadImage b payload size s).2 := by
  have hloop : HeapBehind (Loader.loadHeaders b payload size (ePhnum b payload) 0 s).2 :=
    h.loadHeaders (ePhnum b payload) 0
  rw [Loader.loadImage]
  split
  · rename_i heq
    rwa [heq] at hloop
  · rename_i heq
    rw [heq] at hloop
    exact hloop.record _

/-- **`setup_elf` leaves an empty heap** behind the image. -/
theorem setupElf_heap (b : Bytes32) (payload size : Nat) (hempty : s.kernel.proc.vuserPD = emptyTable) :
    HeapBehind (setupElf b payload size s).2 := by
  have hstart : HeapBehind { s with vheap := 0 } := by
    refine ⟨rfl, fun va _ => ?_⟩
    dsimp only
    rw [hempty]
    rfl
  have hcheck : HeapBehind (checkHeader b payload headerChecks { s with vheap := 0 }).2 :=
    hstart.checkHeader headerChecks
  rw [setupElf]
  split
  · exact hcheck.readHeader.loadImage
  · exact hcheck

end AndixOs.Loader
