/-
# What is left of a mapping that fails

`map_phys_mem` takes the pages of the mapable area first, and then asks for the mapping.  If that is
refused it returns `NULL` at once: `map_kernel_sections` has taken the mapping back, but nobody gives
the pages back.  So a call that returns `NULL` leaves no trace exactly when it never came to the
mapping (`keepsOnNull_iff`).
-/
import AndixOs.Mm.Sections

namespace AndixOs.Mm

/-! ## 1. The call -/

variable {k : Kernel} {paddr size access cache buffer nonsecure : Nat}

/-- `map_phys_mem` where each loop of the mapping makes at most this many rounds. -/
def runMapPhysMem (fuel : Nat) (k : Kernel) (paddr size access cache buffer nonsecure : Nat) :
    Option (Nat × Kernel) :=
  match mmmAllocatePages k (neededPages paddr size) with
  | (vstart, k) =>
    if vstart = 0 then some (0, k)
    else
      (runMapKernelSections fuel k.kernelTable paddr (w32 (paddr + size)) vstart
        (physMemInfo access cache buffer nonsecure)).map fun x =>
          if x.1 ≠ 0 then (0, { k with kernelTable := x.2 })
          else (vstart / 4096 * 4096 + paddr % 4096, { k with kernelTable := x.2 })

/-- If `NULL` is returned, the bitmap and the translations are what they were. -/
def KeepsOnNull (k : Kernel) (paddr size access cache buffer nonsecure : Nat) : Prop :=
  ∀ fuel k', runMapPhysMem fuel k paddr size access cache buffer nonsecure = some (0, k') →
    Restored k k'

/-- On the pages from `q` on, the mapping comes to one that it may not map: that is all of them when
the access rights are refused, and else one that is mapped.  The pages go on behind the range if its
last one is the last of the physical address space. -/
def MapRefused (k : Kernel) (paddr size q : Nat) (s : KernelMemInfo) : Prop :=
  ∃ i, mmmStart + 4096 * (q + i) < 4294967296 ∧
    (i ≤ size / 4096 ∨ 4294967296 ≤ paddr + 4096 * (size / 4096 + 1)) ∧
    (¬ s.Allowed ∨ walk k.kernelTable (mmmStart + 4096 * (q + i)) ≠ none)

/-! ## 2. When it leaves no trace -/

theorem blockFree_small {t : PageTable} {va : Nat} :
    BlockFree t .smallPage va ↔ walk t va = none :=
  ⟨fun h => h.2 va rfl, fun h => ⟨nofun, fun _ hvb => walk_none_page h hvb⟩⟩

/-- A page of the mapable area is where a small page may be. -/
theorem physMem_aligned (access cache buffer nonsecure q : Nat) :
    (mmmStart + 4096 * q) % (physMemInfo access cache buffer nonsecure).type.size = 0 :=
  Nat.add_mul_mod_self_left _ _ _

/-- The pages that `map_phys_mem` asks for. -/
theorem blockCount_physMem (access cache buffer nonsecure paddr size : Nat) :
    blockCount (physMemInfo access cache buffer nonsecure) paddr (paddr + size) =
      size / 4096 + 1 := by
  unfold blockCount
  rw [Nat.add_sub_cancel_left]
  rfl

theorem reachesTop_physMem (access cache buffer nonsecure paddr size : Nat) :
    ReachesTop (physMemInfo access cache buffer nonsecure) paddr (paddr + size) ↔
      4294967296 ≤ paddr + 4096 * (size / 4096 + 1) := by
  unfold ReachesTop
  rw [blockCount_physMem]
  exact Iff.rfl

/-- The rounds of `map_phys_mem`'s mapping. -/
theorem canMap_physMem {q i : Nat} :
    CanMap k.kernelTable (physMemInfo access cache buffer nonsecure) (mmmStart + 4096 * q) i ↔
      (physMemInfo access cache buffer nonsecure).Allowed ∧
        mmmStart + 4096 * (q + i) < 4294967296 ∧
        walk k.kernelTable (mmmStart + 4096 * (q + i)) = none := by
  unfold CanMap
  rw [show (physMemInfo access cache buffer nonsecure).type = .smallPage from rfl, blockFree_small,
    show MemType.size .smallPage = 4096 from rfl, Nat.add_assoc, ← Nat.mul_add]

/-- A call that has taken pages. -/
theorem runMapPhysMem_takes {q : Nat} {b' : Bitmap} (htakes : TakesRun k paddr size q b')
    (hr : mmmAllocatePages k (neededPages paddr size) = (mmmStart + 4096 * q, { k with mmm := b' }))
    (fuel : Nat) :
    runMapPhysMem fuel k paddr size access cache buffer nonsecure =
      (runMapKernelSections fuel k.kernelTable paddr (paddr + size) (mmmStart + 4096 * q)
        (physMemInfo access cache buffer nonsecure)).map fun x =>
          if x.1 ≠ 0 then (0, { k with mmm := b', kernelTable := x.2 })
          else (mmmStart + 4096 * q + paddr % 4096, { k with mmm := b', kernelTable := x.2 }) := by
  have hne : mmmStart + 4096 * q ≠ 0 := by unfold mmmStart; omega
  have halign : (mmmStart + 4096 * q) / 4096 * 4096 = mmmStart + 4096 * q := by
    unfold mmmStart
    omega
  simp only [runMapPhysMem, hr, if_neg hne, w32_of_lt htakes.inside, halign]

/-- A call that returns does what `mapPhysMem` says. -/
theorem mapPhysMem_of_run (hk : k.mmm.words = 8192) (hp : paddr < 4294967296)
    (hs : size < 4294967296) {fuel : Nat} {x : Nat × Kernel}
    (h : runMapPhysMem fuel k paddr size access cache buffer nonsecure = some x) :
    mapPhysMem k paddr size access cache buffer nonsecure = x := by
  obtain ⟨hnone, -⟩ | ⟨q, b', htakes, hr⟩ := mmmAllocatePages_cases hk hp hs
  · simp only [runMapPhysMem, hnone, if_true] at h
    simp only [mapPhysMem, hnone, if_true]
    exact Option.some.inj h
  · have hpages := htakes.pages
    have hne : mmmStart + 4096 * q ≠ 0 := by unfold mmmStart; omega
    have hal := physMem_aligned access cache buffer nonsecure q
    simp only [runMapPhysMem, hr, if_neg hne, w32_of_lt htakes.inside] at h
    obtain ⟨y, hy, rfl⟩ := Option.map_eq_some_iff.mp h
    have hmap := mapKernelSections_of_run hal (Nat.le_add_right _ _)
      (by have := htakes.count; unfold mmmStart; omega) (Nat.le_add_right _ _) htakes.inside hy
    simp only [mapPhysMem, hr, if_neg hne, w32_of_lt htakes.inside, hmap]

/-- A call whose mapping returns. -/
theorem mapPhysMem_takes (hk : k.mmm.words = 8192) (hp : paddr < 4294967296)
    (hs : size < 4294967296) {q : Nat} {b' : Bitmap} (htakes : TakesRun k paddr size q b')
    (hr : mmmAllocatePages k (neededPages paddr size) = (mmmStart + 4096 * q, { k with mmm := b' }))
    {fuel : Nat} {r : Int} {t' : PageTable}
    (hrun : runMapKernelSections fuel k.kernelTable paddr (paddr + size) (mmmStart + 4096 * q)
      (physMemInfo access cache buffer nonsecure) = some (r, t')) :
    mapPhysMem k paddr size access cache buffer nonsecure =
      if r ≠ 0 then (0, { k with mmm := b', kernelTable := t' })
      else (mmmStart + 4096 * q + paddr % 4096, { k with mmm := b', kernelTable := t' }) := by
  refine mapPhysMem_of_run hk hp hs ((runMapPhysMem_takes htakes hr fuel).trans ?_)
  rw [hrun]
  rfl

/-- **When `NULL` leaves no trace**: the range wraps, or there is no room for it, or where there is
room nothing is refused. -/
theorem keepsOnNull_iff (hk : k.mmm.words = 8192) (access cache buffer nonsecure : Nat)
    (hp : paddr < 4294967296) (hs : size < 4294967296) :
    KeepsOnNull k paddr size access cache buffer nonsecure ↔
      (paddr + size < 4294967296 →
        ∀ q, FirstRun k.mmm.isFree (neededPages paddr size) k.mmm.pages q →
          ¬ MapRefused k paddr size q (physMemInfo access cache buffer nonsecure)) := by
  obtain ⟨hnone, hnorun⟩ | ⟨q, b', htakes, hr⟩ := mmmAllocatePages_cases hk hp hs
  · -- nothing was taken
    refine iff_of_true (fun fuel k' h => ?_) fun hin q hq => absurd hq (hnorun hin q)
    simp only [runMapPhysMem, hnone, if_true] at h
    obtain ⟨-, rfl⟩ := Prod.mk.inj (Option.some.inj h)
    exact ⟨fun _ => rfl, fun _ => rfl⟩
  have hpages := htakes.pages
  have hcount := htakes.count
  have hwanted : ∀ i, (i < blockCount (physMemInfo access cache buffer nonsecure) paddr
      (paddr + size) ∨ ReachesTop (physMemInfo access cache buffer nonsecure) paddr (paddr + size)) ↔
      (i ≤ size / 4096 ∨ 4294967296 ≤ paddr + 4096 * (size / 4096 + 1)) := by
    intro i
    rw [reachesTop_physMem, blockCount_physMem]
    exact or_congr_left Nat.lt_succ_iff
  have hrefused : (paddr + size < 4294967296 →
      ∀ q, FirstRun k.mmm.isFree (neededPages paddr size) k.mmm.pages q →
        ¬ MapRefused k paddr size q (physMemInfo access cache buffer nonsecure)) ↔
      ¬ MapRefused k paddr size q (physMemInfo access cache buffer nonsecure) := by
    refine ⟨fun h => h htakes.inside q htakes.run, fun h _ q' hq' => ?_⟩
    rwa [hq'.unique htakes.run]
  rw [hrefused]
  have hal := physMem_aligned access cache buffer nonsecure q
  rcases runMapKernelSections_cases (t := k.kernelTable) hal (Nat.le_add_right _ _)
    (by unfold mmmStart; omega) (Nat.le_add_right paddr size) htakes.inside with
    ⟨htop, hok, hrun⟩ | ⟨m, hok, hno, hwant, hin, hrun⟩ | ⟨m, hok, hwant, hwrap, hnever⟩
  · -- the range is mapped
    refine iff_of_true (fun fuel k' h => ?_) ?_
    · rw [runMapPhysMem_takes htakes hr] at h
      obtain ⟨x, hx, hnull⟩ := Option.map_eq_some_iff.mp h
      rw [runMapKernelSections_unique hx hrun, if_neg (by simp)] at hnull
      have hzero := congrArg Prod.fst hnull
      simp only [mmmStart] at hzero
      omega
    · rintro ⟨i, -, hi, hbad⟩
      obtain ⟨hallow, -, hfree⟩ := canMap_physMem.mp
        (hok i (((hwanted i).mpr hi).resolve_right htop))
      exact hbad.elim (fun h => h hallow) fun h => h hfree
  · -- the mapping is refused, and the pages are lost
    refine iff_of_false (fun hkeeps => ?_) (not_not.mpr ?_)
    · obtain ⟨fuel, t', hrun⟩ : ∃ fuel t', runMapKernelSections fuel k.kernelTable paddr
          (paddr + size) (mmmStart + 4096 * q) (physMemInfo access cache buffer nonsecure) =
          some (-1, t') := ⟨_, _, hrun⟩
      have hnull : runMapPhysMem fuel k paddr size access cache buffer nonsecure =
          some (0, { k with mmm := b', kernelTable := t' }) := by
        rw [runMapPhysMem_takes htakes hr, hrun]
        rfl
      have hbit := (hkeeps _ _ hnull).1 q
      rw [htakes.marked, htakes.run.run q (Nat.le_refl q) (by omega),
        decide_eq_true ⟨Nat.le_refl q, by omega⟩] at hbit
      exact absurd hbit (by decide)
    · rw [canMap_physMem] at hno
      have hin' : mmmStart + 4096 * (q + m) < 4294967296 := by
        rw [Nat.mul_add, ← Nat.add_assoc]
        exact hin
      refine ⟨m, hin', (hwanted m).mp hwant, ?_⟩
      by_contra hgood
      rw [not_or, not_not, not_not] at hgood
      exact hno ⟨hgood.1, hin', hgood.2⟩
  · -- the call does not return
    refine iff_of_true (fun fuel k' h => ?_) ?_
    · rw [runMapPhysMem_takes htakes hr, hnever fuel] at h
      exact absurd h nofun
    · rintro ⟨i, hi, -, hbad⟩
      have hi' : i < m := by
        rw [show (physMemInfo access cache buffer nonsecure).type.size = 4096 from rfl] at hwrap
        omega
      obtain ⟨hallow, -, hfree⟩ := canMap_physMem.mp (hok i hi')
      exact hbad.elim (fun h => h hallow) fun h => h hfree

/-- After the boot, two pages with the rights of the kernel: nothing is refused. -/
theorem keepsOnNull_boot : KeepsOnNull bootKernel 0x70000000 0x1000 apSvcRwUsrNo 1 1 1 := by
  refine (keepsOnNull_iff rfl apSvcRwUsrNo 1 1 1 (by decide) (by decide)).mpr fun _ q hq => ?_
  have hin : q + 2 ≤ 262144 := hq.inside
  rintro ⟨i, -, hi, hbad⟩
  have hfault : bootTable (l1Index (mmmStart + 4096 * (q + i))) = .fault := by
    refine bootTable_fault ?_
    unfold mmmStart
    omega
  exact hbad.elim (fun h => absurd h (by decide)) fun h => h (walk_of_fault hfault)

/-- The rights of a user program are refused, and the pages are gone. -/
theorem mapPhysMem_keeps_pages : ¬ KeepsOnNull bootKernel 0x70000000 0x1000 apSvcRwUsrRw 1 1 1 := by
  have hnull : (runMapPhysMem 1 bootKernel 0x70000000 0x1000 apSvcRwUsrRw 1 1 1).any
      (fun x => decide (x.1 = 0 ∧ x.2.mmm.isFree 0 = false)) = true := by
    decide +kernel
  obtain ⟨⟨v, k'⟩, hrun, hnull⟩ := (Option.any_eq_true _ _).mp hnull
  obtain ⟨rfl, hgone⟩ := of_decide_eq_true hnull
  intro hkeeps
  have hsame := (hkeeps _ _ hrun).1 0
  rw [hgone] at hsame
  exact absurd hsame (by decide)

/-! ## 3. In the reachable states -/

/-- There is no place for the range in the mapable area, or its last page is the last of the physical
address space. -/
def NoMapableRoom (k : Kernel) (paddr size : Nat) : Prop :=
  4294967296 ≤ paddr + size ∨
    (∀ q, ¬ FirstRun k.mmm.isFree (neededPages paddr size) k.mmm.pages q) ∨
    4294967296 ≤ paddr + 4096 * (size / 4096 + 1)

/-- **When `map_phys_mem` fails**, with the rights of the kernel: it finds no room.  The mapping runs
into something that is mapped only at the kernel image. -/
theorem mapPhysMem_null_iff (hk : Mapable k)
    (hallow : (physMemInfo access cache buffer nonsecure).Allowed) (hp : paddr < 4294967296)
    (hs : size < 4294967296) :
    ((mapPhysMem k paddr size access cache buffer nonsecure).1 = 0 ↔ NoMapableRoom k paddr size) ∧
      ((mapPhysMem k paddr size access cache buffer nonsecure).1 = 0 →
        ∀ va, walk (mapPhysMem k paddr size access cache buffer nonsecure).2.kernelTable va =
          walk k.kernelTable va) := by
  obtain ⟨hnone, hnorun⟩ | ⟨q, b', htakes, hr⟩ := mmmAllocatePages_cases hk.words hp hs
  · have hnull : mapPhysMem k paddr size access cache buffer nonsecure = (0, k) := by
      simp only [mapPhysMem, hnone, if_true]
    rw [hnull]
    refine ⟨iff_of_true rfl ?_, fun _ _ => rfl⟩
    by_cases hin : paddr + size < 4294967296
    · exact Or.inr (Or.inl (hnorun hin))
    · exact Or.inl (Nat.le_of_not_lt hin)
  have hpages := htakes.pages
  have hcount := htakes.count
  have hin := htakes.inside
  have htotal : k.mmm.pages = 262144 := Bitmap.pages_of_words hk.words
  have hal := physMem_aligned access cache buffer nonsecure q
  have htop := reachesTop_physMem access cache buffer nonsecure paddr size
  rcases runMapKernelSections_cases (t := k.kernelTable) hal (Nat.le_add_right _ _)
    (by unfold mmmStart; omega) (Nat.le_add_right paddr size) htakes.inside with
    ⟨hno, hok, hrun⟩ | ⟨m, hok, hbad, hwant, hlt, hrun⟩ | ⟨m, hok, hwant, hwrap, -⟩
  · -- the range is mapped
    have hdone := mapPhysMem_takes hk.words hp hs htakes hr hrun
    have hne : (mapPhysMem k paddr size access cache buffer nonsecure).1 ≠ 0 := by
      rw [hdone, if_neg (by simp)]
      simp only [mmmStart]
      omega
    refine ⟨iff_of_false hne ?_, fun h => absurd h hne⟩
    rintro (h | h | h)
    · omega
    · exact h q htakes.run
    · exact hno (htop.mpr h)
  · -- a page of the run is not mapped, so the loop has left the run
    have hmaps : MapsBlocks k.kernelTable (blocksMapped (physMemInfo access cache buffer nonsecure)
        paddr (mmmStart + 4096 * q) k.kernelTable m) _ paddr (mmmStart + 4096 * q) m :=
      blocksMapped_spec hal fun i hi => (hok i hi).2.2
    rw [mapPhysMem_takes hk.words hp hs htakes hr hrun, if_pos (by simp)]
    refine ⟨iff_of_true rfl (Or.inr (Or.inr (htop.mp (hwant.resolve_left fun hm => hbad ?_)))),
      fun _ va => ?_⟩
    · rw [blockCount_physMem] at hm
      refine canMap_physMem.mpr ⟨hallow, by unfold mmmStart; omega, ?_⟩
      exact hk.free _ (htakes.run.run _ (Nat.le_add_right q m) (by omega)) (by omega)
    · exact hmaps.restored (by simp [physMemInfo]) hal (Nat.le_of_lt hlt) (fun i hi => (hok i hi).2.2) va
  · -- the kernel image is in the way
    rw [show (physMemInfo access cache buffer nonsecure).type.size = 4096 from rfl] at hwrap
    unfold mmmStart at hwrap
    have himage := (canMap_physMem.mp (hok (262144 - q) (by omega))).2.2
    rw [show mmmStart + 4096 * (q + (262144 - q)) = mmmEnd by unfold mmmStart mmmEnd; omega]
      at himage
    exact absurd himage hk.image

end AndixOs.Mm
