/-
# Mapping memory into a process

`map_mem_to_task` takes a run of free slots of the process's window and maps physical memory on
them.  Its loop moves the virtual address on and never the physical one, its calls of
`map_memory_v` are not checked, and a window without room gives the start address 0, which the loop
maps on like any other.

`mapMemToTask_iff` says when this does what a caller relies on; where the free slots are not mapped,
that is for a range inside one page (`taskMapsRight_of_free`).
-/
import AndixOs.Mm.Mapping

namespace AndixOs.Mm

variable {k : Kernel} {t : PageTable} {paddr size vaddr n : Nat}

/-! ## 1. The loop, on any table -/

/-- The walk after the loop: a page of the run that was not mapped leads to the first frame. -/
def filledRun (k : Kernel) (t : PageTable) (paddr vaddr n va : Nat) : Option Leaf :=
  if vaddr / 4096 ≤ va / 4096 ∧ va / 4096 < vaddr / 4096 + n ∧ walk t va = none then
    some ⟨paddr / 4096 * 4096 + va % 4096, (taskMemInfo k paddr vaddr).attrIn t va⟩
  else walk t va

/-- One more page, mapped or not. -/
theorem walk_mapTaskPage (k : Kernel) (paddr va vb : Nat) (t : PageTable) :
    walk (mapMemoryV t (taskMemInfo k paddr va)).2 vb =
      if vb / 4096 = va / 4096 ∧ walk t vb = none then
        some ⟨paddr / 4096 * 4096 + vb % 4096, (taskMemInfo k paddr va).attrIn t vb⟩
      else walk t vb := by
  have hs : (taskMemInfo k paddr va).type = .smallPage := rfl
  have hva : (taskMemInfo k paddr va).vaddr = va := rfl
  by_cases hnone : walk t va = none
  · rw [(mapMemoryV_small hs hnone).2, hva]
    by_cases hvb : vb / 4096 = va / 4096
    · rw [if_pos hvb, if_pos ⟨hvb, walk_none_page hnone hvb⟩]
      unfold KernelMemInfo.attrIn
      rw [regionNs_page hvb]
      rfl
    · rw [if_neg hvb, if_neg fun h => hvb h.1]
  · rw [mapMemoryV_mapped hs hnone]
    by_cases hvb : vb / 4096 = va / 4096
    · rw [if_neg fun h => hnone (walk_none_page h.2 hvb.symm)]
    · rw [if_neg fun h => hvb h.1]

theorem regionNs_mapTaskPages (k : Kernel) (paddr vaddr : Nat) (t : PageTable) (va : Nat) :
    ∀ n, regionNs (mapTaskPages k paddr vaddr n t) 0 va = regionNs t 0 va
  | 0 => rfl
  | n + 1 => by
    rw [mapTaskPages_succ]
    exact (regionNs_mapMemoryV rfl va).trans (regionNs_mapTaskPages k paddr vaddr t va n)

/-- **What the loop maps.** -/
theorem walk_mapTaskPages (k : Kernel) (paddr : Nat) (hal : vaddr % 4096 = 0) (va : Nat) :
    ∀ n, vaddr / 4096 + n ≤ 1048576 →
      walk (mapTaskPages k paddr vaddr n t) va = filledRun k t paddr vaddr n va
  | 0, _ => by
    unfold filledRun
    rw [if_neg (by omega)]
    rfl
  | n + 1, hhi => by
    have hpage := pageAddr_of_lt (show vaddr + 4096 * n < 4294967296 by omega)
    rw [mapTaskPages_succ, walk_mapTaskPage, walk_mapTaskPages k paddr hal va n (by omega), hpage]
    by_cases hin : vaddr / 4096 ≤ va / 4096 ∧ va / 4096 < vaddr / 4096 + n ∧ walk t va = none
    · -- mapped in an earlier round
      have hval : filledRun k t paddr vaddr n va = filledRun k t paddr vaddr (n + 1) va := by
        unfold filledRun
        rw [if_pos hin, if_pos ⟨hin.1, by omega, hin.2.2⟩]
      have hne : filledRun k t paddr vaddr n va ≠ none := by
        unfold filledRun
        rw [if_pos hin]
        exact Option.some_ne_none _
      rw [if_neg fun h => hne h.2, hval]
    · have hval : filledRun k t paddr vaddr n va = walk t va := if_neg hin
      rw [hval]
      unfold filledRun
      by_cases hlast : va / 4096 = (vaddr + 4096 * n) / 4096 ∧ walk t va = none
      · rw [if_pos hlast, if_pos ⟨by omega, by omega, hlast.2⟩]
        exact congrArg (fun ns => some (Leaf.mk (paddr / 4096 * 4096 + va % 4096)
          ((taskMemInfo k paddr vaddr).attrNs ns))) (regionNs_mapTaskPages k paddr vaddr t va n)
      · rw [if_neg hlast, if_neg]
        rintro ⟨h1, h2, h3⟩
        by_cases hpg : va / 4096 = (vaddr + 4096 * n) / 4096
        · exact hlast ⟨hpg, h3⟩
        · exact hin ⟨h1, by omega, h3⟩

/-! ## 2. What a caller relies on -/

/-- What a caller relies on when `map_mem_to_task` returns `v`. -/
structure TaskMapped (k k' : Kernel) (paddr size v : Nat) : Prop where
  bytes : v ≠ 0 → ∀ o, o < size →
    ∃ l, translate k' (v + o) = some l ∧ l.pa = paddr + o ∧ l.usrWrites = true
  slots : v ≠ 0 → ∃ q m, (∀ o, o < size → userStartMappedMem + 4096 * q ≤ v + o ∧
      v + o < userStartMappedMem + 4096 * (q + m)) ∧
    q + m ≤ k.proc.membitmap.pages ∧
    (∀ p, q ≤ p → p < q + m → k.proc.membitmap.isFree p = true) ∧
    ∀ va, va < userStartMappedMem + 4096 * q ∨ userStartMappedMem + 4096 * (q + m) ≤ va →
      walk k'.proc.vuserPD va = walk k.proc.vuserPD va
  null : (∀ q, q + neededPages paddr size ≤ k.proc.membitmap.pages →
      ¬ FreeRun k.proc.membitmap.isFree q (neededPages paddr size)) →
    v = 0 ∧ ∀ va, walk k'.proc.vuserPD va = walk k.proc.vuserPD va

/-- The byte `o` of the range will be found at `va`: the page of `va` is not mapped and the byte is
on the first page of the range, or the page is mapped already and leads there. -/
def ByteRight (t : PageTable) (paddr o va : Nat) : Prop :=
  match walk t va with
  | none => paddr % 4096 + o < 4096
  | some l => l.pa = paddr + o ∧ l.usrWrites = true

/-- There is room and every byte will be found; or there is no room, the address has no offset in
its page, and the first pages of the address space are mapped already. -/
def TaskMapsRight (k : Kernel) (paddr size : Nat) : Prop :=
  (∃ q, FirstRun k.proc.membitmap.isFree (neededPages paddr size) k.proc.membitmap.pages q ∧
    ∀ o, o < size → ByteRight k.proc.vuserPD paddr o
      (userStartMappedMem + 4096 * q + paddr % 4096 + o)) ∨
  (∀ q, ¬ FirstRun k.proc.membitmap.isFree (neededPages paddr size) k.proc.membitmap.pages q) ∧
    paddr % 4096 = 0 ∧ ∀ i, i < neededPages paddr size → walk k.proc.vuserPD (4096 * i) ≠ none

/-! ## 3. With and without room -/

/-- What the call has done: the result, and the process's table. -/
structure Filled (k k' : Kernel) (paddr size v frameStart : Nat) : Prop where
  addr : v = frameStart / 4096 * 4096 + paddr % 4096
  walk : ∀ va, ∃ attr : PageAttr, attr.ap = 3 ∧ walk k'.proc.vuserPD va =
    if frameStart / 4096 ≤ va / 4096 ∧ va / 4096 < frameStart / 4096 + neededPages paddr size ∧
        walk k.proc.vuserPD va = none then
      some ⟨paddr / 4096 * 4096 + va % 4096, attr⟩
    else walk k.proc.vuserPD va

/-- The search decides where the loop maps. -/
theorem filled_of_search {frameStart : Nat} {b : Bitmap}
    (h : allocatePages k.proc.membitmap userStartMappedMem (neededPages paddr size) =
      (frameStart, b)) (hal : frameStart % 4096 = 0)
    (hhi : frameStart / 4096 + neededPages paddr size ≤ 1048576) :
    Filled k (mapMemToTask k paddr size).2 paddr size (mapMemToTask k paddr size).1 frameStart := by
  simp only [mapMemToTask, allocateTaskMappedPageFrames, h]
  refine ⟨rfl, fun va => ⟨_, ?_, walk_mapTaskPages _ paddr hal va _ hhi⟩⟩
  rfl

/-- The pages of a range that does not wrap. -/
theorem neededPages_pos (hin : paddr + size < 4294967296) :
    0 < neededPages paddr size ∧ neededPages paddr size ≤ 1048576 := by
  rw [neededPages_eq (by omega) (by omega), if_pos hin]
  omega

/-- Without room the loop maps the first pages of the address space. -/
theorem taskMapped_noRoom {k' : Kernel} {v : Nat} (hf : Filled k k' paddr size v 0)
    (hno : ∀ q, ¬ FirstRun k.proc.membitmap.isFree (neededPages paddr size)
      k.proc.membitmap.pages q) :
    TaskMapped k k' paddr size v ↔ TaskMapsRight k paddr size := by
  have hrun : ∀ q, q + neededPages paddr size ≤ k.proc.membitmap.pages →
      ¬ FreeRun k.proc.membitmap.isFree q (neededPages paddr size) := by
    intro q hq hfree
    obtain ⟨q', hq'⟩ := exists_firstRun hq hfree
    exact hno q' hq'
  have haddr : v = paddr % 4096 := by
    have := hf.addr
    omega
  constructor
  · intro h
    obtain ⟨hv, hsame⟩ := h.null hrun
    refine Or.inr ⟨hno, haddr ▸ hv, fun i hi hnone => ?_⟩
    obtain ⟨attr, -, hw⟩ := hf.walk (4096 * i)
    rw [if_pos ⟨by omega, by omega, hnone⟩, hsame, hnone] at hw
    exact absurd hw (by simp)
  · rintro (⟨q, hq, -⟩ | ⟨-, hoff, hmapped⟩)
    · exact absurd hq (hno q)
    · have hv : v = 0 := haddr.trans hoff
      refine ⟨fun h => absurd hv h, fun h => absurd hv h, fun _ => ⟨hv, fun va => ?_⟩⟩
      obtain ⟨attr, -, hw⟩ := hf.walk va
      rw [hw, if_neg]
      rintro ⟨-, h2, hnone⟩
      exact hmapped (va / 4096) (by omega) (walk_none_page hnone (by omega))

theorem filled_addr {k' : Kernel} {v q : Nat}
    (hf : Filled k k' paddr size v (userStartMappedMem + 4096 * q)) :
    v = userStartMappedMem + 4096 * q + paddr % 4096 := by
  have haddr := hf.addr
  unfold userStartMappedMem at *
  omega

/-- Where a byte of the run leads. -/
theorem filled_byte_iff {k' : Kernel} {v q o : Nat}
    (hf : Filled k k' paddr size v (userStartMappedMem + 4096 * q))
    (hin : paddr + size < 4294967296) (ho : o < size) (hlow : v + o < 0x80000000) :
    (∃ l, translate k' (v + o) = some l ∧ l.pa = paddr + o ∧ l.usrWrites = true) ↔
      ByteRight k.proc.vuserPD paddr o (v + o) := by
  obtain ⟨attr, hap, hwalk⟩ := hf.walk (v + o)
  have haddr := filled_addr hf
  have hp : paddr < 4294967296 := by omega
  have hs : size < 4294967296 := by omega
  have hn := neededPages_eq hp hs
  rw [if_pos hin] at hn
  unfold userStartMappedMem at *
  have htr : translate k' (v + o) = if walk k.proc.vuserPD (v + o) = none then
      some ⟨paddr / 4096 * 4096 + (v + o) % 4096, attr⟩
      else walk k.proc.vuserPD (v + o) := by
    unfold translate
    rw [if_pos hlow, hwalk]
    congr 1
    refine propext ⟨fun h => h.2.2, fun h => ⟨?_, ?_, h⟩⟩
    · omega
    · omega
  unfold ByteRight
  cases hw : walk k.proc.vuserPD (v + o) with
  | none =>
    rw [htr, if_pos hw]
    have hoff : (v + o) % 4096 = (paddr % 4096 + o) % 4096 := by omega
    constructor
    · rintro ⟨l, hl, hpa, -⟩
      obtain rfl := Option.some.inj hl
      simp only at hpa
      simp only
      omega
    · intro hfirst
      simp only at hfirst
      refine ⟨_, rfl, ?_, ?_⟩
      · simp only
        omega
      · unfold Leaf.usrWrites
        simp only [hap]
        rfl
  | some l =>
    rw [htr, hw, if_neg (Option.some_ne_none l)]
    simp only [Option.some.injEq, exists_eq_left']

/-- With room the loop maps the run. -/
theorem taskMapped_room {k' : Kernel} {v q : Nat}
    (hf : Filled k k' paddr size v (userStartMappedMem + 4096 * q))
    (hq : FirstRun k.proc.membitmap.isFree (neededPages paddr size) k.proc.membitmap.pages q)
    (hwords : k.proc.membitmap.words = membitmapWords) (hin : paddr + size < 4294967296) :
    TaskMapped k k' paddr size v ↔ TaskMapsRight k paddr size := by
  have hpages : k.proc.membitmap.pages = 25600 := Bitmap.pages_of_words hwords
  have hp : paddr < 4294967296 := by omega
  have hs : size < 4294967296 := by omega
  have hn := neededPages_eq hp hs
  rw [if_pos hin] at hn
  have hle := hq.inside
  have haddr := filled_addr hf
  have hne : v ≠ 0 := by
    unfold userStartMappedMem at haddr
    omega
  have hiff : (∀ o, o < size → ∃ l, translate k' (v + o) = some l ∧ l.pa = paddr + o ∧
      l.usrWrites = true) ↔ ∀ o, o < size → ByteRight k.proc.vuserPD paddr o (v + o) := by
    refine forall_congr' fun o => imp_congr_right fun ho => filled_byte_iff hf hin ho ?_
    unfold userStartMappedMem at haddr
    omega
  constructor
  · intro h
    refine Or.inl ⟨q, hq, ?_⟩
    rw [← haddr]
    exact hiff.mp (h.bytes hne)
  · rintro (⟨q', hq', hright⟩ | ⟨hno, -⟩)
    · obtain rfl := hq.unique hq'
      rw [← haddr] at hright
      refine ⟨fun _ => hiff.mpr hright, fun _ => ⟨q, neededPages paddr size, ?_, hle, ?_, ?_⟩,
        fun hno => absurd hq.run (hno q hle)⟩
      · intro o ho
        constructor <;> omega
      · exact hq.run
      · intro va hva
        obtain ⟨attr, -, hw⟩ := hf.walk va
        rw [hw, if_neg]
        rintro ⟨h1, h2, -⟩
        unfold userStartMappedMem at *
        omega
    · exact absurd hq (hno q)

/-! ## 4. `map_mem_to_task` -/

/-- **When `map_mem_to_task` does what a caller relies on**, for every process. -/
theorem mapMemToTask_iff (hwords : k.proc.membitmap.words = membitmapWords)
    (hin : paddr + size < 4294967296) :
    TaskMapped k (mapMemToTask k paddr size).2 paddr size (mapMemToTask k paddr size).1 ↔
      TaskMapsRight k paddr size := by
  obtain ⟨hpos, hmax⟩ := neededPages_pos hin
  have hpages : k.proc.membitmap.pages = 25600 := Bitmap.pages_of_words hwords
  rcases allocatePages_spec k.proc.membitmap userStartMappedMem hpos (by omega) with
    ⟨h, hno⟩ | ⟨q, b', h, hq, -⟩
  · exact taskMapped_noRoom (filled_of_search h rfl (by omega)) hno
  · have hle := hq.inside
    have hv : w32 (userStartMappedMem + q * 4096) = userStartMappedMem + 4096 * q := by
      rw [w32_of_lt (by unfold userStartMappedMem; omega)]
      omega
    rw [hv] at h
    refine taskMapped_room (filled_of_search h ?_ ?_) hq hwords hin
    · unfold userStartMappedMem
      omega
    · unfold userStartMappedMem
      omega

/-- Where free slots are not mapped, a range that finds room is mapped right if it is inside one
page, and only then. -/
theorem taskMapsRight_of_free {q : Nat} (hk : WindowOk k) (hs : 1 ≤ size)
    (hin : paddr + size < 4294967296)
    (hq : FirstRun k.proc.membitmap.isFree (neededPages paddr size) k.proc.membitmap.pages q) :
    TaskMapsRight k paddr size ↔ paddr % 4096 + size ≤ 4096 := by
  have hn := neededPages_eq (show paddr < 4294967296 by omega) (show size < 4294967296 by omega)
  rw [if_pos hin] at hn
  have hle := hq.inside
  have hnone : ∀ o, o < size → walk k.proc.vuserPD
      (userStartMappedMem + 4096 * q + paddr % 4096 + o) = none := by
    intro o ho
    have hfree := hq.run (q + (paddr % 4096 + o) / 4096) (by omega) (by omega)
    refine walk_none_page (hk.free _ hfree (by omega)) ?_
    unfold userStartMappedMem
    omega
  constructor
  · rintro (⟨q', hq', hright⟩ | ⟨hno, -⟩)
    · obtain rfl := hq.unique hq'
      have hlast := hright (size - 1) (by omega)
      unfold ByteRight at hlast
      rw [hnone (size - 1) (by omega)] at hlast
      simp only at hlast
      omega
    · exact absurd hq (hno q)
  · intro hone
    refine Or.inl ⟨q, hq, fun o ho => ?_⟩
    unfold ByteRight
    rw [hnone o ho]
    simp only
    omega

/-- A hundred bytes inside a page. -/
theorem mapMemToTask_page :
    TaskMapped bootKernel (mapMemToTask bootKernel 0x76500010 100).2 0x76500010 100
      (mapMemToTask bootKernel 0x76500010 100).1 := by
  have hq : FirstRun bootKernel.proc.membitmap.isFree (neededPages 0x76500010 100)
      bootKernel.proc.membitmap.pages 0 :=
    ⟨by decide, fun r _ _ => isFree_allFree _ r, fun q hlt => absurd hlt (Nat.not_lt_zero q)⟩
  exact (mapMemToTask_iff rfl (by decide)).mpr
    ((taskMapsRight_of_free bootKernel_windowOk (by decide) (by decide) hq).mpr (by decide))

/-- Two pages: the second leads to the first frame. -/
theorem mapMemToTask_aliases :
    translate (mapMemToTask bootKernel 0x76500000 8192).2
        ((mapMemToTask bootKernel 0x76500000 8192).1 + 4096) =
      some ⟨0x76500000, ⟨3, 1, 0, 0, 1, 1, 0⟩⟩ ∧
    ¬ TaskMapped bootKernel (mapMemToTask bootKernel 0x76500000 8192).2 0x76500000 8192
      (mapMemToTask bootKernel 0x76500000 8192).1 := by
  have htr : translate (mapMemToTask bootKernel 0x76500000 8192).2
      ((mapMemToTask bootKernel 0x76500000 8192).1 + 4096) =
        some ⟨0x76500000, ⟨3, 1, 0, 0, 1, 1, 0⟩⟩ := by
    decide +kernel
  refine ⟨htr, fun h => ?_⟩
  obtain ⟨l, hl, hpa, -⟩ := h.bytes (by decide +kernel) 4096 (by decide)
  obtain rfl := Option.some.inj (htr.symm.trans hl)
  exact absurd hpa (by decide)

end AndixOs.Mm
