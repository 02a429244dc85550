/-
# Page tables

`mmu.c` on the ARMv7 short descriptors: `mapMemoryV` and `unmapMemoryFromPd` edit a first-level
table, `walk` is the hardware's translation.  A coarse table belongs to the first-level entry that
points to it.

The small-page rules at the end say what the two functions do to every translation.
-/
import AndixOs.Mm.Bitmap

namespace AndixOs.Mm

/-! ## 1. What is mapped -/

/-- `mem_type`. -/
inductive MemType where
  | largePage
  | smallPage
  | section
  deriving DecidableEq

/-- `kernel_mem_info_t`. -/
structure KernelMemInfo where
  vaddr : Nat
  paddr : Nat
  ap : Nat
  execute : Nat
  bufferable : Nat
  cacheable : Nat
  domain : Nat
  nonsecure : Nat
  shareable : Nat
  tex : Nat
  type : MemType

def apSvcNoUsrNo : Nat := 0x0
def apSvcRwUsrNo : Nat := 0x1
def apSvcRwUsrRo : Nat := 0x2
def apSvcRwUsrRw : Nat := 0x3
def apSvcRoUsrNo : Nat := 0x5
def apSvcRoUsrRo : Nat := 0x7

def execNon : Nat := 1

/-! ## 2. Descriptors

The fields of a descriptor do not overlap, so the `|` of the source is a sum here. -/

/-- A first-level section descriptor. -/
def sectionDesc (s : KernelMemInfo) : Nat :=
  s.paddr / 0x100000 * 0x100000 + 2 + s.nonsecure % 2 * 2 ^ 19 + s.shareable % 2 * 2 ^ 16 +
    s.ap / 4 % 2 * 2 ^ 15 + s.tex % 8 * 2 ^ 12 + s.ap % 4 * 2 ^ 10 + s.domain % 16 * 2 ^ 5 +
    s.execute % 2 * 2 ^ 4 + s.cacheable % 2 * 2 ^ 3 + s.bufferable % 2 * 2 ^ 2

/-- A first-level descriptor of a coarse table, less the table's address. -/
def tableDesc (s : KernelMemInfo) : Nat := 1 + s.domain % 16 * 2 ^ 5 + s.nonsecure % 2 * 2 ^ 3

/-- A second-level descriptor of a small page: 2 is the type, and the lowest bit is XN. -/
def smallPageDesc (s : KernelMemInfo) : Nat :=
  s.paddr / 0x1000 * 0x1000 + 2 + s.shareable % 2 * 2 ^ 10 + s.ap / 4 % 2 * 2 ^ 9 +
    s.tex % 8 * 2 ^ 6 + s.ap % 4 * 2 ^ 4 + s.execute % 2 + s.cacheable % 2 * 2 ^ 3 +
    s.bufferable % 2 * 2 ^ 2

/-- A second-level descriptor of a large page. -/
def largePageDesc (s : KernelMemInfo) : Nat :=
  s.paddr / 0x10000 * 0x10000 + 1 + s.shareable % 2 * 2 ^ 10 + s.ap / 4 % 2 * 2 ^ 9 +
    s.tex % 8 * 2 ^ 12 + s.ap % 4 * 2 ^ 4 + s.execute % 2 * 2 ^ 15 + s.cacheable % 2 * 2 ^ 3 +
    s.bufferable % 2 * 2 ^ 2

/-! ## 3. Tables -/

/-- A first-level entry, by the type in its two low bits.  The words of a coarse table stand with
the entry that points to it. -/
inductive L1Entry where
  | fault
  | table (desc : Nat) (l2 : Nat → Nat)
  | section (desc : Nat)

/-- A first-level table. -/
abbrev PageTable := Nat → L1Entry

/-- The table with nothing mapped. -/
def emptyTable : PageTable := fun _ => .fault

def l1Index (va : Nat) : Nat := va / 0x100000

def l2Index (va : Nat) : Nat := va / 0x1000 % 256

/-- `map_memory_v`, with the memory for a new coarse table at hand. -/
def mapMemoryV (t : PageTable) (s : KernelMemInfo) : Int × PageTable :=
  let s := { s with domain := 0 }
  let i1 := l1Index s.vaddr
  let i2 := l2Index s.vaddr
  match t i1 with
  | .fault =>
    match s.type with
    | .section => (0, Function.update t i1 (.section (sectionDesc s)))
    | .smallPage =>
      (0, Function.update t i1
        (.table (tableDesc s) (Function.update (fun _ => 0) i2 (smallPageDesc s))))
    | .largePage =>
      (0, Function.update t i1
        (.table (tableDesc s) fun i => if i2 ≤ i ∧ i < i2 + 16 then largePageDesc s else 0))
  | .table desc l2 =>
    match s.type with
    | .smallPage =>
      if l2 i2 % 4 = 0 then
        (0, Function.update t i1 (.table desc (Function.update l2 i2 (smallPageDesc s))))
      else (-1, t)
    | .largePage =>
      if (List.range 16).all fun i => l2 (i2 + i) % 4 = 0 then
        (0, Function.update t i1
          (.table desc fun i => if i2 ≤ i ∧ i < i2 + 16 then largePageDesc s else l2 i))
      else (-1, t)
    | .section => (-1, t)
  | .section _ => (-1, t)

/-- `unmap_memory_from_pd`: the result is read from the entry, for a section after it is cleared. -/
def unmapMemoryFromPd (t : PageTable) (vaddr : Nat) : Nat × PageTable :=
  let i1 := l1Index vaddr
  let i2 := l2Index vaddr
  match t i1 with
  | .fault => (0, t)
  | .table desc l2 =>
    if l2 i2 % 4 = 0 then (0, t)
    else
      ((if l2 i2 % 4 = 2 then l2 i2 / 0x1000 * 0x1000
        else if l2 i2 % 4 = 1 then l2 i2 / 0x10000 * 0x10000 else 0),
        Function.update t i1 (.table desc (Function.update l2 i2 0)))
  | .section _ => (0, Function.update t i1 .fault)

/-! ## 4. The hardware's translation -/

/-- The attributes of a page: the access permissions `AP[2:0]`, execute never, shareable, the type
extension, cacheable, bufferable, and the physical address space. -/
structure PageAttr where
  ap : Nat
  xn : Nat
  shareable : Nat
  tex : Nat
  cacheable : Nat
  bufferable : Nat
  nonsecure : Nat
  deriving DecidableEq

/-- A translation. -/
structure Leaf where
  pa : Nat
  attr : PageAttr
  deriving DecidableEq

/-- The attributes in the descriptor of a small page; NS is that of the coarse table. -/
def smallPageAttr (d ns : Nat) : PageAttr :=
  ⟨d / 2 ^ 9 % 2 * 4 + d / 2 ^ 4 % 4, d % 2, d / 2 ^ 10 % 2, d / 2 ^ 6 % 8, d / 2 ^ 3 % 2,
    d / 2 ^ 2 % 2, ns⟩

/-- The attributes in the descriptor of a large page. -/
def largePageAttr (d ns : Nat) : PageAttr :=
  ⟨d / 2 ^ 9 % 2 * 4 + d / 2 ^ 4 % 4, d / 2 ^ 15 % 2, d / 2 ^ 10 % 2, d / 2 ^ 12 % 8,
    d / 2 ^ 3 % 2, d / 2 ^ 2 % 2, ns⟩

/-- The attributes in the descriptor of a section. -/
def sectionAttr (d : Nat) : PageAttr :=
  ⟨d / 2 ^ 15 % 2 * 4 + d / 2 ^ 10 % 4, d / 2 ^ 4 % 2, d / 2 ^ 16 % 2, d / 2 ^ 12 % 8,
    d / 2 ^ 3 % 2, d / 2 ^ 2 % 2, d / 2 ^ 19 % 2⟩

/-- The walk of a table for a virtual address. -/
def walk (t : PageTable) (va : Nat) : Option Leaf :=
  match t (l1Index va) with
  | .fault => none
  | .table desc l2 =>
    let d := l2 (l2Index va)
    match d % 4 with
    | 0 => none
    | 1 => some ⟨d / 0x10000 * 0x10000 + va % 0x10000, largePageAttr d (desc / 2 ^ 3 % 2)⟩
    | _ => some ⟨d / 0x1000 * 0x1000 + va % 0x1000, smallPageAttr d (desc / 2 ^ 3 % 2)⟩
  | .section d => some ⟨d / 0x100000 * 0x100000 + va % 0x100000, sectionAttr d⟩

/-- The kernel may read a page with these permissions. -/
def Leaf.svcReads (l : Leaf) : Bool := l.attr.ap != 0 && l.attr.ap != 4

/-- The kernel may write a page with these permissions. -/
def Leaf.svcWrites (l : Leaf) : Bool := l.attr.ap == 1 || l.attr.ap == 2 || l.attr.ap == 3

/-- A user program may write a page with these permissions. -/
def Leaf.usrWrites (l : Leaf) : Bool := l.attr.ap == 3

/-- A user program may read a page with these permissions. -/
def Leaf.usrReads (l : Leaf) : Bool := l.attr.ap == 2 || l.attr.ap == 3 || l.attr.ap == 7

/-- The attributes a description asks for, but with this NS. -/
def KernelMemInfo.attrNs (s : KernelMemInfo) (ns : Nat) : PageAttr :=
  ⟨s.ap % 8, s.execute % 2, s.shareable % 2, s.tex % 8, s.cacheable % 2, s.bufferable % 2, ns⟩

/-- **The attributes a description asks for.** -/
def KernelMemInfo.attr (s : KernelMemInfo) : PageAttr := s.attrNs (s.nonsecure % 2)

/-- The NS a page gets at an address: that of the coarse table where there is one, else the one
asked for. -/
def regionNs (t : PageTable) (nonsecure va : Nat) : Nat :=
  match t (l1Index va) with
  | .table desc _ => desc / 2 ^ 3 % 2
  | _ => nonsecure % 2

/-! ## 5. What a descriptor says -/

/-- The attributes fit into their fields. -/
theorem KernelMemInfo.attr_lt (s : KernelMemInfo) :
    s.shareable % 2 < 2 ∧ s.tex % 8 < 8 ∧ s.execute % 2 < 2 ∧ s.cacheable % 2 < 2 ∧
      s.bufferable % 2 < 2 := by
  refine ⟨?_, ?_, ?_, ?_, ?_⟩ <;> exact Nat.mod_lt _ (by decide)

/-- The descriptor of a small page, read back. -/
theorem smallPageDesc_fields (s : KernelMemInfo) (ns : Nat) :
    smallPageDesc s % 4 = 2 + s.execute % 2 ∧
    smallPageDesc s / 0x1000 * 0x1000 = s.paddr / 0x1000 * 0x1000 ∧
    smallPageAttr (smallPageDesc s) ns = s.attrNs ns := by
  unfold smallPageAttr KernelMemInfo.attrNs smallPageDesc
  obtain ⟨h1, h2, h3, h4, h5⟩ := s.attr_lt
  generalize s.shareable % 2 = x1 at *
  generalize s.tex % 8 = x2 at *
  generalize s.execute % 2 = x3 at *
  generalize s.cacheable % 2 = x4 at *
  generalize s.bufferable % 2 = x5 at *
  refine ⟨by omega, by omega, ?_⟩
  congr 1 <;> omega

/-- The descriptor of a large page, read back. -/
theorem largePageDesc_fields (s : KernelMemInfo) (ns : Nat) :
    largePageDesc s % 4 = 1 ∧
    largePageDesc s / 0x10000 * 0x10000 = s.paddr / 0x10000 * 0x10000 ∧
    largePageAttr (largePageDesc s) ns = s.attrNs ns := by
  unfold largePageAttr KernelMemInfo.attrNs largePageDesc
  obtain ⟨h1, h2, h3, h4, h5⟩ := s.attr_lt
  generalize s.shareable % 2 = x1 at *
  generalize s.tex % 8 = x2 at *
  generalize s.execute % 2 = x3 at *
  generalize s.cacheable % 2 = x4 at *
  generalize s.bufferable % 2 = x5 at *
  refine ⟨by omega, by omega, ?_⟩
  congr 1 <;> omega

/-- The descriptor of a section, read back. -/
theorem sectionDesc_fields (s : KernelMemInfo) :
    sectionDesc s / 0x100000 * 0x100000 = s.paddr / 0x100000 * 0x100000 ∧
    sectionAttr (sectionDesc s) = s.attr := by
  unfold sectionAttr KernelMemInfo.attr KernelMemInfo.attrNs sectionDesc
  obtain ⟨h1, h2, h3, h4, h5⟩ := s.attr_lt
  have h6 : s.domain % 16 < 16 := Nat.mod_lt _ (by decide)
  have h7 : s.nonsecure % 2 < 2 := Nat.mod_lt _ (by decide)
  generalize s.shareable % 2 = x1 at *
  generalize s.tex % 8 = x2 at *
  generalize s.execute % 2 = x3 at *
  generalize s.cacheable % 2 = x4 at *
  generalize s.bufferable % 2 = x5 at *
  generalize s.domain % 16 = x6 at *
  generalize s.nonsecure % 2 = x7 at *
  refine ⟨by omega, ?_⟩
  congr 1 <;> omega

theorem tableDesc_ns (s : KernelMemInfo) : tableDesc s / 2 ^ 3 % 2 = s.nonsecure % 2 := by
  unfold tableDesc
  omega

/-! ## 6. Rules for small pages -/

variable {t : PageTable} {s : KernelMemInfo} {va : Nat}

/-- A table whose words hold a small page at the address. -/
theorem walk_of_small {desc : Nat} {l2 : Nat → Nat} (ht : t (l1Index va) = .table desc l2)
    (hd : 2 ≤ l2 (l2Index va) % 4) :
    walk t va = some ⟨l2 (l2Index va) / 0x1000 * 0x1000 + va % 0x1000,
      smallPageAttr (l2 (l2Index va)) (desc / 2 ^ 3 % 2)⟩ := by
  unfold walk
  rw [ht]
  simp only
  generalize l2 (l2Index va) % 4 = m at hd
  rcases m with _ | _ | m
  · omega
  · omega
  · rfl

/-- Nothing is translated where the type is 0. -/
theorem walk_of_zero {desc : Nat} {l2 : Nat → Nat} (ht : t (l1Index va) = .table desc l2)
    (hd : l2 (l2Index va) % 4 = 0) : walk t va = none := by
  unfold walk
  rw [ht]
  simp only [hd]

theorem mod4_of_walk_none {desc : Nat} {l2 : Nat → Nat} (ht : t (l1Index va) = .table desc l2)
    (h : walk t va = none) : l2 (l2Index va) % 4 = 0 := by
  by_contra hne
  unfold walk at h
  rw [ht] at h
  simp only at h
  generalize l2 (l2Index va) % 4 = m at hne h
  rcases m with _ | _ | m
  · exact hne rfl
  · simp at h
  · simp at h

theorem not_section_of_walk_none (h : walk t va = none) (d : Nat) :
    t (l1Index va) ≠ .section d := by
  intro ht
  unfold walk at h
  rw [ht] at h
  simp at h

theorem regionNs_page {ns vb : Nat} (h : va / 0x1000 = vb / 0x1000) :
    regionNs t ns va = regionNs t ns vb := by
  have h1 : l1Index va = l1Index vb := by
    unfold l1Index
    omega
  unfold regionNs
  rw [h1]

/-- Two addresses of one page. -/
theorem page_eq_iff {a b : Nat} : a / 0x1000 = b / 0x1000 ↔
    l1Index a = l1Index b ∧ l2Index a = l2Index b := by
  unfold l1Index l2Index
  omega

/-- An edit of one word of a coarse table is seen by the addresses of one page. -/
theorem walk_update_other {desc : Nat} {l2 : Nat → Nat} {vb : Nat} {v : Nat}
    (ht : t (l1Index va) = .table desc l2) (hne : ¬ vb / 0x1000 = va / 0x1000) :
    walk (Function.update t (l1Index va) (.table desc (Function.update l2 (l2Index va) v))) vb =
      walk t vb := by
  unfold walk
  by_cases h1 : l1Index vb = l1Index va
  · have h2 : l2Index vb ≠ l2Index va := fun h2 => hne (page_eq_iff.mpr ⟨h1, h2⟩)
    rw [h1, Function.update_self, ht]
    simp only [Function.update_of_ne h2]
  · rw [Function.update_of_ne h1]

/-- **Mapping a small page where nothing is mapped.** -/
theorem mapMemoryV_small (hs : s.type = .smallPage) (h : walk t s.vaddr = none) :
    (mapMemoryV t s).1 = 0 ∧ ∀ vb, walk (mapMemoryV t s).2 vb =
      if vb / 0x1000 = s.vaddr / 0x1000 then
        some ⟨s.paddr / 0x1000 * 0x1000 + vb % 0x1000,
          s.attrNs (regionNs t s.nonsecure s.vaddr)⟩
      else walk t vb := by
  -- the same page: the new word is read
  have hnew : ∀ (t' : PageTable) (desc : Nat) (l2 : Nat → Nat) (vb : Nat),
      t' (l1Index s.vaddr) = .table desc
        (Function.update l2 (l2Index s.vaddr) (smallPageDesc { s with domain := 0 })) →
      desc / 2 ^ 3 % 2 = regionNs t s.nonsecure s.vaddr →
      vb / 0x1000 = s.vaddr / 0x1000 →
      walk t' vb = some ⟨s.paddr / 0x1000 * 0x1000 + vb % 0x1000,
        s.attrNs (regionNs t s.nonsecure s.vaddr)⟩ := by
    intro t' desc l2 vb ht' hns hvb
    obtain ⟨hf1, hf2, hf3⟩ := smallPageDesc_fields { s with domain := 0 } (desc / 2 ^ 3 % 2)
    obtain ⟨h1, h2⟩ := page_eq_iff.mp hvb
    rw [← h1] at ht'
    rw [walk_of_small ht' (by rw [h2, Function.update_self]; omega), h2, Function.update_self, hf2,
      hf3, hns]
    rfl
  cases ht : t (l1Index s.vaddr) with
  | fault =>
    have hm : mapMemoryV t s = (0, Function.update t (l1Index s.vaddr)
        (.table (tableDesc { s with domain := 0 }) (Function.update (fun _ => 0) (l2Index s.vaddr)
          (smallPageDesc { s with domain := 0 })))) := by
      simp only [mapMemoryV, ht, hs]
    have hns : tableDesc { s with domain := 0 } / 2 ^ 3 % 2 = regionNs t s.nonsecure s.vaddr := by
      rw [tableDesc_ns]
      unfold regionNs
      rw [ht]
    rw [hm]
    refine ⟨rfl, fun vb => ?_⟩
    by_cases hvb : vb / 0x1000 = s.vaddr / 0x1000
    · rw [if_pos hvb]
      exact hnew _ _ _ vb (Function.update_self ..) hns hvb
    · rw [if_neg hvb]
      by_cases h1 : l1Index vb = l1Index s.vaddr
      · have h2 : l2Index vb ≠ l2Index s.vaddr := fun h2 => hvb (page_eq_iff.mpr ⟨h1, h2⟩)
        have hw : walk t vb = none := by
          unfold walk
          rw [h1, ht]
        rw [hw]
        exact walk_of_zero (by rw [h1]; exact Function.update_self ..)
          (by rw [Function.update_of_ne h2])
      · simp only [walk, Function.update_of_ne h1]
  | table desc l2 =>
    have hm : mapMemoryV t s = (0, Function.update t (l1Index s.vaddr)
        (.table desc (Function.update l2 (l2Index s.vaddr)
          (smallPageDesc { s with domain := 0 })))) := by
      simp only [mapMemoryV, ht, hs]
      rw [if_pos (mod4_of_walk_none ht h)]
    have hns : desc / 2 ^ 3 % 2 = regionNs t s.nonsecure s.vaddr := by
      unfold regionNs
      rw [ht]
    rw [hm]
    refine ⟨rfl, fun vb => ?_⟩
    by_cases hvb : vb / 0x1000 = s.vaddr / 0x1000
    · rw [if_pos hvb]
      exact hnew _ _ _ vb (Function.update_self ..) hns hvb
    · rw [if_neg hvb]
      exact walk_update_other ht hvb
  | «section» d => exact absurd ht (not_section_of_walk_none h d)

/-- Mapping a small page settles the NS of its megabyte, and never changes one that is settled. -/
theorem regionNs_mapMemoryV (hs : s.type = .smallPage) (vb : Nat) :
    regionNs (mapMemoryV t s).2 s.nonsecure vb = regionNs t s.nonsecure vb := by
  by_cases h1 : l1Index vb = l1Index s.vaddr
  · unfold regionNs
    rw [h1]
    cases ht : t (l1Index s.vaddr) with
    | fault =>
      simp only [mapMemoryV, ht, hs, Function.update_self, tableDesc_ns]
    | table desc l2 =>
      simp only [mapMemoryV, ht, hs]
      by_cases h0 : l2 (l2Index s.vaddr) % 4 = 0
      · simp only [if_pos h0, Function.update_self]
      · simp only [if_neg h0, ht]
    | «section» d => simp only [mapMemoryV, ht]
  · have hsame : (mapMemoryV t s).2 (l1Index vb) = t (l1Index vb) := by
      cases ht : t (l1Index s.vaddr) with
      | fault => simp only [mapMemoryV, ht, hs, Function.update_of_ne h1]
      | table desc l2 =>
        simp only [mapMemoryV, ht, hs]
        split
        · simp only [Function.update_of_ne h1]
        · rfl
      | «section» d => simp only [mapMemoryV, ht]
    unfold regionNs
    rw [hsame]

/-- Mapping a small page where something is mapped fails. -/
theorem mapMemoryV_mapped (hs : s.type = .smallPage) (h : walk t s.vaddr ≠ none) :
    mapMemoryV t s = (-1, t) := by
  unfold mapMemoryV
  cases ht : t (l1Index s.vaddr) with
  | fault =>
    exact absurd (by unfold walk; rw [ht]) h
  | table desc l2 =>
    have hm : l2 (l2Index s.vaddr) % 4 ≠ 0 := fun h0 => h (walk_of_zero ht h0)
    simp only [ht, hs]
    rw [if_neg hm]
  | «section» d => simp only [ht]

/-- The addresses of a coarse table, and those with nothing below them: what unmapping clears is
one page. -/
def Coarse (t : PageTable) (va : Nat) : Prop := ∀ d, t (l1Index va) ≠ .section d

/-- **Unmapping a page of a coarse table.** -/
theorem walk_unmapMemoryFromPd (hc : Coarse t va) (vb : Nat) :
    walk (unmapMemoryFromPd t va).2 vb =
      if vb / 0x1000 = va / 0x1000 then none else walk t vb := by
  unfold unmapMemoryFromPd
  cases ht : t (l1Index va) with
  | fault =>
    simp only [ht]
    by_cases hvb : vb / 0x1000 = va / 0x1000
    · rw [if_pos hvb]
      unfold walk
      rw [(page_eq_iff.mp hvb).1, ht]
    · rw [if_neg hvb]
  | table desc l2 =>
    simp only [ht]
    by_cases h0 : l2 (l2Index va) % 4 = 0
    · rw [if_pos h0]
      by_cases hvb : vb / 0x1000 = va / 0x1000
      · obtain ⟨h1, h2⟩ := page_eq_iff.mp hvb
        rw [if_pos hvb]
        exact walk_of_zero (by rw [h1]; exact ht) (by rw [h2]; exact h0)
      · rw [if_neg hvb]
    · rw [if_neg h0]
      by_cases hvb : vb / 0x1000 = va / 0x1000
      · obtain ⟨h1, h2⟩ := page_eq_iff.mp hvb
        rw [if_pos hvb]
        exact walk_of_zero (by rw [h1]; exact Function.update_self ..)
          (by rw [h2, Function.update_self])
      · rw [if_neg hvb]
        exact walk_update_other ht hvb
  | «section» d => exact absurd ht (hc d)

/-- A small page that is execute never. -/
def XnPage (t : PageTable) (va : Nat) : Prop :=
  ∃ desc l2, t (l1Index va) = .table desc l2 ∧ l2 (l2Index va) % 4 = 3

theorem XnPage.coarse (h : XnPage t va) : Coarse t va := by
  obtain ⟨desc, l2, ht, -⟩ := h
  intro d hd
  rw [ht] at hd
  exact L1Entry.noConfusion hd

theorem XnPage.page {vb : Nat} (h : XnPage t va) (hp : vb / 0x1000 = va / 0x1000) :
    XnPage t vb := by
  obtain ⟨h1, h2⟩ := page_eq_iff.mp hp
  obtain ⟨desc, l2, ht, h3⟩ := h
  exact ⟨desc, l2, by rw [h1]; exact ht, by rw [h2]; exact h3⟩

/-- Mapping a page that is execute never makes one, and keeps the others. -/
theorem xnPage_mapMemoryV (hs : s.type = .smallPage) (hx : s.execute % 2 = 1)
    (h : walk t s.vaddr = none) :
    XnPage (mapMemoryV t s).2 s.vaddr ∧ ∀ vb, XnPage t vb → XnPage (mapMemoryV t s).2 vb := by
  have hd : smallPageDesc { s with domain := 0 } % 4 = 3 := by
    have := (smallPageDesc_fields { s with domain := 0 } 0).1
    simp only [hx] at this
    exact this
  cases ht : t (l1Index s.vaddr) with
  | fault =>
    simp only [mapMemoryV, ht, hs]
    refine ⟨⟨_, _, Function.update_self .., by rw [Function.update_self]; exact hd⟩, ?_⟩
    rintro vb ⟨desc, l2, hvb, h3⟩
    have hne : l1Index vb ≠ l1Index s.vaddr := by
      intro he
      rw [he, ht] at hvb
      exact L1Entry.noConfusion hvb
    exact ⟨desc, l2, by rw [Function.update_of_ne hne]; exact hvb, h3⟩
  | table desc l2 =>
    have h0 := mod4_of_walk_none ht h
    simp only [mapMemoryV, ht, hs, if_pos h0]
    refine ⟨⟨_, _, Function.update_self .., by rw [Function.update_self]; exact hd⟩, ?_⟩
    rintro vb ⟨desc', l2', hvb, h3⟩
    by_cases h1 : l1Index vb = l1Index s.vaddr
    · rw [h1, ht] at hvb
      obtain ⟨rfl, rfl⟩ := L1Entry.table.inj hvb
      have h2 : l2Index vb ≠ l2Index s.vaddr := by
        intro he
        rw [he] at h3
        omega
      exact ⟨_, _, by rw [h1]; exact Function.update_self ..,
        by rw [Function.update_of_ne h2]; exact h3⟩
    · exact ⟨desc', l2', by rw [Function.update_of_ne h1]; exact hvb, h3⟩
  | «section» d => exact absurd ht (not_section_of_walk_none h d)

end AndixOs.Mm
