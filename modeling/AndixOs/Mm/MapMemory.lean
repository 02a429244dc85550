/-
# `map_memory_v`

What a successful call maps, for each of the three block types.  The five encoding paths agree on
everything they write into the descriptor of the block (`mapMemoryV_cases`).  NS is not in that
descriptor for a page: it is in the first-level entry, which a page that finds a coarse table takes
as it is (`mapMemoryV_maps_iff`).
-/
import AndixOs.Mm.Kernel

namespace AndixOs.Mm

variable {t : PageTable} {s : KernelMemInfo} {va : Nat}

/-! ## 1. Walks -/

theorem walk_of_large {desc : Nat} {l2 : Nat → Nat} (ht : t (l1Index va) = .table desc l2)
    (hd : l2 (l2Index va) % 4 = 1) :
    walk t va = some ⟨l2 (l2Index va) / 0x10000 * 0x10000 + va % 0x10000,
      largePageAttr (l2 (l2Index va)) (desc / 2 ^ 3 % 2)⟩ := by
  unfold walk
  rw [ht]
  simp only [hd]

theorem walk_of_section {d : Nat} (ht : t (l1Index va) = .section d) :
    walk t va = some ⟨d / 0x100000 * 0x100000 + va % 0x100000, sectionAttr d⟩ := by
  unfold walk
  rw [ht]

/-- The byte of the block that a description asks for, with this NS. -/
def KernelMemInfo.leaf (s : KernelMemInfo) (ns o : Nat) : Leaf :=
  ⟨s.paddr / s.type.size * s.type.size + o, s.attrNs ns⟩

/-! ## 2. What a call does -/

/-- The coarse table a page is put into: a new one, or the one that is there. -/
def CoarseFor (t : PageTable) (s : KernelMemInfo) (desc : Nat) (l2 : Nat → Nat) : Prop :=
  (t (l1Index s.vaddr) = .fault ∧ desc = tableDesc { s with domain := 0 } ∧ l2 = fun _ => 0) ∨
    t (l1Index s.vaddr) = .table desc l2

/-- The word of a page. -/
def KernelMemInfo.pageDesc (s : KernelMemInfo) : Nat :=
  match s.type with
  | .smallPage => smallPageDesc { s with domain := 0 }
  | .largePage => largePageDesc { s with domain := 0 }
  | .section => 0

theorem KernelMemInfo.pageDesc_small (s : KernelMemInfo) (hs : s.type = .smallPage) :
    s.pageDesc = smallPageDesc { s with domain := 0 } := by
  unfold KernelMemInfo.pageDesc
  rw [hs]

theorem KernelMemInfo.pageDesc_large (s : KernelMemInfo) (hs : s.type = .largePage) :
    s.pageDesc = largePageDesc { s with domain := 0 } := by
  unfold KernelMemInfo.pageDesc
  rw [hs]

/-- It is not of type 0. -/
theorem KernelMemInfo.pageDesc_type (s : KernelMemInfo) (hs : s.type ≠ .section) :
    s.pageDesc % 4 ≠ 0 := by
  cases htype : s.type with
  | smallPage =>
    rw [s.pageDesc_small htype, (smallPageDesc_fields _ 0).1]
    omega
  | largePage =>
    rw [s.pageDesc_large htype, (largePageDesc_fields _ 0).1]
    omega
  | «section» => exact absurd htype hs

/-- The entries of a coarse table that a page takes. -/
def KernelMemInfo.HasEntry (s : KernelMemInfo) (i : Nat) : Prop :=
  l2Index s.vaddr ≤ i ∧ i < l2Index s.vaddr + s.type.size / 0x1000

/-- The page is written to entries of type 0, and the others stay. -/
structure PutsPage (s : KernelMemInfo) (l2 l2' : Nat → Nat) : Prop where
  free : ∀ i, s.HasEntry i → l2 i % 4 = 0
  put : ∀ i, s.HasEntry i → l2' i = s.pageDesc
  rest : ∀ i, ¬ s.HasEntry i → l2' i = l2 i

theorem putsPage_small {l2 : Nat → Nat} (hs : s.type = .smallPage)
    (hfree : l2 (l2Index s.vaddr) % 4 = 0) :
    PutsPage s l2 (Function.update l2 (l2Index s.vaddr) (smallPageDesc { s with domain := 0 })) := by
  have hentry : ∀ i, s.HasEntry i ↔ i = l2Index s.vaddr := by
    intro i
    have hsize : s.type.size / 0x1000 = 1 := by rw [hs]; rfl
    unfold KernelMemInfo.HasEntry
    omega
  constructor
  · intro i hi
    rw [(hentry i).mp hi, hfree]
  · intro i hi
    rw [(hentry i).mp hi, Function.update_self, s.pageDesc_small hs]
  · exact fun i hi => Function.update_of_ne (fun heq => hi ((hentry i).mpr heq)) _ _

theorem putsPage_large {l2 : Nat → Nat} (hs : s.type = .largePage)
    (hfree : ∀ i, i < 16 → l2 (l2Index s.vaddr + i) % 4 = 0) :
    PutsPage s l2 fun i => if l2Index s.vaddr ≤ i ∧ i < l2Index s.vaddr + 16 then
      largePageDesc { s with domain := 0 } else l2 i := by
  have hentry : ∀ i, s.HasEntry i ↔ l2Index s.vaddr ≤ i ∧ i < l2Index s.vaddr + 16 := by
    intro i
    have hsize : s.type.size / 0x1000 = 16 := by rw [hs]; rfl
    unfold KernelMemInfo.HasEntry
    omega
  constructor
  · intro i hi
    have h0 := hfree (i - l2Index s.vaddr) (by have := (hentry i).mp hi; omega)
    rw [Nat.add_sub_cancel' ((hentry i).mp hi).1] at h0
    exact h0
  · intro i hi
    rw [if_pos ((hentry i).mp hi), s.pageDesc_large hs]
  · exact fun i hi => if_neg fun hin => hi ((hentry i).mpr hin)

/-- A call is refused and changes nothing, or puts a section where nothing is, or puts a page into a
coarse table. -/
theorem mapMemoryV_cases (t : PageTable) (s : KernelMemInfo) :
    mapMemoryV t s = (-1, t) ∨
      (s.type = .section ∧ t (l1Index s.vaddr) = .fault ∧ mapMemoryV t s =
        (0, Function.update t (l1Index s.vaddr) (.section (sectionDesc { s with domain := 0 })))) ∨
      (s.type ≠ .section ∧ ∃ desc l2 l2', CoarseFor t s desc l2 ∧ PutsPage s l2 l2' ∧
        mapMemoryV t s = (0, Function.update t (l1Index s.vaddr) (.table desc l2'))) := by
  cases ht : t (l1Index s.vaddr) with
  | fault =>
    right
    cases hs : s.type with
    | smallPage =>
      refine Or.inr ⟨by simp, _, _, _, Or.inl ⟨ht, rfl, rfl⟩, putsPage_small hs rfl, ?_⟩
      simp only [mapMemoryV, ht, hs]
    | largePage =>
      refine Or.inr ⟨by simp, _, _, _, Or.inl ⟨ht, rfl, rfl⟩, putsPage_large hs fun _ _ => rfl, ?_⟩
      simp only [mapMemoryV, ht, hs]
    | «section» => exact Or.inl ⟨rfl, rfl, by simp only [mapMemoryV, ht, hs]⟩
  | table desc l2 =>
    cases hs : s.type with
    | smallPage =>
      by_cases h0 : l2 (l2Index s.vaddr) % 4 = 0
      · refine Or.inr (Or.inr ⟨by simp, _, _, _, Or.inr ht, putsPage_small hs h0, ?_⟩)
        simp only [mapMemoryV, ht, hs, if_pos h0]
      · left
        simp only [mapMemoryV, ht, hs, if_neg h0]
    | largePage =>
      by_cases hall : ((List.range 16).all fun i => l2 (l2Index s.vaddr + i) % 4 = 0) = true
      · refine Or.inr (Or.inr ⟨by simp, _, _, _, Or.inr ht, putsPage_large hs fun i hi => ?_, ?_⟩)
        · exact of_decide_eq_true (List.all_eq_true.mp hall i (List.mem_range.mpr hi))
        · simp only [mapMemoryV, ht, hs, if_pos hall]
      · left
        simp only [mapMemoryV, ht, hs, if_neg hall]
    | «section» => exact Or.inl (by simp only [mapMemoryV, ht, hs])
  | «section» d => exact Or.inl (by simp only [mapMemoryV, ht])

/-- Mapping a page of one megabyte leaves the entries of the others. -/
theorem mapMemoryV_other {j : Nat} (h : j ≠ l1Index s.vaddr) :
    (mapMemoryV t s).2 j = t j := by
  rcases mapMemoryV_cases t s with heq | ⟨-, -, heq⟩ | ⟨-, desc, l2, l2', -, -, heq⟩
  · rw [heq]
  · rw [heq]
    exact Function.update_of_ne h _ _
  · rw [heq]
    exact Function.update_of_ne h _ _

/-- Mapping empties no entry. -/
theorem mapMemoryV_fault {j : Nat} (h : (mapMemoryV t s).2 j = .fault) :
    t j = .fault := by
  by_cases hj : j = l1Index s.vaddr
  · rcases mapMemoryV_cases t s with heq | ⟨-, hfault, -⟩ | ⟨-, desc, l2, l2', -, -, heq⟩
    · rwa [heq] at h
    · rw [hj, hfault]
    · rw [heq, hj] at h
      exact L1Entry.noConfusion ((Function.update_self ..).symm.trans h)
  · rwa [mapMemoryV_other hj] at h

theorem mapMemoryV_result (t : PageTable) (s : KernelMemInfo) :
    mapMemoryV t s = (-1, t) ∨ (mapMemoryV t s).1 = 0 := by
  obtain hfail | ⟨-, -, heq⟩ | ⟨-, _, _, _, -, -, heq⟩ := mapMemoryV_cases t s
  · exact Or.inl hfail
  · exact Or.inr (by rw [heq])
  · exact Or.inr (by rw [heq])

/-- A section that is mapped. -/
theorem mapMemoryV_section_eq (hs : s.type = .section) (h : (mapMemoryV t s).1 = 0) :
    t (l1Index s.vaddr) = .fault ∧ mapMemoryV t s =
      (0, Function.update t (l1Index s.vaddr) (.section (sectionDesc { s with domain := 0 }))) := by
  obtain hfail | ⟨-, hsec⟩ | ⟨hpage, -⟩ := mapMemoryV_cases t s
  · rw [hfail] at h
    exact absurd h (by simp)
  · exact hsec
  · exact absurd hs hpage

/-- A page that is mapped. -/
theorem mapMemoryV_page_eq (hs : s.type ≠ .section) (h : (mapMemoryV t s).1 = 0) :
    ∃ desc l2 l2', CoarseFor t s desc l2 ∧ PutsPage s l2 l2' ∧
      mapMemoryV t s = (0, Function.update t (l1Index s.vaddr) (.table desc l2')) := by
  obtain hfail | ⟨hsec, -⟩ | ⟨-, hpage⟩ := mapMemoryV_cases t s
  · rw [hfail] at h
    exact absurd h (by simp)
  · exact absurd hsec hs
  · exact hpage

/-- The NS of the coarse table. -/
theorem CoarseFor.ns {desc : Nat} {l2 : Nat → Nat} (h : CoarseFor t s desc l2) :
    desc / 2 ^ 3 % 2 = regionNs t s.nonsecure s.vaddr := by
  unfold regionNs
  rcases h with ⟨ht, rfl, -⟩ | ht
  · rw [ht, tableDesc_ns]
  · rw [ht]

/-! ## 3. One rule for each type -/

/-- A section is mapped only where there is no first-level entry, and brings its own NS. -/
theorem mapMemoryV_section (hs : s.type = .section) (h : (mapMemoryV t s).1 = 0)
    (hal : s.vaddr % 0x100000 = 0) {o : Nat} (ho : o < 0x100000) :
    walk (mapMemoryV t s).2 (s.vaddr + o) = some (s.leaf (regionNs t s.nonsecure s.vaddr) o) := by
  have hl1 : l1Index (s.vaddr + o) = l1Index s.vaddr := by
    unfold l1Index
    omega
  obtain ⟨ht, heq⟩ := mapMemoryV_section_eq hs h
  have hm : (mapMemoryV t s).2 (l1Index (s.vaddr + o)) =
      .section (sectionDesc { s with domain := 0 }) := by
    rw [heq, hl1]
    exact Function.update_self _ _ _
  obtain ⟨h1, h2⟩ := sectionDesc_fields { s with domain := 0 }
  have hns : regionNs t s.nonsecure s.vaddr = s.nonsecure % 2 := by
    unfold regionNs
    rw [ht]
  have hoff : (s.vaddr + o) % 0x100000 = o := by omega
  have hsize : s.type.size = 0x100000 := by rw [hs]; rfl
  rw [walk_of_section hm, h1, h2, hns, hoff]
  unfold KernelMemInfo.leaf
  rw [hsize]
  rfl

/-- A large page is mapped on sixteen words of type 0; its NS is that of the coarse table. -/
theorem mapMemoryV_large (hs : s.type = .largePage) (h : (mapMemoryV t s).1 = 0)
    (hal : s.vaddr % 0x10000 = 0) {o : Nat} (ho : o < 0x10000) :
    walk (mapMemoryV t s).2 (s.vaddr + o) = some (s.leaf (regionNs t s.nonsecure s.vaddr) o) := by
  have hl1 : l1Index (s.vaddr + o) = l1Index s.vaddr := by
    unfold l1Index
    omega
  have hsize : s.type.size = 0x10000 := by rw [hs]; rfl
  have hentry : s.HasEntry (l2Index (s.vaddr + o)) := by
    unfold KernelMemInfo.HasEntry l2Index
    rw [hsize]
    omega
  have hoff : (s.vaddr + o) % 0x10000 = o := by omega
  obtain ⟨desc, l2, l2', hfor, hputs, heq⟩ := mapMemoryV_page_eq (by rw [hs]; simp) h
  have hword : l2' (l2Index (s.vaddr + o)) = largePageDesc { s with domain := 0 } := by
    rw [hputs.put _ hentry, s.pageDesc_large hs]
  obtain ⟨hd, hpa, hattr⟩ := largePageDesc_fields { s with domain := 0 } (desc / 2 ^ 3 % 2)
  have hm : (mapMemoryV t s).2 (l1Index (s.vaddr + o)) = .table desc l2' := by
    rw [heq, hl1]
    exact Function.update_self _ _ _
  rw [walk_of_large hm (by rw [hword]; exact hd), hword, hpa, hattr, hfor.ns, hoff]
  unfold KernelMemInfo.leaf
  rw [hsize]
  rfl

/-- A small page; the rule is that of `mapMemoryV_small`. -/
theorem mapMemoryV_smallBlock (hs : s.type = .smallPage) (h : (mapMemoryV t s).1 = 0)
    (hal : s.vaddr % 0x1000 = 0) {o : Nat} (ho : o < 0x1000) :
    walk (mapMemoryV t s).2 (s.vaddr + o) = some (s.leaf (regionNs t s.nonsecure s.vaddr) o) := by
  have hnone : walk t s.vaddr = none := by
    by_contra hne
    rw [mapMemoryV_mapped hs hne] at h
    exact absurd h (by simp)
  have hpage : (s.vaddr + o) / 0x1000 = s.vaddr / 0x1000 := by omega
  have hoff : (s.vaddr + o) % 0x1000 = o := by omega
  have hsize : s.type.size = 0x1000 := by rw [hs]; rfl
  rw [(mapMemoryV_small hs hnone).2, if_pos hpage, hoff]
  unfold KernelMemInfo.leaf
  rw [hsize]

/-! ## 4. Every type -/

/-- **A successful mapping**, of any type: the whole block, as asked for but for NS. -/
theorem mapMemoryV_block (h : (mapMemoryV t s).1 = 0) (hal : s.vaddr % s.type.size = 0) {o : Nat}
    (ho : o < s.type.size) :
    walk (mapMemoryV t s).2 (s.vaddr + o) = some (s.leaf (regionNs t s.nonsecure s.vaddr) o) := by
  cases hs : s.type with
  | largePage =>
    rw [hs] at hal ho
    exact mapMemoryV_large hs h hal ho
  | smallPage =>
    rw [hs] at hal ho
    exact mapMemoryV_smallBlock hs h hal ho
  | «section» =>
    rw [hs] at hal ho
    exact mapMemoryV_section hs h hal ho

/-- **When `map_memory_v` maps what it was asked to map.**  A successful call maps every byte of
the block with exactly the attributes asked for when the first-level entry, if the megabyte has a
coarse table, has the NS asked for, and not otherwise. -/
theorem mapMemoryV_maps_iff (h : (mapMemoryV t s).1 = 0) (hal : s.vaddr % s.type.size = 0) :
    (∀ o, o < s.type.size → walk (mapMemoryV t s).2 (s.vaddr + o) =
        some ⟨s.paddr / s.type.size * s.type.size + o, s.attr⟩) ↔
      ∀ desc l2, t (l1Index s.vaddr) = .table desc l2 → desc / 2 ^ 3 % 2 = s.nonsecure % 2 := by
  have hiff : (∀ desc l2, t (l1Index s.vaddr) = .table desc l2 →
      desc / 2 ^ 3 % 2 = s.nonsecure % 2) ↔ regionNs t s.nonsecure s.vaddr = s.nonsecure % 2 := by
    unfold regionNs
    cases t (l1Index s.vaddr) with
    | fault => simp
    | table desc l2 => simp
    | «section» d => simp
  rw [hiff]
  constructor
  · intro hmaps
    have hpos : 0 < s.type.size := by cases s.type <;> decide
    have h0 := hmaps 0 hpos
    rw [mapMemoryV_block h hal hpos] at h0
    exact congrArg (fun l : Leaf => l.attr.nonsecure) (Option.some.inj h0)
  · intro hns o ho
    rw [mapMemoryV_block h hal ho, hns]
    rfl

/-- A large page for an empty megabyte. -/
def largeInfo : KernelMemInfo :=
  ⟨0x80010000, 0x70025000, apSvcRwUsrNo, execNon, 1, 1, 0, 1, 0, 0, .largePage⟩

/-- It is mapped as asked for, from the first byte to the last. -/
theorem mapMemoryV_maps_large : (mapMemoryV emptyTable largeInfo).1 = 0 ∧
    ∀ o, o < 0x10000 → walk (mapMemoryV emptyTable largeInfo).2 (0x80010000 + o) =
      some ⟨0x70020000 + o, ⟨1, 1, 0, 0, 1, 1, 1⟩⟩ :=
  ⟨rfl, (mapMemoryV_maps_iff (t := emptyTable) (s := largeInfo) rfl rfl).mpr fun _ _ h =>
    L1Entry.noConfusion h⟩

/-- A page of the secure world, then one of the non-secure world in the same megabyte: the second
is mapped as secure. -/
theorem mapMemoryV_keeps_ns :
    let secure : KernelMemInfo := ⟨0x80000000, 0x70000000, apSvcRwUsrNo, execNon, 0, 0, 0, 0, 0, 0,
      .smallPage⟩
    let nonsecure : KernelMemInfo := ⟨0x80001000, 0xB0000000, apSvcRwUsrNo, execNon, 0, 0, 0, 1, 0,
      0, .smallPage⟩
    let t := (mapMemoryV emptyTable secure).2
    (mapMemoryV t nonsecure).1 = 0 ∧
      walk (mapMemoryV t nonsecure).2 0x80001000 = some ⟨0xB0000000, ⟨1, 1, 0, 0, 0, 0, 0⟩⟩ ∧
      nonsecure.attr = ⟨1, 1, 0, 0, 0, 0, 1⟩ := by
  decide

end AndixOs.Mm
