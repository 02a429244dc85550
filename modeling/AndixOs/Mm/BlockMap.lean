/-
# Blocks of a page table

What `map_memory_v` and `unmap_memory_from_pd` do to the translations outside and inside the block
they are called for.  Mapping is careful: it decides before it writes, in each of its paths, so
nothing outside the block changes and nothing that is mapped is replaced (`mapMemoryV_frame`).

Unmapping decodes less than mapping encodes.  A large page has sixteen entries, of which one is
cleared; a section's entry is cleared before it is read; and the type bits of a small page that is
execute never are those of no type, so its address is not read.  What is left is
`unmapMemoryFromPd_right_iff`.
-/
import AndixOs.Mm.Mapping
import AndixOs.Mm.MapMemory

namespace AndixOs.Mm

variable {t : PageTable} {s : KernelMemInfo} {va vb : Nat}

/-! ## 1. Blocks -/

/-- The address is in the block that a description is about. -/
def KernelMemInfo.InBlock (s : KernelMemInfo) (va : Nat) : Prop :=
  va / s.type.size = s.vaddr / s.type.size

/-- A walk sees only the first-level entry of its address. -/
theorem walk_congr {t t' : PageTable} (h : t' (l1Index va) = t (l1Index va)) :
    walk t' va = walk t va := by
  unfold walk
  rw [h]

theorem walk_of_fault (h : t (l1Index va) = .fault) : walk t va = none := by
  unfold walk
  rw [h]

theorem inBlock_section (hs : s.type = .section) :
    s.InBlock va ↔ l1Index va = l1Index s.vaddr := by
  unfold KernelMemInfo.InBlock
  rw [hs]
  exact Iff.rfl

/-- The block of a page: its entries of the coarse table. -/
theorem inBlock_page (hs : s.type ≠ .section) (hal : s.vaddr % s.type.size = 0) :
    s.InBlock va ↔ l1Index va = l1Index s.vaddr ∧ s.HasEntry (l2Index va) := by
  unfold KernelMemInfo.InBlock KernelMemInfo.HasEntry l1Index l2Index
  cases hsize : s.type with
  | smallPage =>
    have hone : MemType.size .smallPage = 0x1000 := rfl
    rw [hone]
    omega
  | largePage =>
    have hsixteen : MemType.size .largePage = 0x10000 := rfl
    rw [hsize, hsixteen] at hal
    rw [hsixteen]
    omega
  | «section» => exact absurd hsize hs

/-! ## 2. Mapping -/

/-- What a successful mapping finds in its block and leaves outside. -/
def KeepsRest (t t' : PageTable) (s : KernelMemInfo) : Prop :=
  ∀ va, (s.InBlock va → walk t va = none) ∧ (¬ s.InBlock va → walk t' va = walk t va)

theorem CoarseFor.walk_none {desc : Nat} {l2 : Nat → Nat} (hfor : CoarseFor t s desc l2)
    (h1 : l1Index va = l1Index s.vaddr) (h0 : l2 (l2Index va) % 4 = 0) : walk t va = none := by
  rcases hfor with ⟨ht, -⟩ | ht
  · exact walk_of_fault (by rw [h1]; exact ht)
  · exact walk_of_zero (by rw [h1]; exact ht) h0

/-- A word of the coarse table that stays. -/
theorem CoarseFor.walk_keep {desc : Nat} {l2 l2' : Nat → Nat} (hfor : CoarseFor t s desc l2)
    (h1 : l1Index va = l1Index s.vaddr) (hkeep : l2' (l2Index va) = l2 (l2Index va)) :
    walk (Function.update t (l1Index s.vaddr) (.table desc l2')) va = walk t va := by
  have hput : Function.update t (l1Index s.vaddr) (.table desc l2') (l1Index va) =
      .table desc l2' := by
    rw [h1, Function.update_self]
  rcases hfor with ⟨ht, -, rfl⟩ | ht
  · rw [walk_of_zero hput (by rw [hkeep]; rfl), walk_of_fault (by rw [h1]; exact ht)]
  · unfold walk
    rw [hput, h1, ht]
    simp only [hkeep]

/-- **A successful mapping**, of any type, found nothing in its block and left the rest. -/
theorem mapMemoryV_rest (hal : s.vaddr % s.type.size = 0) (h : (mapMemoryV t s).1 = 0) :
    KeepsRest t (mapMemoryV t s).2 s := by
  intro va
  by_cases hs : s.type = .section
  · obtain ⟨ht, heq⟩ := mapMemoryV_section_eq hs h
    rw [heq, inBlock_section hs]
    refine ⟨fun hin => ?_, fun hout => ?_⟩
    · exact walk_of_fault (by rw [hin]; exact ht)
    · exact walk_congr (Function.update_of_ne hout _ _)
  · obtain ⟨desc, l2, l2', hfor, hputs, heq⟩ := mapMemoryV_page_eq hs h
    rw [heq, inBlock_page hs hal]
    refine ⟨fun hin => ?_, fun hout => ?_⟩
    · exact hfor.walk_none hin.1 (hputs.free _ hin.2)
    · by_cases h1 : l1Index va = l1Index s.vaddr
      · exact hfor.walk_keep h1 (hputs.rest _ fun hentry => hout ⟨h1, hentry⟩)
      · exact walk_congr (Function.update_of_ne h1 _ _)

/-- **What `map_memory_v` leaves alone**: everything outside its block, every translation inside it,
and, when it returns -1, every translation. -/
theorem mapMemoryV_frame (t : PageTable) {s : KernelMemInfo}
    (hal : s.vaddr % s.type.size = 0) :
    (∀ va, ¬ s.InBlock va → walk (mapMemoryV t s).2 va = walk t va) ∧
      (∀ va l, walk t va = some l → walk (mapMemoryV t s).2 va = some l) ∧
      ((mapMemoryV t s).1 = -1 → ∀ va, walk (mapMemoryV t s).2 va = walk t va) := by
  obtain hfail | hdone := mapMemoryV_result t s
  · rw [hfail]
    exact ⟨fun _ _ => rfl, fun _ _ h => h, fun _ _ => rfl⟩
  · have hrest := mapMemoryV_rest hal hdone
    refine ⟨fun va => (hrest va).2, fun va l hl => ?_, fun hfail => ?_⟩
    · by_cases hin : s.InBlock va
      · rw [(hrest va).1 hin] at hl
        cases hl
      · rw [(hrest va).2 hin, hl]
    · rw [hdone] at hfail
      exact absurd hfail (by decide)

/-- A small page in the middle of `largeInfo`'s block. -/
def smallInfo : KernelMemInfo :=
  ⟨0x80012000, 0x70001000, apSvcRwUsrNo, execNon, 1, 1, 0, 1, 0, 0, .smallPage⟩

/-- The table with that page. -/
def smallTable : PageTable := (mapMemoryV emptyTable smallInfo).2

/-- With the small page there, the large page is refused, and the small page stays. -/
theorem mapMemoryV_frame_refused :
    (mapMemoryV smallTable largeInfo).1 = -1 ∧
      ((∀ va, ¬ largeInfo.InBlock va →
          walk (mapMemoryV smallTable largeInfo).2 va = walk smallTable va) ∧
        (∀ va l, walk smallTable va = some l →
          walk (mapMemoryV smallTable largeInfo).2 va = some l) ∧
        ((mapMemoryV smallTable largeInfo).1 = -1 →
          ∀ va, walk (mapMemoryV smallTable largeInfo).2 va = walk smallTable va)) :=
  ⟨by decide, mapMemoryV_frame smallTable (s := largeInfo) rfl⟩

/-! ## 3. Blocks that are mapped -/

/-- Two tables translate an address by the same word. -/
def SameWord (t t' : PageTable) (va : Nat) : Prop :=
  match t (l1Index va), t' (l1Index va) with
  | .fault, .fault => True
  | .table _ l2, .table _ l2' => l2 (l2Index va) = l2' (l2Index va)
  | .section d, .section d' => d = d'
  | _, _ => False

theorem SameWord.of_eq {t' : PageTable} (h : t' (l1Index va) = t (l1Index va)) :
    SameWord t t' va := by
  unfold SameWord
  rw [h]
  cases t (l1Index va) with
  | fault => exact trivial
  | table desc l2 => rfl
  | «section» d => rfl

theorem SameWord.refl (t : PageTable) (va : Nat) : SameWord t t va := SameWord.of_eq rfl

theorem SameWord.table {t' : PageTable} {desc desc' : Nat} {l2 l2' : Nat → Nat}
    (h : t (l1Index va) = .table desc l2) (h' : t' (l1Index va) = .table desc' l2')
    (hword : l2' (l2Index va) = l2 (l2Index va)) : SameWord t t' va := by
  unfold SameWord
  rw [h, h']
  exact hword.symm

theorem SameWord.of_section {t' : PageTable} {d : Nat} (h : SameWord t t' va)
    (ht : t (l1Index va) = .section d) : t' (l1Index va) = .section d := by
  unfold SameWord at h
  rw [ht] at h
  cases ht' : t' (l1Index va) with
  | «section» d' =>
    rw [ht'] at h
    exact congrArg L1Entry.section (Eq.symm h)
  | fault =>
    rw [ht'] at h
    exact h.elim
  | table desc l2 =>
    rw [ht'] at h
    exact h.elim

theorem SameWord.of_table {t' : PageTable} {desc : Nat} {l2 : Nat → Nat} (h : SameWord t t' va)
    (ht : t (l1Index va) = .table desc l2) :
    ∃ desc' l2', t' (l1Index va) = .table desc' l2' ∧ l2' (l2Index va) = l2 (l2Index va) := by
  unfold SameWord at h
  rw [ht] at h
  cases ht' : t' (l1Index va) with
  | table desc' l2' =>
    rw [ht'] at h
    exact ⟨desc', l2', rfl, Eq.symm h⟩
  | fault =>
    rw [ht'] at h
    exact h.elim
  | «section» d =>
    rw [ht'] at h
    exact h.elim

theorem SameWord.trans {t' t'' : PageTable} (h : SameWord t t' va) (h' : SameWord t' t'' va) :
    SameWord t t'' va := by
  cases ht : t (l1Index va) with
  | fault =>
    unfold SameWord at h h' ⊢
    rw [ht] at h ⊢
    cases ht' : t' (l1Index va) with
    | fault =>
      rw [ht'] at h'
      exact h'
    | table desc l2 =>
      rw [ht'] at h
      exact h.elim
    | «section» d =>
      rw [ht'] at h
      exact h.elim
  | table desc l2 =>
    obtain ⟨desc', l2', ht', hword⟩ := h.of_table ht
    obtain ⟨desc'', l2'', ht'', hword'⟩ := h'.of_table ht'
    unfold SameWord
    rw [ht, ht'']
    exact (hword'.trans hword).symm
  | «section» d =>
    unfold SameWord
    rw [ht, h'.of_section (h.of_section ht)]

/-- `map_memory_v` leaves the word of an address that is mapped. -/
theorem mapMemoryV_sameWord (s : KernelMemInfo) (h : walk t va ≠ none) :
    SameWord t (mapMemoryV t s).2 va := by
  obtain hfail | ⟨-, ht, heq⟩ | ⟨-, desc, l2, l2', hfor, hputs, heq⟩ := mapMemoryV_cases t s
  · rw [hfail]
    exact SameWord.refl t va
  · rw [heq]
    refine SameWord.of_eq (Function.update_of_ne (fun h1 => h (walk_of_fault ?_)) _ _)
    rw [h1]
    exact ht
  · rw [heq]
    by_cases h1 : l1Index va = l1Index s.vaddr
    · -- the entries of the page were of type 0, and this one is not
      have hkeep : l2' (l2Index va) = l2 (l2Index va) :=
        hputs.rest _ fun hentry => h (hfor.walk_none h1 (hputs.free _ hentry))
      rcases hfor with ⟨ht, -⟩ | ht
      · exact absurd (walk_of_fault (by rw [h1]; exact ht)) h
      · exact SameWord.table (by rw [h1]; exact ht) (by rw [h1]; exact Function.update_self _ _ _)
          hkeep
    · exact SameWord.of_eq (Function.update_of_ne h1 _ _)

/-- `map_memory_v` has mapped the block, in this table or in one from which the block has its
words. -/
def MappedBlock (t : PageTable) (s : KernelMemInfo) : Prop :=
  ∃ t₀, (mapMemoryV t₀ s).1 = 0 ∧ ∀ va, s.InBlock va → SameWord (mapMemoryV t₀ s).2 t va

theorem mapMemoryV_mappedBlock (h : (mapMemoryV t s).1 = 0) : MappedBlock (mapMemoryV t s).2 s :=
  ⟨t, h, fun va _ => SameWord.refl _ va⟩

/-- The entry of a section. -/
theorem MappedBlock.section_entry (hs : s.type = .section) (h : MappedBlock t s) :
    t (l1Index s.vaddr) = .section (sectionDesc { s with domain := 0 }) := by
  obtain ⟨t₀, h0, hsame⟩ := h
  refine (hsame s.vaddr rfl).of_section ?_
  rw [(mapMemoryV_section_eq hs h0).2]
  exact Function.update_self _ _ _

/-- The words of a page. -/
theorem MappedBlock.page_word (hs : s.type ≠ .section) (hal : s.vaddr % s.type.size = 0)
    (h : MappedBlock t s) (hva : s.InBlock va) :
    ∃ desc l2, t (l1Index va) = .table desc l2 ∧ l2 (l2Index va) = s.pageDesc := by
  obtain ⟨t₀, h0, hsame⟩ := h
  obtain ⟨h1, hentry⟩ := (inBlock_page hs hal).mp hva
  obtain ⟨desc, l2, l2', -, hputs, heq⟩ := mapMemoryV_page_eq hs h0
  have htab : (mapMemoryV t₀ s).2 (l1Index va) = .table desc l2' := by
    rw [heq, h1]
    exact Function.update_self _ _ _
  obtain ⟨desc', l2'', htab', hword⟩ := (hsame va hva).of_table htab
  exact ⟨desc', l2'', htab', hword.trans (hputs.put _ hentry)⟩

theorem MappedBlock.mapped (hal : s.vaddr % s.type.size = 0) (h : MappedBlock t s)
    (hva : s.InBlock va) : walk t va ≠ none := by
  intro hnone
  by_cases hs : s.type = .section
  · have hentry := h.section_entry hs
    rw [← (inBlock_section hs).mp hva] at hentry
    exact not_section_of_walk_none hnone _ hentry
  · obtain ⟨desc, l2, htab, hword⟩ := h.page_word hs hal hva
    have hzero := mod4_of_walk_none htab hnone
    rw [hword] at hzero
    exact s.pageDesc_type hs hzero

/-- **A block stays mapped** when more is mapped, whatever that is. -/
theorem MappedBlock.map (hal : s.vaddr % s.type.size = 0) (h : MappedBlock t s)
    (s' : KernelMemInfo) : MappedBlock (mapMemoryV t s').2 s := by
  have hmapped : ∀ va, s.InBlock va → walk t va ≠ none := fun _ => h.mapped hal
  obtain ⟨t₀, h0, hsame⟩ := h
  exact ⟨t₀, h0, fun va hva => (hsame va hva).trans (mapMemoryV_sameWord s' (hmapped va hva))⟩

/-! ## 4. Unmapping -/

/-- Nothing happens where nothing is mapped. -/
theorem unmapMemoryFromPd_unmapped (h : walk t va = none) : unmapMemoryFromPd t va = (0, t) := by
  cases ht : t (l1Index va) with
  | fault => simp only [unmapMemoryFromPd, ht]
  | table desc l2 => simp only [unmapMemoryFromPd, ht, if_pos (mod4_of_walk_none ht h)]
  | «section» d => exact absurd ht (not_section_of_walk_none h d)

theorem coarse_of_table {desc : Nat} {l2 : Nat → Nat} (h : t (l1Index va) = .table desc l2) :
    Coarse t va := by
  intro d hd
  rw [h] at hd
  cases hd

/-- What unmapping an address of a block should do: return where the block lies, and take the block
and nothing else away. -/
structure UnmapsBlock (t : PageTable) (s : KernelMemInfo) (va : Nat) : Prop where
  base : (unmapMemoryFromPd t va).1 = s.paddr / s.type.size * s.type.size
  gone : ∀ vb, s.InBlock vb → walk (unmapMemoryFromPd t va).2 vb = none
  rest : ∀ vb, ¬ s.InBlock vb → walk (unmapMemoryFromPd t va).2 vb = walk t vb

/-- A section: its entry is cleared, and 0 is returned. -/
theorem unmapsBlock_section_iff (hs : s.type = .section) (h : MappedBlock t s)
    (hva : s.InBlock va) : UnmapsBlock t s va ↔ s.paddr / 0x100000 = 0 := by
  have hsize : s.type.size = 0x100000 := by rw [hs]; rfl
  have hentry := h.section_entry hs
  have hun : unmapMemoryFromPd t va = (0, Function.update t (l1Index s.vaddr) .fault) := by
    simp only [unmapMemoryFromPd, (inBlock_section hs).mp hva, hentry]
  constructor
  · intro hright
    have hbase := hright.base
    rw [hun, hsize] at hbase
    simp only at hbase
    omega
  · intro hzero
    constructor
    · rw [hun, hsize, hzero]
    · intro vb hvb
      rw [hun]
      refine walk_of_fault ?_
      simp only [(inBlock_section hs).mp hvb, Function.update_self]
    · intro vb hvb
      rw [hun]
      exact walk_congr (Function.update_of_ne (fun heq => hvb ((inBlock_section hs).mpr heq)) _ _)

/-- A small page: the page goes, and its address is returned unless it is execute never. -/
theorem unmapsBlock_small_iff (hs : s.type = .smallPage) (hal : s.vaddr % s.type.size = 0)
    (h : MappedBlock t s) (hva : s.InBlock va) :
    UnmapsBlock t s va ↔ s.execute % 2 = 0 ∨ s.paddr / 0x1000 = 0 := by
  have hsize : s.type.size = 0x1000 := by rw [hs]; rfl
  obtain ⟨desc, l2, htab, hword⟩ := h.page_word (by rw [hs]; simp) hal hva
  rw [s.pageDesc_small hs] at hword
  obtain ⟨htype, hpa, -⟩ := smallPageDesc_fields { s with domain := 0 } 0
  -- the type bits of the word are 2, or 3 with XN
  have hbase : (unmapMemoryFromPd t va).1 =
      if s.execute % 2 = 0 then s.paddr / 0x1000 * 0x1000 else 0 := by
    simp only [unmapMemoryFromPd, htab, hword, htype, hpa]
    rcases Nat.mod_two_eq_zero_or_one s.execute with hx | hx
    · simp only [hx]
      rfl
    · simp only [hx]
      rfl
  have hwalk := walk_unmapMemoryFromPd (coarse_of_table htab)
  have hblock : ∀ vb, s.InBlock vb ↔ vb / 0x1000 = va / 0x1000 := by
    intro vb
    unfold KernelMemInfo.InBlock at hva ⊢
    rw [← hva, hsize]
  constructor
  · intro hright
    have heq := hbase.symm.trans hright.base
    rw [hsize] at heq
    by_cases hx : s.execute % 2 = 0
    · exact Or.inl hx
    · rw [if_neg hx] at heq
      exact Or.inr (by omega)
  · intro hcond
    constructor
    · rw [hbase, hsize]
      split
      · rfl
      · rename_i hx
        rw [hcond.resolve_left hx]
    · intro vb hvb
      rw [hwalk, if_pos ((hblock vb).mp hvb)]
    · intro vb hvb
      rw [hwalk, if_neg fun heq => hvb ((hblock vb).mpr heq)]

/-- A large page: fifteen of the sixteen entries stay. -/
theorem not_unmapsBlock_large (hs : s.type = .largePage) (hal : s.vaddr % s.type.size = 0)
    (h : MappedBlock t s) (hva : s.InBlock va) : ¬ UnmapsBlock t s va := by
  intro hright
  have hsize : s.type.size = 0x10000 := by rw [hs]; rfl
  have haligned : s.vaddr % 0x10000 = 0 := by rw [← hsize, hal]
  -- another page of the block
  obtain ⟨vb, hvb, hpage⟩ : ∃ vb, s.InBlock vb ∧ ¬ vb / 0x1000 = va / 0x1000 := by
    unfold KernelMemInfo.InBlock
    rw [hsize]
    by_cases hfirst : s.vaddr / 0x1000 = va / 0x1000
    · exact ⟨s.vaddr + 0x1000, by omega, by omega⟩
    · exact ⟨s.vaddr, rfl, hfirst⟩
  obtain ⟨desc, l2, htab, -⟩ := h.page_word (by rw [hs]; simp) hal hva
  have hgone := hright.gone vb hvb
  rw [walk_unmapMemoryFromPd (coarse_of_table htab), if_neg hpage] at hgone
  exact h.mapped hal hvb hgone

/-- **When unmapping is right** for an address of a block that `map_memory_v` has mapped: the block
is a small page that may be executed, or it has one entry and lies at the physical address 0.  For
an address that is not mapped it is right on every table. -/
theorem unmapMemoryFromPd_right_iff {t : PageTable} {s : KernelMemInfo} {va : Nat}
    (hal : s.vaddr % s.type.size = 0) (h : MappedBlock t s) (hva : s.InBlock va) :
    (UnmapsBlock t s va ∧ ∀ vb, walk t vb = none → unmapMemoryFromPd t vb = (0, t)) ↔
      s.type = .smallPage ∧ (s.execute % 2 = 0 ∨ s.paddr / 0x1000 = 0) ∨
        s.type = .section ∧ s.paddr / 0x100000 = 0 := by
  have hunmapped : ∀ vb, walk t vb = none → unmapMemoryFromPd t vb = (0, t) :=
    fun _ => unmapMemoryFromPd_unmapped
  rw [and_iff_left hunmapped]
  cases hs : s.type with
  | smallPage =>
    rw [unmapsBlock_small_iff hs hal h hva]
    simp
  | largePage => simp [not_unmapsBlock_large hs hal h hva]
  | «section» =>
    rw [unmapsBlock_section_iff hs h hva]
    simp

/-- A page of program text. -/
def textInfo : KernelMemInfo := { smallInfo with execute := 0 }

/-- The table with that page. -/
def textTable : PageTable := (mapMemoryV emptyTable textInfo).2

/-- It is unmapped as it should be. -/
theorem unmapMemoryFromPd_right_text :
    (UnmapsBlock textTable textInfo 0x80012345 ∧
      ∀ vb, walk textTable vb = none → unmapMemoryFromPd textTable vb = (0, textTable)) ∧
    (unmapMemoryFromPd textTable 0x80012345).1 = 0x70001000 :=
  ⟨(unmapMemoryFromPd_right_iff rfl (mapMemoryV_mappedBlock rfl)
    (by unfold KernelMemInfo.InBlock; decide)).mpr (Or.inl ⟨rfl, Or.inl rfl⟩), by decide⟩

/-- A page of data is execute never: it is unmapped, and 0 is returned for its frame. -/
theorem unmapMemoryFromPd_forgets_data :
    smallInfo.vaddr % smallInfo.type.size = 0 ∧ (mapMemoryV emptyTable smallInfo).1 = 0 ∧
      smallInfo.InBlock 0x80012345 ∧ (unmapMemoryFromPd smallTable 0x80012345).1 = 0 ∧
      ¬ UnmapsBlock smallTable smallInfo 0x80012345 := by
  have hzero : (unmapMemoryFromPd smallTable 0x80012345).1 = 0 := by decide
  refine ⟨rfl, rfl, by unfold KernelMemInfo.InBlock; decide, hzero, fun hright => ?_⟩
  exact absurd (hright.base.symm.trans hzero) (by decide)

end AndixOs.Mm
