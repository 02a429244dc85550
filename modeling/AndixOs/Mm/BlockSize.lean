/-
# The size of a block

`vmm_get_virt_block_size` decodes what `map_memory_v` encodes: given an address, it is to find the
first and the last address of the block that holds it.  Here a table is built by calls of
`map_memory_v`, in any order and aligned or not, and the blocks are those of the calls that
returned 0.

Two of the three types are decoded wrongly.  The type bits of a small page that is execute never
are those of no type, so nothing is written for it; and of a large page the address is masked as if
the page was small, so the block seems to begin at the page of the address
(`vmmGetVirtBlockSize_right_iff`).
-/
import AndixOs.Mm.BlockMap
import AndixOs.Lib.Run

namespace AndixOs.Mm

variable {t : PageTable} {s s' : KernelMemInfo} {va addr : Nat} {blocks : List KernelMemInfo}

/-! ## 1. Tables that are built -/

/-- A table, and the descriptions of the blocks that were mapped into it. -/
structure BuiltTable where
  table : PageTable
  blocks : List KernelMemInfo

/-- A call of `map_memory_v`. -/
def BuiltTable.map (b : BuiltTable) (s : KernelMemInfo) : BuiltTable where
  table := (mapMemoryV b.table s).2
  blocks := if (mapMemoryV b.table s).1 = 0 then s :: b.blocks else b.blocks

/-- The table after these calls, and its blocks. -/
def buildTable (calls : List KernelMemInfo) : BuiltTable :=
  exec BuiltTable.map ⟨emptyTable, []⟩ calls

/-- The address is one of the block that a call with this description maps. -/
def KernelMemInfo.Covers (s : KernelMemInfo) (va : Nat) : Prop :=
  l1Index va = l1Index s.vaddr ∧ (s.type ≠ .section → s.HasEntry (l2Index va))

/-- The first address of the block. -/
def KernelMemInfo.first (s : KernelMemInfo) : Nat :=
  match s.type with
  | .section => l1Index s.vaddr * 0x100000
  | _ => s.vaddr / 0x1000 * 0x1000

/-- The last address of the block: a large page that is not aligned may run into the end of its
coarse table. -/
def KernelMemInfo.last (s : KernelMemInfo) : Nat :=
  min (s.first + s.type.size - 1) (l1Index s.vaddr * 0x100000 + 0xFFFFF)

/-! ## 2. What is promised, and when it is kept -/

/-- The outputs are the bounds of the block that holds the address, and 0 where nothing is mapped;
whatever they were before, so both are written. -/
def BlockSizeRight (b : BuiltTable) (addr : Nat) : Prop :=
  ∀ start end_, match walk b.table addr with
    | none => vmmGetVirtBlockSize b.table addr start end_ = (0, 0)
    | some _ => ∃ s ∈ b.blocks, s.Covers addr ∧
        vmmGetVirtBlockSize b.table addr start end_ = (s.first, s.last)

/-- The block is decoded as it was encoded: it is a section, or a small page that may be executed, or
the address is on the first 4 KB of a large page with all its entries in one coarse table. -/
def KernelMemInfo.Decodes (s : KernelMemInfo) (addr : Nat) : Prop :=
  match s.type with
  | .section => True
  | .smallPage => s.execute % 2 = 0
  | .largePage => addr / 0x1000 = s.vaddr / 0x1000 ∧ l2Index s.vaddr + 16 ≤ 256

/-! ## 3. The blocks of a table -/

/-- The table has the words of these blocks and translates nothing else, and no address is in two of
them. -/
structure Built (t : PageTable) (blocks : List KernelMemInfo) : Prop where
  sections : ∀ s ∈ blocks, s.type = .section →
    t (l1Index s.vaddr) = .section (sectionDesc { s with domain := 0 })
  pages : ∀ s ∈ blocks, s.type ≠ .section →
    ∃ desc l2, t (l1Index s.vaddr) = .table desc l2 ∧ ∀ i, s.HasEntry i → l2 i = s.pageDesc
  owned : ∀ va, walk t va ≠ none → ∃ s ∈ blocks, s.Covers va
  unique : ∀ va, ∀ s ∈ blocks, ∀ s' ∈ blocks, s.Covers va → s'.Covers va → s = s'

theorem built_empty : Built emptyTable [] where
  sections := nofun
  pages := nofun
  owned := fun _ h => absurd rfl h
  unique := nofun

/-- The word of a page. -/
theorem Built.word (h : Built t blocks) (hs : s ∈ blocks) (hpage : s.type ≠ .section)
    (hva : s.Covers va) : ∃ desc l2, t (l1Index va) = .table desc l2 ∧
      l2 (l2Index va) = s.pageDesc := by
  obtain ⟨desc, l2, ht, hwords⟩ := h.pages s hs hpage
  exact ⟨desc, l2, by rw [hva.1]; exact ht, hwords _ (hva.2 hpage)⟩

/-- What is in a block is translated. -/
theorem Built.mapped (h : Built t blocks) (hs : s ∈ blocks) (hva : s.Covers va) :
    walk t va ≠ none := by
  intro hnone
  by_cases hpage : s.type = .section
  · have hentry := h.sections s hs hpage
    rw [← hva.1] at hentry
    exact not_section_of_walk_none hnone _ hentry
  · obtain ⟨desc, l2, ht, hword⟩ := h.word hs hpage hva
    exact s.pageDesc_type hpage (hword ▸ mod4_of_walk_none ht hnone)

/-- A block that is put where nothing is mapped is in none of the others. -/
theorem Built.unique_cons (h : Built t blocks) (hfree : ∀ va, s.Covers va → walk t va = none) :
    ∀ va, ∀ a ∈ s :: blocks, ∀ b ∈ s :: blocks, a.Covers va → b.Covers va → a = b := by
  intro va a ha b hb hca hcb
  obtain heq | ha := List.mem_cons.mp ha
  · obtain heq' | hb := List.mem_cons.mp hb
    · rw [heq, heq']
    · exact absurd (hfree va (heq ▸ hca)) (h.mapped hb hcb)
  · obtain heq' | hb := List.mem_cons.mp hb
    · exact absurd (hfree va (heq' ▸ hcb)) (h.mapped ha hca)
    · exact h.unique va a ha b hb hca hcb

/-- A section is put into an empty entry. -/
theorem Built.map_section (h : Built t blocks) (hs : s.type = .section)
    (ht : t (l1Index s.vaddr) = .fault) :
    Built (Function.update t (l1Index s.vaddr) (.section (sectionDesc { s with domain := 0 })))
      (s :: blocks) := by
  have hother : ∀ s' : KernelMemInfo, t (l1Index s'.vaddr) ≠ .fault →
      l1Index s'.vaddr ≠ l1Index s.vaddr := fun s' hne heq => hne (heq ▸ ht)
  constructor
  · intro s' hs' hsec
    obtain rfl | hs' := List.mem_cons.mp hs'
    · exact Function.update_self _ _ _
    · have hentry := h.sections s' hs' hsec
      rw [Function.update_of_ne (hother s' (by rw [hentry]; nofun))]
      exact hentry
  · intro s' hs' hpage
    obtain rfl | hs' := List.mem_cons.mp hs'
    · exact absurd hs hpage
    · obtain ⟨desc, l2, htab, hwords⟩ := h.pages s' hs' hpage
      rw [Function.update_of_ne (hother s' (by rw [htab]; nofun))]
      exact ⟨desc, l2, htab, hwords⟩
  · intro va hva
    by_cases h1 : l1Index va = l1Index s.vaddr
    · exact ⟨s, List.mem_cons_self, h1, fun hpage => absurd hs hpage⟩
    · rw [walk_congr (Function.update_of_ne h1 _ _)] at hva
      obtain ⟨s', hs', hcov⟩ := h.owned va hva
      exact ⟨s', List.mem_cons_of_mem s hs', hcov⟩
  · exact h.unique_cons fun va hva => walk_of_fault (by rw [hva.1]; exact ht)

/-- A page is put into entries of type 0. -/
theorem Built.map_page (h : Built t blocks) (hs : s.type ≠ .section) {desc : Nat}
    {l2 l2' : Nat → Nat} (hfor : CoarseFor t s desc l2) (hputs : PutsPage s l2 l2') :
    Built (Function.update t (l1Index s.vaddr) (.table desc l2')) (s :: blocks) := by
  constructor
  · intro s' hs' hsec
    obtain rfl | hs' := List.mem_cons.mp hs'
    · exact absurd hsec hs
    · have hentry := h.sections s' hs' hsec
      rw [Function.update_of_ne]
      · exact hentry
      · intro heq
        rw [heq] at hentry
        obtain ⟨ht, -⟩ | ht := hfor <;> rw [ht] at hentry <;> cases hentry
  · intro s' hs' hpage
    obtain rfl | hs' := List.mem_cons.mp hs'
    · exact ⟨desc, l2', Function.update_self _ _ _, hputs.put⟩
    · obtain ⟨desc', l2'', htab, hwords⟩ := h.pages s' hs' hpage
      by_cases h1 : l1Index s'.vaddr = l1Index s.vaddr
      · -- the two pages are in one coarse table, and the entries of the first were not of type 0
        obtain ⟨ht, -⟩ | ht := hfor
        · rw [← h1, htab] at ht
          cases ht
        · rw [← h1, htab] at ht
          obtain ⟨rfl, rfl⟩ := L1Entry.table.inj ht
          rw [h1]
          refine ⟨_, l2', Function.update_self _ _ _, fun i hi => ?_⟩
          rw [hputs.rest i fun hin => ?_, hwords i hi]
          exact s'.pageDesc_type hpage (hwords i hi ▸ hputs.free i hin)
      · rw [Function.update_of_ne h1]
        exact ⟨desc', l2'', htab, hwords⟩
  · intro va hva
    by_cases hin : s.Covers va
    · exact ⟨s, List.mem_cons_self, hin⟩
    · have hsame : walk (Function.update t (l1Index s.vaddr) (.table desc l2')) va = walk t va := by
        by_cases h1 : l1Index va = l1Index s.vaddr
        · exact hfor.walk_keep h1 (hputs.rest _ fun hentry => hin ⟨h1, fun _ => hentry⟩)
        · exact walk_congr (Function.update_of_ne h1 _ _)
      rw [hsame] at hva
      obtain ⟨s', hs', hcov⟩ := h.owned va hva
      exact ⟨s', List.mem_cons_of_mem s hs', hcov⟩
  · exact h.unique_cons fun va hva => hfor.walk_none hva.1 (hputs.free _ (hva.2 hs))

/-- **One call.** -/
theorem built_map (b : BuiltTable) (s : KernelMemInfo) (h : Built b.table b.blocks) :
    Built (b.map s).table (b.map s).blocks := by
  unfold BuiltTable.map
  obtain hfail | ⟨hs, ht, heq⟩ | ⟨hs, desc, l2, l2', hfor, hputs, heq⟩ := mapMemoryV_cases b.table s
  · rw [hfail]
    exact h
  · rw [heq]
    exact h.map_section hs ht
  · rw [heq]
    exact h.map_page hs hfor hputs

/-- **Every table that is built.** -/
theorem built_buildTable (calls : List KernelMemInfo) :
    Built (buildTable calls).table (buildTable calls).blocks := by
  have hkeep : ∀ (b : BuiltTable) s, Built b.table b.blocks →
      Built (b.map s).table (b.map s).blocks := built_map
  exact exec_keep hkeep calls _ built_empty

/-! ## 4. Decoding -/

/-- A small page is decoded by its type bits, which are 2 or, with XN, 3. -/
theorem blockSize_small_iff (h : Built t blocks) (hs : s ∈ blocks) (hsmall : s.type = .smallPage)
    (hva : s.Covers addr) (haddr : addr < 4294967296) :
    (∀ start end_, vmmGetVirtBlockSize t addr start end_ = (s.first, s.last)) ↔
      s.execute % 2 = 0 := by
  obtain ⟨desc, l2, ht, hword⟩ := h.word hs (by rw [hsmall]; nofun) hva
  rw [s.pageDesc_small hsmall] at hword
  have htype := (smallPageDesc_fields { s with domain := 0 } 0).1
  have hentry := hva.2 (by rw [hsmall]; nofun)
  have h1 := hva.1
  have hpage : addr / 0x1000 = s.vaddr / 0x1000 := by
    refine page_eq_iff.mpr ⟨h1, ?_⟩
    have hsize : s.type.size / 0x1000 = 1 := by rw [hsmall]; rfl
    unfold KernelMemInfo.HasEntry at hentry
    omega
  have hbounds : s.first = addr / 0x1000 * 0x1000 ∧ s.last = addr / 0x1000 * 0x1000 + 0xFFF := by
    have hfirst : s.first = addr / 0x1000 * 0x1000 := by
      unfold KernelMemInfo.first
      rw [hsmall, hpage]
    have hsize : s.type.size = 0x1000 := by rw [hsmall]; rfl
    refine ⟨hfirst, ?_⟩
    unfold KernelMemInfo.last
    rw [hfirst, hsize, ← h1]
    unfold l1Index
    rw [Nat.min_eq_left (by omega)]
    omega
  rw [hbounds.1, hbounds.2]
  unfold vmmGetVirtBlockSize
  rw [ht]
  simp only [hword, htype]
  obtain hx | hx := Nat.mod_two_eq_zero_or_one s.execute
  · simp only [hx, iff_true]
    intro _ _
    rw [w32_of_lt (by omega)]
  · simp only [hx]
    refine iff_of_false (fun hall => ?_) (by decide)
    have h0 := (Prod.mk.inj (hall (addr / 0x1000 * 0x1000 + 1) 0)).1
    omega

/-- A large page is decoded from the page of the address on. -/
theorem blockSize_large_iff (h : Built t blocks) (hs : s ∈ blocks) (hlarge : s.type = .largePage)
    (hva : s.Covers addr) (haddr : addr < 4294967296) (start end_ : Nat) :
    vmmGetVirtBlockSize t addr start end_ = (s.first, s.last) ↔
      addr / 0x1000 = s.vaddr / 0x1000 ∧ l2Index s.vaddr + 16 ≤ 256 := by
  obtain ⟨desc, l2, ht, hword⟩ := h.word hs (by rw [hlarge]; nofun) hva
  rw [s.pageDesc_large hlarge] at hword
  have htype := (largePageDesc_fields { s with domain := 0 } 0).1
  have h1 := hva.1
  have hfirst : s.first = s.vaddr / 0x1000 * 0x1000 := by
    unfold KernelMemInfo.first
    rw [hlarge]
  have hsize : s.type.size = 0x10000 := by rw [hlarge]; rfl
  have hsizes : vmmGetVirtBlockSize t addr start end_ =
      (addr / 0x1000 * 0x1000, w32 (addr / 0x1000 * 0x1000 + 0xFFFF)) := by
    unfold vmmGetVirtBlockSize
    rw [ht]
    simp only [hword, htype]
  rw [hsizes, Prod.mk.injEq]
  unfold KernelMemInfo.last
  rw [hfirst, hsize]
  unfold l1Index at h1 ⊢
  unfold l2Index w32
  clear hword htype hsizes ht
  by_cases hfit : s.vaddr / 0x1000 % 256 + 16 ≤ 256
  · rw [Nat.min_eq_left (by omega)]
    omega
  · rw [Nat.min_eq_right (by omega)]
    omega

theorem blockSize_section (h : Built t blocks) (hs : s ∈ blocks) (hsec : s.type = .section)
    (hva : s.Covers addr) (haddr : addr < 4294967296) (start end_ : Nat) :
    vmmGetVirtBlockSize t addr start end_ = (s.first, s.last) := by
  have hentry := h.sections s hs hsec
  have h1 := hva.1
  rw [← h1] at hentry
  have hfirst : s.first = addr / 0x100000 * 0x100000 := by
    unfold KernelMemInfo.first
    rw [hsec, ← h1]
    rfl
  have hsize : s.type.size = 0x100000 := by rw [hsec]; rfl
  unfold vmmGetVirtBlockSize KernelMemInfo.last
  rw [hentry, hfirst, hsize, ← h1]
  unfold l1Index
  simp only [Prod.mk.injEq, true_and]
  rw [w32_of_lt (by omega)]
  omega

/-- The bounds of a block. -/
theorem blockSize_iff (h : Built t blocks) (hs : s ∈ blocks) (hva : s.Covers addr)
    (haddr : addr < 4294967296) :
    (∀ start end_, vmmGetVirtBlockSize t addr start end_ = (s.first, s.last)) ↔
      s.Decodes addr := by
  unfold KernelMemInfo.Decodes
  cases htype : s.type with
  | smallPage => exact blockSize_small_iff h hs htype hva haddr
  | largePage =>
    have hiff := blockSize_large_iff h hs htype hva haddr
    exact ⟨fun hall => (hiff 0 0).mp (hall 0 0), fun hok start end_ => (hiff start end_).mpr hok⟩
  | «section» => exact iff_of_true (blockSize_section h hs htype hva haddr) trivial

/-- Nothing is decoded where nothing is mapped. -/
theorem blockSize_unmapped (hnone : walk t addr = none) (start end_ : Nat) :
    vmmGetVirtBlockSize t addr start end_ = (0, 0) := by
  unfold vmmGetVirtBlockSize
  cases ht : t (l1Index addr) with
  | fault => rfl
  | table desc l2 => simp only [mod4_of_walk_none ht hnone]
  | «section» d => exact absurd ht (not_section_of_walk_none hnone d)

/-- **When the bounds are right**, for every table that is built and every address: the block that
holds the address, if there is one, is decoded as it was encoded. -/
theorem vmmGetVirtBlockSize_right_iff (calls : List KernelMemInfo) {addr : Nat}
    (haddr : addr < 4294967296) :
    BlockSizeRight (buildTable calls) addr ↔
      ∀ s ∈ (buildTable calls).blocks, s.Covers addr → s.Decodes addr := by
  have hbuilt := built_buildTable calls
  generalize buildTable calls = b at hbuilt
  unfold BlockSizeRight
  cases hw : walk b.table addr with
  | none =>
    refine iff_of_true (blockSize_unmapped hw) fun s hs hva => ?_
    exact absurd hw (hbuilt.mapped hs hva)
  | some l =>
    obtain ⟨s, hs, hva⟩ := hbuilt.owned addr (by rw [hw]; exact Option.some_ne_none l)
    have hiff := blockSize_iff hbuilt hs hva haddr
    constructor
    · intro hright s' hs' hva'
      obtain rfl := hbuilt.unique addr s hs s' hs' hva hva'
      refine hiff.mp fun start end_ => ?_
      obtain ⟨s'', hs'', hva'', heq⟩ := hright start end_
      obtain rfl := hbuilt.unique addr s hs s'' hs'' hva hva''
      exact heq
    · intro hall start end_
      exact ⟨s, hs, hva, hiff.mpr (hall s hs hva) start end_⟩

/-- A page of program text, and a large page of data. -/
def builtCalls : List KernelMemInfo :=
  [textInfo, { largeInfo with vaddr := 0x80020000, execute := execNon }]

/-- The page of text has its bounds. -/
theorem vmmGetVirtBlockSize_right_text : BlockSizeRight (buildTable builtCalls) 0x80012345 := by
  refine (vmmGetVirtBlockSize_right_iff builtCalls (by decide)).mpr fun s hs hva => ?_
  have hblocks : (buildTable builtCalls).blocks =
      [{ largeInfo with vaddr := 0x80020000, execute := execNon }, textInfo] := rfl
  rw [hblocks, List.mem_cons, List.mem_singleton] at hs
  obtain rfl | rfl := hs
  · have hentry := (hva.2 (by decide)).1
    exact absurd hentry (by decide)
  · exact (rfl : textInfo.execute % 2 = 0)

/-- A page of data: both outputs stay as they were. -/
theorem vmmGetVirtBlockSize_data :
    vmmGetVirtBlockSize (buildTable [smallInfo]).table 0x80012345 1 2 = (1, 2) ∧
      ¬ BlockSizeRight (buildTable [smallInfo]) 0x80012345 := by
  have hsize : vmmGetVirtBlockSize (buildTable [smallInfo]).table 0x80012345 1 2 = (1, 2) := by
    decide
  refine ⟨hsize, fun hright => ?_⟩
  have hword := hright 1 2
  rw [hsize] at hword
  split at hword
  · exact absurd hword (by decide)
  · obtain ⟨s, hs, -, heq⟩ := hword
    have hblocks : (buildTable [smallInfo]).blocks = [smallInfo] := rfl
    rw [hblocks, List.mem_singleton] at hs
    subst hs
    exact absurd heq (by decide)

end AndixOs.Mm
