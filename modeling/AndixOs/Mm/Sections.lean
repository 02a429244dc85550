/-
# Mapping a range of blocks

`map_kernel_sections` maps one block after another and, when one of them cannot be mapped, unmaps
what it has mapped.  Both loops step 32-bit addresses, so whether they come to an end is part of the
question: here they are loops that may not end.

The mapping loop always ends, at the latest when the virtual address wraps.  Taking back goes wrong
in two ways.  Of a large page `unmap_kernel_memory` clears one entry of sixteen.  And if the address
wrapped, the last address to unmap is that before 0, which every address is at or below: the loop
never ends (`mapKernelSections_iff`).
-/
import AndixOs.Lib.Loop
import AndixOs.Mm.BlockMap
import AndixOs.Mm.Unmap

namespace AndixOs.Mm

/-! ## 1. The two loops -/

/-- The body of the mapping loop, with `start`, `vstart` and the table.  The result is the block that
could not be mapped, if there is one. -/
def mapSectionsBody (s : KernelMemInfo) (end_ : Nat) :
    Nat × Nat × PageTable → (Nat × Nat × PageTable) ⊕ (Option Nat × PageTable)
  | (start, vstart, t) =>
    if start ≤ end_ then
      match mapKernelMemory t { s with paddr := start, vaddr := vstart } with
      | (r, t) =>
        if r ≠ 0 then .inr (some vstart, t)
        else .inl (w32 (start + s.type.size), w32 (vstart + s.type.size), t)
    else .inr (none, t)

/-- The body of the loop that unmaps, with `fvstart` and the table. -/
def unmapSectionsBody (psize fvend : Nat) : Nat × PageTable → (Nat × PageTable) ⊕ PageTable
  | (fvstart, t) =>
    if fvstart ≤ fvend then .inl (w32 (fvstart + psize), (unmapMemoryFromPd t fvstart).2)
    else .inr t

/-- `map_kernel_sections` where each loop makes at most this many rounds; `none` if one of them is
still going. -/
def runMapKernelSections (fuel : Nat) (t : PageTable) (start end_ vstart : Nat)
    (s : KernelMemInfo) : Option (Int × PageTable) :=
  match runLoop (mapSectionsBody s end_) fuel (start, vstart, t) with
  | none => none
  | some (none, t) => some (0, t)
  | some (some v, t) =>
    (runLoop (unmapSectionsBody s.type.size (sub32 v 1)) fuel (vstart, t)).map fun t => (-1, t)

/-! ## 2. What is promised -/

variable {t t' : PageTable} {s : KernelMemInfo} {va vb start end_ vstart N m : Nat}

/-- The blocks that overlap the range. -/
def blockCount (s : KernelMemInfo) (start end_ : Nat) : Nat := (end_ - start) / s.type.size + 1

/-- The call returns.  If it returns 0, the blocks of the range are mapped from `vstart` on; else
every address of the 32-bit space is translated as before. -/
def AllOrNothing (t : PageTable) (start end_ vstart : Nat) (s : KernelMemInfo) : Prop :=
  ∃ fuel r t', runMapKernelSections fuel t start end_ vstart s = some (r, t') ∧
    (r = 0 → ∀ o, o < s.type.size * blockCount s start end_ →
      (walk t' (vstart + o)).map Leaf.pa = some (start + o)) ∧
    (r ≠ 0 → ∀ va, va < 4294967296 → walk t' va = walk t va)

/-- `map_kernel_memory` maps nothing that user programs may access. -/
def KernelMemInfo.Allowed (s : KernelMemInfo) : Prop :=
  ¬ (s.ap = apSvcRwUsrRw ∨ s.ap = apSvcRwUsrRo ∨ s.ap = apSvcRoUsrRo)

instance (s : KernelMemInfo) : Decidable s.Allowed := inferInstanceAs (Decidable (¬ _))

/-- A block of this type can be put at the address: no page of it is mapped, and for a section there
is no first-level entry. -/
def BlockFree (t : PageTable) (type : MemType) (va : Nat) : Prop :=
  (type = .section → t (l1Index va) = .fault) ∧
    ∀ vb, vb / type.size = va / type.size → walk t vb = none

/-- The physical addresses of the range end where those of 32 bits do. -/
def ReachesTop (s : KernelMemInfo) (start end_ : Nat) : Prop :=
  4294967296 ≤ start + s.type.size * blockCount s start end_

/-- Nothing is mapped before a refusal, or all blocks of the range can be mapped and its addresses
do not wrap, or what is mapped can be taken back: the blocks are no large pages, and one of those
from `vstart` to the end of the address space cannot be mapped. -/
def MapsOrUndoes (t : PageTable) (start end_ vstart : Nat) (s : KernelMemInfo) : Prop :=
  ¬ s.Allowed ∨ ¬ BlockFree t s.type vstart ∨
    (¬ ReachesTop s start end_ ∧ ∀ i, i < blockCount s start end_ →
      vstart + s.type.size * i < 4294967296 ∧ BlockFree t s.type (vstart + s.type.size * i)) ∨
    (s.type ≠ .largePage ∧ ∃ i, vstart + s.type.size * i < 4294967296 ∧
      ¬ BlockFree t s.type (vstart + s.type.size * i))

/-! ## 3. One block -/

theorem MemType.size_pos (type : MemType) : 0 < type.size := by cases type <;> decide

/-- The addresses of 32 bits are whole blocks. -/
theorem MemType.size_dvd (type : MemType) : type.size ∣ 4294967296 := by
  cases type <;> decide

/-- **When `map_memory_v` maps a block.** -/
theorem mapMemoryV_done_iff (hal : s.vaddr % s.type.size = 0) :
    (mapMemoryV t s).1 = 0 ↔ BlockFree t s.type s.vaddr := by
  constructor
  · intro h
    have hrest := mapMemoryV_rest hal h
    exact ⟨fun hs => (mapMemoryV_section_eq hs h).1, fun vb hvb => (hrest vb).1 hvb⟩
  · rintro ⟨hentry, hnone⟩
    cases hs : s.type with
    | smallPage => exact (mapMemoryV_small hs (hnone s.vaddr rfl)).1
    | «section» => simp only [mapMemoryV, hentry hs, hs]
    | largePage =>
      have hsize : s.type.size = 0x10000 := by rw [hs]; rfl
      rw [hsize] at hal hnone
      cases ht : t (l1Index s.vaddr) with
      | fault => simp only [mapMemoryV, ht, hs]
      | table desc l2 =>
        -- the sixteen words are those of the sixteen pages
        have hall : ((List.range 16).all fun i => l2 (l2Index s.vaddr + i) % 4 = 0) = true := by
          refine List.all_eq_true.mpr fun i hi => decide_eq_true ?_
          have hi : i < 16 := List.mem_range.mp hi
          have h1 : l1Index (s.vaddr + 0x1000 * i) = l1Index s.vaddr := by
            unfold l1Index
            omega
          have h2 : l2Index (s.vaddr + 0x1000 * i) = l2Index s.vaddr + i := by
            unfold l2Index
            omega
          have hzero := mod4_of_walk_none (h1 ▸ ht) (hnone (s.vaddr + 0x1000 * i) (by omega))
          rwa [h2] at hzero
        simp only [mapMemoryV, ht, hs, if_pos hall]
      | «section» d => exact absurd ht (not_section_of_walk_none (hnone s.vaddr rfl) d)

/-- `map_kernel_memory` is `map_memory_v` where it is allowed. -/
theorem mapKernelMemory_cases (hal : s.vaddr % s.type.size = 0) :
    (s.Allowed ∧ 0x80000000 ≤ s.vaddr ∧ BlockFree t s.type s.vaddr ∧
        mapKernelMemory t s = mapMemoryV t s ∧ (mapMemoryV t s).1 = 0) ∨
      (¬ (s.Allowed ∧ 0x80000000 ≤ s.vaddr ∧ BlockFree t s.type s.vaddr) ∧
        mapKernelMemory t s = (-1, t)) := by
  unfold mapKernelMemory
  by_cases hlow : s.vaddr < 0x80000000
  · rw [if_pos hlow]
    exact Or.inr ⟨fun h => absurd h.2.1 (by omega), rfl⟩
  rw [if_neg hlow]
  by_cases hap : s.ap = apSvcRwUsrRw ∨ s.ap = apSvcRwUsrRo ∨ s.ap = apSvcRoUsrRo
  · rw [if_pos hap]
    exact Or.inr ⟨fun h => h.1 hap, rfl⟩
  rw [if_neg hap]
  by_cases hfree : BlockFree t s.type s.vaddr
  · exact Or.inl ⟨hap, Nat.le_of_not_lt hlow, hfree, rfl, (mapMemoryV_done_iff hal).mpr hfree⟩
  · refine Or.inr ⟨fun h => hfree h.2.2, ?_⟩
    obtain hfail | hdone := mapMemoryV_result t s
    · exact hfail
    · exact absurd ((mapMemoryV_done_iff hal).mp hdone) hfree

/-- Mapping a block does not change whether another one is free. -/
theorem blockFree_map (hal : s.vaddr % s.type.size = 0) (hdone : (mapMemoryV t s).1 = 0)
    (hother : va / s.type.size ≠ s.vaddr / s.type.size) :
    BlockFree (mapMemoryV t s).2 s.type va ↔ BlockFree t s.type va := by
  have hrest := mapMemoryV_rest hal hdone
  refine and_congr (imp_congr_right fun hs => ?_) (forall_congr' fun vb =>
    imp_congr_right fun hvb => ?_)
  · have hne : l1Index va ≠ l1Index s.vaddr := by
      rw [hs] at hother
      exact hother
    have hsame : (mapMemoryV t s).2 (l1Index va) = t (l1Index va) := by
      rw [(mapMemoryV_section_eq hs hdone).2]
      exact Function.update_of_ne hne _ _
    rw [hsame]
  · rw [(hrest vb).2 fun hin => hother (hvb.symm.trans hin)]

/-- Unmapping leaves the words of the other pages, but those of a section. -/
theorem sameWord_unmap (hc : Coarse t va) (hpage : ¬ vb / 0x1000 = va / 0x1000) :
    SameWord t (unmapMemoryFromPd t va).2 vb := by
  by_cases h1 : l1Index vb = l1Index va
  · have h2 : l2Index vb ≠ l2Index va := fun h2 => hpage (page_eq_iff.mpr ⟨h1, h2⟩)
    cases ht : t (l1Index va) with
    | fault =>
      simp only [unmapMemoryFromPd, ht]
      exact SameWord.refl t vb
    | table desc l2 =>
      simp only [unmapMemoryFromPd, ht]
      split
      · exact SameWord.refl t vb
      · exact SameWord.table (h1 ▸ ht) (by rw [h1]; exact Function.update_self ..)
          (Function.update_of_ne h2 _ _)
    | «section» d => exact absurd ht (hc d)
  · exact SameWord.of_eq (unmapMemoryFromPd_other t h1)

/-- A block stays mapped when an address of another block is unmapped. -/
theorem MappedBlock.unmap (hal : s.vaddr % s.type.size = 0) (h : MappedBlock t s)
    (hva : ¬ s.InBlock va) : MappedBlock (unmapMemoryFromPd t va).2 s := by
  have hword : ∀ vb, s.InBlock vb → SameWord t (unmapMemoryFromPd t va).2 vb := by
    intro vb hvb
    by_cases h1 : l1Index vb = l1Index va
    · by_cases hs : s.type = .section
      · exact absurd ((inBlock_section hs).mpr (h1 ▸ (inBlock_section hs).mp hvb)) hva
      · obtain ⟨desc, l2, htab, -⟩ := h.page_word hs hal hvb
        refine sameWord_unmap (coarse_of_table (h1 ▸ htab)) fun hpage => hva ?_
        refine (inBlock_page hs hal).mpr ?_
        rw [← (page_eq_iff.mp hpage).1, ← (page_eq_iff.mp hpage).2]
        exact (inBlock_page hs hal).mp hvb
    · exact SameWord.of_eq (unmapMemoryFromPd_other t h1)
  obtain ⟨t₀, h0, hsame⟩ := h
  exact ⟨t₀, h0, fun vb hvb => (hsame vb hvb).trans (hword vb hvb)⟩

/-- **Unmapping the first address of a section or of a small page** takes the block away. -/
theorem MappedBlock.walk_unmap (hs : s.type ≠ .largePage) (hal : s.vaddr % s.type.size = 0)
    (h : MappedBlock t s) (vb : Nat) :
    (s.InBlock vb → walk (unmapMemoryFromPd t s.vaddr).2 vb = none) ∧
      (¬ s.InBlock vb → walk (unmapMemoryFromPd t s.vaddr).2 vb = walk t vb) := by
  cases htype : s.type with
  | smallPage =>
    obtain ⟨desc, l2, htab, -⟩ := h.page_word (by rw [htype]; simp) hal rfl
    have hblock : s.InBlock vb ↔ vb / 0x1000 = s.vaddr / 0x1000 := by
      unfold KernelMemInfo.InBlock
      rw [htype]
      exact Iff.rfl
    rw [walk_unmapMemoryFromPd (coarse_of_table htab), hblock]
    exact ⟨fun hin => if_pos hin, fun hout => if_neg hout⟩
  | largePage => exact absurd htype hs
  | «section» =>
    have hun : unmapMemoryFromPd t s.vaddr = (0, Function.update t (l1Index s.vaddr) .fault) := by
      simp only [unmapMemoryFromPd, h.section_entry htype]
    rw [hun, inBlock_section htype]
    refine ⟨fun hin => walk_of_fault ?_, fun hout => ?_⟩
    · rw [hin]
      exact Function.update_self _ _ _
    · exact walk_congr (Function.update_of_ne hout _ _)

/-! ## 4. The blocks of a range -/

/-- The description of the `i`-th block. -/
def KernelMemInfo.block (s : KernelMemInfo) (start vstart i : Nat) : KernelMemInfo :=
  { s with paddr := w32 (start + s.type.size * i), vaddr := vstart + s.type.size * i }

/-- The table when the first `n` blocks are mapped. -/
def blocksMapped (s : KernelMemInfo) (start vstart : Nat) (t : PageTable) : Nat → PageTable
  | 0 => t
  | n + 1 => (mapMemoryV (blocksMapped s start vstart t n) (s.block start vstart n)).2

/-- The table when the first addresses of `n` blocks are unmapped. -/
def blocksUnmapped (psize vstart : Nat) (t : PageTable) : Nat → PageTable
  | 0 => t
  | n + 1 => (unmapMemoryFromPd (blocksUnmapped psize vstart t n) (w32 (vstart + psize * n))).2

/-- The address is in one of the first `n` blocks. -/
def InBlocks (s : KernelMemInfo) (vstart n va : Nat) : Prop :=
  vstart / s.type.size ≤ va / s.type.size ∧ va / s.type.size < vstart / s.type.size + n

/-- The first `n` blocks are mapped, and the rest is as before. -/
structure MapsBlocks (t t' : PageTable) (s : KernelMemInfo) (start vstart n : Nat) : Prop where
  rest : ∀ va, ¬ InBlocks s vstart n va → walk t' va = walk t va
  free : ∀ va, ¬ InBlocks s vstart n va → (BlockFree t' s.type va ↔ BlockFree t s.type va)
  maps : ∀ i, i < n → MappedBlock t' (s.block start vstart i)
  leads : ∀ i, i < n → ∀ o, o < s.type.size →
    (walk t' (vstart + s.type.size * i + o)).map Leaf.pa =
      some (w32 (start + s.type.size * i) / s.type.size * s.type.size + o)

theorem blockIndex (s : KernelMemInfo) (vstart i : Nat) :
    (vstart + s.type.size * i) / s.type.size = vstart / s.type.size + i :=
  Nat.add_mul_div_left _ _ s.type.size_pos

theorem block_aligned (hal : vstart % s.type.size = 0) (i : Nat) :
    (vstart + s.type.size * i) % s.type.size = 0 := by
  rw [Nat.add_mul_mod_self_left, hal]

theorem inBlock_block (s : KernelMemInfo) (start vstart i va : Nat) :
    (s.block start vstart i).InBlock va ↔ va / s.type.size = vstart / s.type.size + i := by
  rw [← blockIndex s vstart i]
  exact Iff.rfl

theorem MapsBlocks.zero (t : PageTable) (s : KernelMemInfo) (start vstart : Nat) :
    MapsBlocks t t s start vstart 0 where
  rest := fun _ _ => rfl
  free := fun _ _ => Iff.rfl
  maps := fun i hi => absurd hi (Nat.not_lt_zero i)
  leads := fun i hi => absurd hi (Nat.not_lt_zero i)

/-- **One more block.** -/
theorem MapsBlocks.step {n : Nat} (h : MapsBlocks t t' s start vstart n)
    (hal : vstart % s.type.size = 0) (hfree : BlockFree t s.type (vstart + s.type.size * n)) :
    MapsBlocks t (mapMemoryV t' (s.block start vstart n)).2 s start vstart (n + 1) := by
  have halign : (s.block start vstart n).vaddr % (s.block start vstart n).type.size = 0 :=
    block_aligned hal n
  have hnew : BlockFree t' s.type (vstart + s.type.size * n) := by
    refine (h.free _ ?_).mpr hfree
    unfold InBlocks
    rw [blockIndex]
    omega
  have hdone : (mapMemoryV t' (s.block start vstart n)).1 = 0 :=
    (mapMemoryV_done_iff halign).mpr hnew
  have hrest := mapMemoryV_rest halign hdone
  have hout : ∀ {va}, ¬ InBlocks s vstart (n + 1) va →
      ¬ InBlocks s vstart n va ∧ ¬ (s.block start vstart n).InBlock va := by
    intro va hva
    rw [inBlock_block]
    unfold InBlocks at hva ⊢
    omega
  constructor
  · intro va hva
    rw [(hrest va).2 (hout hva).2, h.rest va (hout hva).1]
  · intro va hva
    refine (blockFree_map halign hdone (hout hva).2).trans (h.free va (hout hva).1)
  · intro i hi
    rcases Nat.lt_succ_iff_lt_or_eq.mp hi with hi | rfl
    · exact (h.maps i hi).map (block_aligned hal i) _
    · exact mapMemoryV_mappedBlock hdone
  · intro i hi o ho
    have hindex : (vstart + s.type.size * i + o) / s.type.size = vstart / s.type.size + i := by
      rw [Nat.add_assoc, Nat.add_comm (s.type.size * i), ← Nat.add_assoc,
        Nat.add_mul_div_left _ _ s.type.size_pos]
      congr 1
      obtain ⟨q, rfl⟩ := Nat.dvd_of_mod_eq_zero hal
      rw [Nat.mul_add_div s.type.size_pos, Nat.div_eq_of_lt ho,
        Nat.mul_div_cancel_left _ s.type.size_pos, Nat.add_zero]
    rcases Nat.lt_succ_iff_lt_or_eq.mp hi with hi | rfl
    · rw [(hrest _).2 (by rw [inBlock_block, hindex]; omega), h.leads i hi o ho]
    · exact congrArg (Option.map Leaf.pa) (mapMemoryV_block hdone halign ho)

theorem blocksMapped_spec {n : Nat} (hal : vstart % s.type.size = 0)
    (hfree : ∀ i, i < n → BlockFree t s.type (vstart + s.type.size * i)) :
    MapsBlocks t (blocksMapped s start vstart t n) s start vstart n := by
  induction n with
  | zero => exact MapsBlocks.zero t s start vstart
  | succ n ih =>
    exact (ih fun i hi => hfree i (Nat.lt_succ_of_lt hi)).step hal (hfree n (Nat.lt_succ_self n))

/-! ## 5. The rounds -/

/-- The `i`-th block lies in the address space, and `map_kernel_memory` maps it. -/
def CanMap (t : PageTable) (s : KernelMemInfo) (vstart i : Nat) : Prop :=
  s.Allowed ∧ vstart + s.type.size * i < 4294967296 ∧
    BlockFree t s.type (vstart + s.type.size * i)

/-- **When the loop wants another block**: while there are blocks of the range, and for ever if the
physical addresses wrap. -/
theorem wants_iff {i : Nat} (hle : start ≤ end_) (hend : end_ < 4294967296)
    (hi : s.type.size * i ≤ 4294967296)
    (hcount : i ≤ blockCount s start end_ ∨ ReachesTop s start end_) :
    w32 (start + s.type.size * i) ≤ end_ ↔
      i < blockCount s start end_ ∨ ReachesTop s start end_ := by
  have hbelow := Nat.mul_div_le (end_ - start) s.type.size
  have habove := Nat.lt_mul_div_succ (end_ - start) s.type.size_pos
  have hlast : s.type.size * blockCount s start end_ =
      s.type.size * ((end_ - start) / s.type.size + 1) := rfl
  by_cases h1 : i < blockCount s start end_
  · have hmono := Nat.mul_le_mul_left s.type.size (Nat.le_of_lt_succ h1)
    rw [w32_of_lt (by omega)]
    exact ⟨fun _ => Or.inl h1, fun _ => by omega⟩
  have hmono := Nat.mul_le_mul_left s.type.size (Nat.le_of_not_lt h1)
  by_cases htop : ReachesTop s start end_
  · refine ⟨fun _ => Or.inr htop, fun _ => ?_⟩
    unfold ReachesTop at htop
    unfold w32
    omega
  · have hi' : i = blockCount s start end_ :=
      Nat.le_antisymm (hcount.resolve_right htop) (Nat.le_of_not_lt h1)
    subst hi'
    unfold ReachesTop at htop
    rw [w32_of_lt (by omega)]
    exact ⟨fun h => by omega, fun h => absurd (h.resolve_left h1) (by unfold ReachesTop; omega)⟩

/-- The state of the mapping loop before the `i`-th round. -/
def mapSectionsRound (s : KernelMemInfo) (start vstart : Nat) (t : PageTable) (i : Nat) :
    Nat × Nat × PageTable :=
  (w32 (start + s.type.size * i), w32 (vstart + s.type.size * i), blocksMapped s start vstart t i)

/-- What is in the way of a block is in its way whatever was mapped before it. -/
theorem blockFree_blocksMapped (hal : vstart % s.type.size = 0)
    (hok : ∀ i, i < m → CanMap t s vstart i) :
    BlockFree (blocksMapped s start vstart t m) s.type (vstart + s.type.size * m) ↔
      BlockFree t s.type (vstart + s.type.size * m) := by
  refine (blocksMapped_spec hal fun i hi => (hok i hi).2.2).free _ ?_
  unfold InBlocks
  rw [blockIndex]
  omega

/-- A round that maps its block. -/
theorem mapSectionsBody_goes (hal : vstart % s.type.size = 0) (hlow : 0x80000000 ≤ vstart)
    (hok : ∀ i, i < m + 1 → CanMap t s vstart i)
    (hwant : w32 (start + s.type.size * m) ≤ end_) :
    mapSectionsBody s end_ (mapSectionsRound s start vstart t m) =
      .inl (mapSectionsRound s start vstart t (m + 1)) := by
  obtain ⟨hallow, hin, hfree⟩ := hok m (Nat.lt_succ_self m)
  have hstep : ∀ a, w32 (w32 (a + s.type.size * m) + s.type.size) =
      w32 (a + s.type.size * (m + 1)) := by
    intro a
    rw [w32_w32_add, Nat.mul_succ, Nat.add_assoc]
  have hmap : mapKernelMemory (blocksMapped s start vstart t m) (s.block start vstart m) =
      mapMemoryV (blocksMapped s start vstart t m) (s.block start vstart m) ∧
      (mapMemoryV (blocksMapped s start vstart t m) (s.block start vstart m)).1 = 0 := by
    rcases mapKernelMemory_cases (s := s.block start vstart m)
      (t := blocksMapped s start vstart t m) (block_aligned hal m) with h | ⟨hno, -⟩
    · exact h.2.2.2
    · refine absurd ⟨hallow, Nat.le_trans hlow (Nat.le_add_right _ _), ?_⟩ hno
      exact (blockFree_blocksMapped hal fun i hi => hok i (Nat.lt_succ_of_lt hi)).mpr hfree
  have hround : mapKernelMemory (blocksMapped s start vstart t m)
      { s with paddr := w32 (start + s.type.size * m), vaddr := w32 (vstart + s.type.size * m) } =
      (0, blocksMapped s start vstart t (m + 1)) := by
    rw [w32_of_lt hin]
    exact hmap.1.trans (Prod.ext hmap.2 rfl)
  rw [mapSectionsRound, mapSectionsBody, if_pos hwant, hround]
  simp only [ne_eq, not_true_eq_false, if_false, hstep, mapSectionsRound]

/-- A round that cannot map its block. -/
theorem mapSectionsBody_fails (hal : vstart % s.type.size = 0)
    (hok : ∀ i, i < m → CanMap t s vstart i) (hno : ¬ CanMap t s vstart m)
    (htop : vstart + s.type.size * m ≤ 4294967296)
    (hwant : w32 (start + s.type.size * m) ≤ end_) :
    mapSectionsBody s end_ (mapSectionsRound s start vstart t m) =
      .inr (some (w32 (vstart + s.type.size * m)), blocksMapped s start vstart t m) := by
  have hround : mapKernelMemory (blocksMapped s start vstart t m)
      { s with paddr := w32 (start + s.type.size * m), vaddr := w32 (vstart + s.type.size * m) } =
      (-1, blocksMapped s start vstart t m) := by
    rcases Nat.lt_or_eq_of_le htop with hin | hwrap
    · rw [w32_of_lt hin]
      rcases mapKernelMemory_cases (s := s.block start vstart m)
        (t := blocksMapped s start vstart t m) (block_aligned hal m) with h | ⟨-, h⟩
      · exact absurd ⟨h.1, hin, (blockFree_blocksMapped hal hok).mp h.2.2.1⟩ hno
      · exact h
    · rw [hwrap]
      exact if_pos (show w32 4294967296 < 0x80000000 by decide)
  rw [mapSectionsRound, mapSectionsBody, if_pos hwant, hround]
  rfl

/-- A round behind the last block. -/
theorem mapSectionsBody_done (hwant : ¬ w32 (start + s.type.size * m) ≤ end_) :
    mapSectionsBody s end_ (mapSectionsRound s start vstart t m) =
      .inr (none, blocksMapped s start vstart t m) := by
  rw [mapSectionsRound, mapSectionsBody, if_neg hwant]

/-- **The mapping loop ends** at the block where it fails, or behind the last one. -/
theorem mapLoop_ends (hal : vstart % s.type.size = 0) (hlow : 0x80000000 ≤ vstart)
    (hv : vstart < 4294967296) (hle : start ≤ end_) (hend : end_ < 4294967296) :
    ∃ m, s.type.size * m ≤ 4294967296 ∧ vstart + s.type.size * m ≤ 4294967296 ∧
      (∀ i, i < m → CanMap t s vstart i) ∧
      (((m = blockCount s start end_ ∧ ¬ ReachesTop s start end_) ∧
          ∀ fuel, m < fuel → runLoop (mapSectionsBody s end_) fuel (start, vstart, t) =
            some (none, blocksMapped s start vstart t m)) ∨
        ((m < blockCount s start end_ ∨ ReachesTop s start end_) ∧ ¬ CanMap t s vstart m ∧
          ∀ fuel, m < fuel → runLoop (mapSectionsBody s end_) fuel (start, vstart, t) =
            some (some (w32 (vstart + s.type.size * m)), blocksMapped s start vstart t m))) := by
  classical
  have hstart : mapSectionsRound s start vstart t 0 = (start, vstart, t) := by
    unfold mapSectionsRound
    rw [Nat.mul_zero, Nat.add_zero, Nat.add_zero, w32_of_lt hv, w32_of_lt (by omega)]
    rfl
  -- the first round that does not map a block
  have hex : ∃ m, ¬ ((m < blockCount s start end_ ∨ ReachesTop s start end_) ∧
      CanMap t s vstart m) := by
    refine ⟨4294967296, fun h => ?_⟩
    have hin := h.2.2.1
    have hmono := Nat.mul_le_mul_right 4294967296 s.type.size_pos
    omega
  have hmin : ∀ i, i < Nat.find hex →
      (i < blockCount s start end_ ∨ ReachesTop s start end_) ∧ CanMap t s vstart i :=
    fun i hi => not_not.mp (Nat.find_min hex hi)
  have hstop := Nat.find_spec hex
  generalize Nat.find hex = m at hmin hstop
  have htop : vstart + s.type.size * m ≤ 4294967296 := by
    rcases m with _ | m
    · omega
    · -- the addresses are whole blocks
      have hlast := (hmin m (Nat.lt_succ_self m)).2.2.1
      obtain ⟨q, hq⟩ := s.type.size_dvd
      obtain ⟨v, hv'⟩ := Nat.dvd_of_mod_eq_zero hal
      rw [hq, hv', ← Nat.mul_add] at hlast ⊢
      exact Nat.mul_le_mul_left _ (Nat.lt_of_mul_lt_mul_left hlast)
  have hcount : ∀ i, i < m + 1 → s.type.size * i ≤ 4294967296 ∧
      (i ≤ blockCount s start end_ ∨ ReachesTop s start end_) := by
    intro i hi
    have hmono := Nat.mul_le_mul_left s.type.size (Nat.le_of_lt_succ hi)
    refine ⟨by omega, ?_⟩
    rcases i with _ | i
    · exact Or.inl (Nat.zero_le _)
    · exact (hmin i (by omega)).1.imp_left id
  have hrounds : Rounds (mapSectionsBody s end_) (mapSectionsRound s start vstart t) m := by
    intro i hi
    obtain ⟨h1, h2⟩ := hcount i (Nat.lt_succ_of_lt hi)
    exact mapSectionsBody_goes hal hlow (fun j hj => (hmin j (by omega)).2)
      ((wants_iff hle hend h1 h2).mpr (hmin i hi).1)
  obtain ⟨h1, h2⟩ := hcount m (Nat.lt_succ_self m)
  have hwants := wants_iff hle hend h1 h2
  refine ⟨m, by omega, htop, fun i hi => (hmin i hi).2, ?_⟩
  by_cases hwant : m < blockCount s start end_ ∨ ReachesTop s start end_
  · have hno : ¬ CanMap t s vstart m := fun h => hstop ⟨hwant, h⟩
    refine Or.inr ⟨hwant, hno, fun fuel hfuel => ?_⟩
    rw [← hstart]
    exact runLoop_of_rounds hrounds (mapSectionsBody_fails hal (fun i hi => (hmin i hi).2) hno htop
      (hwants.mpr hwant)) hfuel
  · have hm : m = blockCount s start end_ :=
      Nat.le_antisymm (h2.resolve_right fun h => hwant (Or.inr h))
        (Nat.le_of_not_lt fun h => hwant (Or.inl h))
    refine Or.inl ⟨⟨hm, fun h => hwant (Or.inr h)⟩, fun fuel hfuel => ?_⟩
    rw [← hstart]
    exact runLoop_of_rounds hrounds (mapSectionsBody_done fun h => hwant (hwants.mp h)) hfuel

/-! ## 6. Taking back -/

/-- The state of the unmapping loop before the `i`-th round. -/
def unmapSectionsRound (psize vstart : Nat) (t : PageTable) (i : Nat) : Nat × PageTable :=
  (w32 (vstart + psize * i), blocksUnmapped psize vstart t i)

theorem unmapSectionsRound_zero (psize : Nat) (hv : vstart < 4294967296) :
    unmapSectionsRound psize vstart t 0 = (vstart, t) := by
  rw [unmapSectionsRound, Nat.mul_zero, Nat.add_zero, w32_of_lt hv]
  rfl

/-- A round of the unmapping loop. -/
theorem unmapSectionsBody_goes {psize fvend i : Nat} (hle : w32 (vstart + psize * i) ≤ fvend) :
    unmapSectionsBody psize fvend (unmapSectionsRound psize vstart t i) =
      .inl (unmapSectionsRound psize vstart t (i + 1)) := by
  rw [unmapSectionsRound, unmapSectionsBody, if_pos hle, w32_w32_add, Nat.add_assoc]
  rfl

/-- The unmapping loop that stops before the address of the `m`-th block. -/
theorem unmapLoop_ends {psize : Nat} (hpos : 0 < psize) (hv : 0 < vstart)
    (hin : vstart + psize * m < 4294967296) {fuel : Nat} (hfuel : m < fuel) :
    runLoop (unmapSectionsBody psize (sub32 (w32 (vstart + psize * m)) 1)) fuel (vstart, t) =
      some (blocksUnmapped psize vstart t m) := by
  have hend : sub32 (w32 (vstart + psize * m)) 1 = vstart + psize * m - 1 := by
    rw [w32_of_lt hin, sub32_of_le (by omega) hin]
  rw [hend, ← unmapSectionsRound_zero (t := t) psize (by omega)]
  have hrounds : Rounds (unmapSectionsBody psize (vstart + psize * m - 1))
      (unmapSectionsRound psize vstart t) m := by
    intro i hi
    have hmono := Nat.mul_le_mul_left psize (Nat.succ_le_of_lt hi)
    rw [Nat.mul_succ] at hmono
    refine unmapSectionsBody_goes ?_
    rw [w32_of_lt (by omega)]
    omega
  refine runLoop_of_rounds hrounds ?_ hfuel
  rw [unmapSectionsRound, unmapSectionsBody, if_neg]
  rw [w32_of_lt hin]
  omega

/-- **The unmapping loop that never ends**: no address is above the last one. -/
theorem unmapLoop_wraps {psize : Nat} (hv : vstart < 4294967296) :
    ¬ Ends (unmapSectionsBody psize 4294967295) (vstart, t) t' := by
  rw [← unmapSectionsRound_zero psize hv]
  refine not_ends_of_rounds fun n i _ => unmapSectionsBody_goes ?_
  have hlt := w32_lt (vstart + psize * i)
  omega

/-- The blocks that are still to be unmapped. -/
theorem MapsBlocks.still (h : MapsBlocks t t' s start vstart m) (hal : vstart % s.type.size = 0)
    (hin : vstart + s.type.size * m ≤ 4294967296) :
    ∀ {n : Nat}, n ≤ m → ∀ i, n ≤ i → i < m →
      MappedBlock (blocksUnmapped s.type.size vstart t' n) (s.block start vstart i)
  | 0, _, i, _, hi => h.maps i hi
  | n + 1, hn, i, hni, hi => by
    have hmono := Nat.mul_le_mul_left s.type.size hn
    rw [Nat.mul_succ] at hmono
    have hpos := s.type.size_pos
    rw [blocksUnmapped, w32_of_lt (by omega)]
    refine (h.still hal hin (Nat.le_of_succ_le hn) i (by omega) hi).unmap (block_aligned hal i) ?_
    rw [inBlock_block, blockIndex]
    omega

/-- **Sections and small pages are taken back**, one block at a time. -/
theorem MapsBlocks.walk_unmapped (h : MapsBlocks t t' s start vstart m)
    (hs : s.type ≠ .largePage) (hal : vstart % s.type.size = 0)
    (hin : vstart + s.type.size * m ≤ 4294967296) {n : Nat} (hn : n ≤ m) (va : Nat) :
    (InBlocks s vstart n va → walk (blocksUnmapped s.type.size vstart t' n) va = none) ∧
      (¬ InBlocks s vstart n va →
        walk (blocksUnmapped s.type.size vstart t' n) va = walk t' va) := by
  induction n with
  | zero =>
    refine ⟨fun hva => absurd hva ?_, fun _ => rfl⟩
    unfold InBlocks
    omega
  | succ n ih =>
    have hmono := Nat.mul_le_mul_left s.type.size hn
    rw [Nat.mul_succ] at hmono
    have hpos := s.type.size_pos
    have hblock := (h.still hal hin (Nat.le_of_succ_le hn) n (Nat.le_refl n) hn).walk_unmap
      (show (s.block start vstart n).type ≠ .largePage from hs) (block_aligned hal n) va
    rw [inBlock_block] at hblock
    obtain ⟨h1, h2⟩ := ih (Nat.le_of_succ_le hn)
    rw [blocksUnmapped, w32_of_lt (by omega)]
    by_cases hlast : va / s.type.size = vstart / s.type.size + n
    · exact ⟨fun _ => hblock.1 hlast, fun hva => absurd hva (by unfold InBlocks; omega)⟩
    · have hiff : InBlocks s vstart (n + 1) va ↔ InBlocks s vstart n va := by
        unfold InBlocks
        omega
      rw [hiff]
      exact ⟨fun hva => (hblock.2 hlast).trans (h1 hva), fun hva => (hblock.2 hlast).trans (h2 hva)⟩

/-- All that is mapped is taken back. -/
theorem MapsBlocks.restored (h : MapsBlocks t t' s start vstart m) (hs : s.type ≠ .largePage)
    (hal : vstart % s.type.size = 0) (hin : vstart + s.type.size * m ≤ 4294967296)
    (hfree : ∀ i, i < m → BlockFree t s.type (vstart + s.type.size * i)) (va : Nat) :
    walk (blocksUnmapped s.type.size vstart t' m) va = walk t va := by
  obtain ⟨h1, h2⟩ := h.walk_unmapped hs hal hin (Nat.le_refl m) va
  by_cases hva : InBlocks s vstart m va
  · rw [h1 hva]
    unfold InBlocks at hva
    refine ((hfree (va / s.type.size - vstart / s.type.size) (by omega)).2 va ?_).symm
    rw [blockIndex]
    omega
  · rw [h2 hva, h.rest va hva]

/-- **A page of a large page stays**, if it is not the first of a block. -/
theorem MapsBlocks.large_stays (h : MapsBlocks t t' s start vstart m)
    (hs : s.type = .largePage) (hal : vstart % s.type.size = 0)
    (hin : vstart + s.type.size * m ≤ 4294967296) {n : Nat} (hn : n ≤ m) (va : Nat)
    (hv : va / 0x1000 % 16 ≠ 0) :
    walk (blocksUnmapped s.type.size vstart t' n) va = walk t' va := by
  induction n with
  | zero => rfl
  | succ n ih =>
    have hsize : s.type.size = 0x10000 := by rw [hs]; rfl
    have hne : (s.block start vstart n).type ≠ .section := by
      intro hsec
      exact absurd (hs.symm.trans hsec) (by decide)
    obtain ⟨desc, l2, htab, -⟩ := (h.still hal hin (Nat.le_of_succ_le hn) n (Nat.le_refl n)
      hn).page_word hne (block_aligned hal n) rfl
    have hpage : ¬ va / 0x1000 = (vstart + s.type.size * n) / 0x1000 := by
      rw [hsize] at hal ⊢
      omega
    have hstep := walk_unmapMemoryFromPd (coarse_of_table htab) va
    rw [show (s.block start vstart n).vaddr = vstart + s.type.size * n from rfl,
      if_neg hpage] at hstep
    rw [blocksUnmapped, w32_of_lt (by rw [hsize] at hin ⊢; omega), hstep]
    exact ih (Nat.le_of_succ_le hn)

/-! ## 7. `map_kernel_sections` -/

/-- A call returns one result. -/
theorem runMapKernelSections_unique {fuel fuel' : Nat} {x x' : Int × PageTable}
    (h : runMapKernelSections fuel t start end_ vstart s = some x)
    (h' : runMapKernelSections fuel' t start end_ vstart s = some x') : x = x' := by
  unfold runMapKernelSections at h h'
  cases hloop : runLoop (mapSectionsBody s end_) fuel (start, vstart, t) with
  | none =>
    rw [hloop] at h
    exact absurd h nofun
  | some r =>
    cases hloop' : runLoop (mapSectionsBody s end_) fuel' (start, vstart, t) with
    | none =>
      rw [hloop'] at h'
      exact absurd h' nofun
    | some r' =>
      rw [hloop] at h
      rw [hloop', ← runLoop_unique hloop hloop'] at h'
      obtain ⟨_ | v, t₁⟩ := r
      · exact (Option.some.inj h).symm.trans (Option.some.inj h')
      · obtain ⟨t₂, hun, rfl⟩ := Option.map_eq_some_iff.mp h
        obtain ⟨t₂', hun', rfl⟩ := Option.map_eq_some_iff.mp h'
        rw [runLoop_unique hun hun']

/-- **What `map_kernel_sections` does**: all blocks of the range are mapped; or it fails at a block
and unmaps the blocks before it; or it comes to the end of the address space, and never returns. -/
theorem runMapKernelSections_cases (hal : vstart % s.type.size = 0)
    (hlow : 0x80000000 ≤ vstart) (hv : vstart < 4294967296) (hle : start ≤ end_)
    (hend : end_ < 4294967296) :
    (¬ ReachesTop s start end_ ∧ (∀ i, i < blockCount s start end_ → CanMap t s vstart i) ∧
        runMapKernelSections (sectionsFuel s.type.size) t start end_ vstart s =
          some (0, blocksMapped s start vstart t (blockCount s start end_))) ∨
      (∃ m, (∀ i, i < m → CanMap t s vstart i) ∧ ¬ CanMap t s vstart m ∧
        (m < blockCount s start end_ ∨ ReachesTop s start end_) ∧
        vstart + s.type.size * m < 4294967296 ∧
        runMapKernelSections (sectionsFuel s.type.size) t start end_ vstart s =
          some (-1, blocksUnmapped s.type.size vstart (blocksMapped s start vstart t m) m)) ∨
      (∃ m, (∀ i, i < m → CanMap t s vstart i) ∧
        (m < blockCount s start end_ ∨ ReachesTop s start end_) ∧
        vstart + s.type.size * m = 4294967296 ∧
        ∀ fuel, runMapKernelSections fuel t start end_ vstart s = none) := by
  obtain ⟨m, hm, htop, hok, hends⟩ := mapLoop_ends (t := t) (s := s) hal hlow hv hle hend
  have hfuel : m ≤ 4294967296 / s.type.size :=
    (Nat.le_div_iff_mul_le s.type.size_pos).mpr (Nat.mul_comm _ _ ▸ hm)
  rcases hends with ⟨⟨rfl, hno⟩, hrun⟩ | ⟨hwant, hno, hrun⟩
  · refine Or.inl ⟨hno, hok, ?_⟩
    unfold runMapKernelSections
    rw [hrun _ (by unfold sectionsFuel; omega)]
  right
  rcases Nat.lt_or_eq_of_le htop with hin | hwrap
  · refine Or.inl ⟨m, hok, hno, hwant, hin, ?_⟩
    unfold runMapKernelSections
    rw [hrun _ (by unfold sectionsFuel; omega)]
    simp only
    rw [unmapLoop_ends s.type.size_pos (by omega) hin (by unfold sectionsFuel; omega)]
    rfl
  · refine Or.inr ⟨m, hok, hwant, hwrap, fun fuel => ?_⟩
    unfold runMapKernelSections
    cases hloop : runLoop (mapSectionsBody s end_) fuel (start, vstart, t) with
    | none => rfl
    | some r =>
      obtain rfl := runLoop_unique hloop (hrun (m + 1) (Nat.lt_succ_self m))
      simp only
      rw [hwrap, show sub32 (w32 4294967296) 1 = 4294967295 from rfl]
      cases hun : runLoop (unmapSectionsBody s.type.size 4294967295) fuel
          (vstart, blocksMapped s start vstart t m) with
      | none => rfl
      | some t₂ => exact absurd ⟨fuel, hun⟩ (unmapLoop_wraps hv)

/-- The loops with a bound, where they come to an end within it. -/
theorem mapSectionsLoop_of_run : ∀ {fuel start vstart : Nat} {t : PageTable}
    {r : Option Nat × PageTable},
    runLoop (mapSectionsBody s end_) fuel (start, vstart, t) = some r →
      mapSectionsLoop s end_ fuel start vstart t = r
  | 0, _, _, _, _, h => absurd h nofun
  | fuel + 1, start, vstart, t, r, h => by
    rw [runLoop, mapSectionsBody] at h
    rw [mapSectionsLoop]
    by_cases hle : start ≤ end_
    · rw [if_pos hle] at h ⊢
      by_cases hr : (mapKernelMemory t { s with paddr := start, vaddr := vstart }).1 ≠ 0
      · simp only [if_pos hr] at h ⊢
        exact Option.some.inj h
      · simp only [if_neg hr] at h ⊢
        exact mapSectionsLoop_of_run h
    · rw [if_neg hle] at h ⊢
      exact Option.some.inj h

theorem unmapSectionsLoop_of_run {psize fvend : Nat} : ∀ {fuel fvstart : Nat} {t t' : PageTable},
    runLoop (unmapSectionsBody psize fvend) fuel (fvstart, t) = some t' →
      unmapSectionsLoop psize fvend fuel fvstart t = t'
  | 0, _, _, _, h => absurd h nofun
  | fuel + 1, fvstart, t, t', h => by
    rw [runLoop, unmapSectionsBody] at h
    rw [unmapSectionsLoop]
    by_cases hle : fvstart ≤ fvend
    · rw [if_pos hle] at h ⊢
      exact unmapSectionsLoop_of_run h
    · rw [if_neg hle] at h ⊢
      exact Option.some.inj h

/-- **A call that returns** returns what `mapKernelSections` says. -/
theorem mapKernelSections_of_run {fuel : Nat} {x : Int × PageTable}
    (hal : vstart % s.type.size = 0) (hlow : 0x80000000 ≤ vstart) (hv : vstart < 4294967296)
    (hle : start ≤ end_) (hend : end_ < 4294967296)
    (h : runMapKernelSections fuel t start end_ vstart s = some x) :
    mapKernelSections t start end_ vstart s = x := by
  -- the bound is large enough, if any number of rounds is
  have hrun : runMapKernelSections (sectionsFuel s.type.size) t start end_ vstart s = some x := by
    rcases runMapKernelSections_cases (t := t) hal hlow hv hle hend with
      ⟨-, -, hrun⟩ | ⟨_, -, -, -, -, hrun⟩ | ⟨_, -, -, -, hnone⟩
    · rw [runMapKernelSections_unique h hrun, hrun]
    · rw [runMapKernelSections_unique h hrun, hrun]
    · exact absurd (h.symm.trans (hnone fuel)) nofun
  unfold runMapKernelSections at hrun
  unfold mapKernelSections
  cases hloop : runLoop (mapSectionsBody s end_) (sectionsFuel s.type.size) (start, vstart, t) with
  | none =>
    rw [hloop] at hrun
    exact absurd hrun nofun
  | some r =>
    rw [mapSectionsLoop_of_run hloop]
    obtain ⟨_ | v, t₁⟩ := r
    · rw [hloop] at hrun
      exact Option.some.inj hrun
    · rw [hloop] at hrun
      obtain ⟨t₂, hun, rfl⟩ := Option.map_eq_some_iff.mp hrun
      simp only [unmapSectionsLoop_of_run hun]

/-- What is promised, for a call that returns. -/
theorem allOrNothing_iff {fuel : Nat} {r : Int}
    (h : runMapKernelSections fuel t start end_ vstart s = some (r, t')) :
    AllOrNothing t start end_ vstart s ↔
      (r = 0 → ∀ o, o < s.type.size * blockCount s start end_ →
        (walk t' (vstart + o)).map Leaf.pa = some (start + o)) ∧
      (r ≠ 0 → ∀ va, va < 4294967296 → walk t' va = walk t va) := by
  constructor
  · rintro ⟨fuel', r', t'', h', hright⟩
    obtain ⟨rfl, rfl⟩ := Prod.mk.inj (runMapKernelSections_unique h h')
    exact hright
  · exact fun hright => ⟨fuel, r, t', h, hright⟩

/-- The blocks of the range lead to its addresses. -/
theorem MapsBlocks.range (h : MapsBlocks t t' s start vstart m) (hstart : start % s.type.size = 0)
    (hin : start + s.type.size * m < 4294967296) {o : Nat} (ho : o < s.type.size * m) :
    (walk t' (vstart + o)).map Leaf.pa = some (start + o) := by
  have hi : o / s.type.size < m := Nat.div_lt_of_lt_mul ho
  have hlead := h.leads _ hi _ (Nat.mod_lt o s.type.size_pos)
  have hmono := Nat.mul_le_mul_left s.type.size (Nat.le_of_lt hi)
  have hpa : (start + s.type.size * (o / s.type.size)) / s.type.size * s.type.size =
      start + s.type.size * (o / s.type.size) :=
    Nat.div_mul_cancel (Nat.dvd_of_mod_eq_zero (block_aligned hstart _))
  rwa [Nat.add_assoc, Nat.div_add_mod, w32_of_lt (by omega), hpa, Nat.add_assoc,
    Nat.div_add_mod] at hlead

/-- **When `map_kernel_sections` maps all of a range or nothing.** -/
theorem mapKernelSections_iff (t : PageTable) (s : KernelMemInfo) {start end_ vstart : Nat}
    (hstart : start % s.type.size = 0) (hal : vstart % s.type.size = 0) (hle : start ≤ end_)
    (hend : end_ < 4294967296) (hlow : 0x80000000 ≤ vstart) (hv : vstart < 4294967296) :
    AllOrNothing t start end_ vstart s ↔ MapsOrUndoes t start end_ vstart s := by
  have hfirst : vstart + s.type.size * 0 = vstart := by rw [Nat.mul_zero, Nat.add_zero]
  rcases runMapKernelSections_cases (t := t) hal hlow hv hle hend with
    ⟨htop, hok, hrun⟩ | ⟨m, hok, hno, hwant, hin, hrun⟩ | ⟨m, hok, hwant, hwrap, hnone⟩
  · -- everything is mapped
    have hmaps : MapsBlocks t (blocksMapped s start vstart t (blockCount s start end_)) s start
        vstart (blockCount s start end_) := blocksMapped_spec hal fun i hi => (hok i hi).2.2
    rw [allOrNothing_iff hrun]
    refine iff_of_true ⟨fun _ o ho => ?_, fun h => absurd rfl h⟩ ?_
    · exact hmaps.range hstart (Nat.lt_of_not_le htop) ho
    · exact Or.inr (Or.inr (Or.inl ⟨htop, fun i hi => (hok i hi).2⟩))
  · rw [allOrNothing_iff hrun, and_iff_right fun h => absurd h (by decide),
      forall_prop_of_true (by decide)]
    rcases Nat.eq_zero_or_pos m with rfl | hpos
    · -- the first block is refused
      refine iff_of_true (fun _ _ => rfl) ?_
      unfold CanMap at hno
      rw [hfirst] at hno
      by_cases hallow : s.Allowed
      · exact Or.inr (Or.inl fun hfree => hno ⟨hallow, hv, hfree⟩)
      · exact Or.inl hallow
    · have hmaps : MapsBlocks t (blocksMapped s start vstart t m) s start vstart m :=
        blocksMapped_spec hal fun i hi => (hok i hi).2.2
      obtain ⟨hallow, -, hfree⟩ := hok 0 hpos
      have hmid : ¬ BlockFree t s.type (vstart + s.type.size * m) :=
        fun hfree => hno ⟨hallow, hin, hfree⟩
      by_cases hs : s.type = .largePage
      · -- the second page of the first block is left
        have hsize : s.type.size = 0x10000 := by rw [hs]; rfl
        refine iff_of_false (fun hall => ?_) ?_
        · have hleft := hmaps.large_stays hs hal (Nat.le_of_lt hin) (Nat.le_refl m)
            (vstart + 0x1000) (by rw [hsize] at hal; omega)
          have hlead := hmaps.leads 0 hpos 0x1000 (by rw [hsize]; decide)
          have hbefore := hfree.2 (vstart + 0x1000) (by rw [hfirst, hsize]; rw [hsize] at hal; omega)
          rw [hfirst, ← hleft, hall _ (by rw [hsize] at hin; omega), hbefore] at hlead
          exact absurd hlead nofun
        · rintro (h | h | ⟨htop, h⟩ | ⟨h, -⟩)
          · exact h hallow
          · rw [hfirst] at hfree
            exact h hfree
          · exact hmid (h m (hwant.resolve_right htop)).2
          · exact h hs
      · refine iff_of_true (fun va _ => ?_) (Or.inr (Or.inr (Or.inr ⟨hs, m, hin, hmid⟩)))
        exact hmaps.restored hs hal (Nat.le_of_lt hin) (fun i hi => (hok i hi).2.2) va
  · -- the call never returns
    have hpos : 0 < m := by
      rcases m with _ | m
      · omega
      · exact Nat.succ_pos m
    obtain ⟨hallow, -, hfree⟩ := hok 0 hpos
    refine iff_of_false ?_ ?_
    · rintro ⟨fuel, r, t', hrun, -⟩
      exact absurd (hrun.symm.trans (hnone fuel)) nofun
    · rintro (h | h | ⟨htop, h⟩ | ⟨-, i, hi, h⟩)
      · exact h hallow
      · rw [hfirst] at hfree
        exact h hfree
      · have hlt := (h m (hwant.resolve_right htop)).1
        omega
      · refine h (hok i ?_).2.2
        exact Nat.lt_of_mul_lt_mul_left (a := s.type.size) (by omega)

/-- Small pages that do not fit are taken back: the third one is mapped. -/
theorem mapKernelSections_taken_back :
    AllOrNothing smallTable 0x70000000 0x70003FFF 0x80010000 smallInfo :=
  (mapKernelSections_iff smallTable smallInfo rfl rfl (by decide) (by decide) (by decide)
    (by decide)).mpr (Or.inr (Or.inr (Or.inr ⟨by decide, 2, by decide, fun h =>
      absurd (h.2 0x80012000 rfl) (by decide)⟩)))

/-- Two large pages, of which the second does not fit: a page of the first one stays. -/
theorem mapKernelSections_leaves_pages :
    ¬ AllOrNothing smallTable 0x70000000 0x7001FFFF 0x80000000 largeInfo := by
  have hleft : (runMapKernelSections 3 smallTable 0x70000000 0x7001FFFF 0x80000000 largeInfo).any
      (fun x => decide (x.1 = -1 ∧ walk x.2 0x80001000 ≠ none)) = true := by
    decide +kernel
  obtain ⟨⟨r, t'⟩, hrun, hwalk⟩ := (Option.any_eq_true _ _).mp hleft
  obtain ⟨hr, hne⟩ := of_decide_eq_true hwalk
  intro hall
  refine hne (((allOrNothing_iff hrun).mp hall).2 ?_ 0x80001000 (by decide))
  rw [show r = -1 from hr]
  decide

end AndixOs.Mm
