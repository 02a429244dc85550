/-
# Placing and filling one segment

The pages of a user process belong to the first segment that maps them: `map_memory_v` refuses a
page that is mapped, and the loader does not look at its result.  `Owners` says which segment's
flags a page has, and which frame; `Holds` says that a table maps exactly the owned pages.

`mapSegment_spec` is the rule for the mapping loop, `writeAddr_user` that for a store.
-/
import AndixOs.Loader.Elf

namespace AndixOs.Loader

open AndixOs AndixOs.Mm

variable {s : LoadState} {ph : Phdr} {ppage : Nat}

/-! ## 1. Owners of pages -/

/-- What a page was mapped for: the flags of the segment, and the frame. -/
structure Owned where
  flags : Nat
  frame : Nat

/-- The owners, by page. -/
abbrev Owners := Nat → Option Owned

/-- The attributes a segment's pages get. -/
def segAttr (flags : Nat) : PageAttr := (segInfo flags 0 0).attr

/-- The table maps the owned pages and no others. -/
structure Holds (t : PageTable) (u : Owners) : Prop where
  pages : ∀ va, walk t va =
    (u (va / 4096)).map fun o => ⟨o.frame * 4096 + va % 4096, segAttr o.flags⟩
  secure : ∀ va, regionNs t 0 va = 0

theorem holds_emptyTable : Holds emptyTable fun _ => none := ⟨fun _ => rfl, fun _ => rfl⟩

/-- A page that has no owner yet gets one. -/
def own (u : Owners) (p : Nat) (o : Owned) : Owners := fun q =>
  if q = p then some ((u p).getD o) else u q

/-- The page is one of the segment's. -/
def inPages (ph : Phdr) (p : Nat) : Bool :=
  decide (startPage ph ≤ p) && decide (p < startPage ph + pgCount ph)

/-- The page of round `i`, and its frame. -/
def pageOwned (ph : Phdr) (ppage i : Nat) : Owned := ⟨ph.pFlags, w32 (ppage + 4096 * i) / 4096⟩

/-- The owners after the rounds from `i` on, `left` of them. -/
def placedFrom (u : Owners) (ph : Phdr) (ppage i left : Nat) : Owners := fun q =>
  match u q with
  | some o => some o
  | none =>
    if startPage ph + i ≤ q ∧ q < startPage ph + i + left then
      some (pageOwned ph ppage (q - startPage ph))
    else none

/-- The owners after the whole segment. -/
def placed (u : Owners) (ph : Phdr) (ppage : Nat) : Owners := placedFrom u ph ppage 0 (pgCount ph)

theorem placedFrom_zero (u : Owners) (i : Nat) : placedFrom u ph ppage i 0 = u := by
  funext q
  unfold placedFrom
  cases hq : u q with
  | some o => rfl
  | none => exact if_neg (by omega)

theorem placedFrom_succ (u : Owners) (i left : Nat) :
    placedFrom (own u (startPage ph + i) (pageOwned ph ppage i)) ph ppage (i + 1) left =
      placedFrom u ph ppage i (left + 1) := by
  funext q
  unfold placedFrom own
  by_cases hq : q = startPage ph + i
  · subst hq
    rw [if_pos rfl]
    cases hu : u (startPage ph + i) with
    | some o => rfl
    | none =>
      simp only [Option.getD_none]
      rw [if_pos (by omega)]
      congr 2
      omega
  · rw [if_neg hq]
    cases hu : u q with
    | some o => rfl
    | none =>
      simp only
      by_cases hin : startPage ph + i ≤ q ∧ q < startPage ph + i + (left + 1)
      · rw [if_pos hin, if_pos (by omega)]
      · rw [if_neg hin, if_neg (by omega)]

theorem placed_some {u : Owners} {p : Nat} {o : Owned} (hu : u p = some o) :
    placed u ph ppage p = some o := by
  unfold placed placedFrom
  rw [hu]

theorem placed_none {u : Owners} {p : Nat} (hu : u p = none) :
    placed u ph ppage p =
      if inPages ph p = true then some (pageOwned ph ppage (p - startPage ph)) else none := by
  unfold placed placedFrom inPages
  rw [hu]
  simp only [Nat.add_zero, Bool.and_eq_true, decide_eq_true_eq]

theorem isSome_placed (u : Owners) (p : Nat) :
    (placed u ph ppage p).isSome = ((u p).isSome || inPages ph p) := by
  cases hu : u p with
  | some o =>
    rw [placed_some hu]
    rfl
  | none =>
    rw [placed_none hu]
    cases inPages ph p <;> rfl

/-! ## 2. Mapping one page -/

/-- What the mapping loop leaves as it was. -/
structure SameElse (s s' : LoadState) : Prop where
  pmm : s'.kernel.pmm = s.kernel.pmm
  physStart : s'.kernel.physStart = s.kernel.physStart
  mem : s'.mem = s.mem

theorem SameElse.trans {s t u : LoadState} (h : SameElse s t) (h' : SameElse t u) : SameElse s u :=
  ⟨h'.pmm.trans h.pmm, h'.physStart.trans h.physStart, h'.mem.trans h.mem⟩

/-- A page that is mapped already stays as it is. -/
theorem mapUserPage_mapped {u : Owners} {flags vaddr paddr : Nat} {o : Owned}
    (h : Holds s.kernel.proc.vuserPD u) (ho : u (vaddr / 4096) = some o) :
    mapUserPage s (segInfo flags vaddr paddr) = s := by
  have hwalk := h.pages vaddr
  rw [ho] at hwalk
  have hne : walk s.kernel.proc.vuserPD (segInfo flags vaddr paddr).vaddr ≠ none :=
    fun hnone => absurd (hwalk.symm.trans hnone) (by simp)
  unfold mapUserPage
  rw [mapMemoryV_mapped rfl hne]
  rfl

/-- A page that is not gets what is asked for. -/
theorem mapUserPage_free {u : Owners} {vaddr : Nat} (flags paddr : Nat)
    (h : Holds s.kernel.proc.vuserPD u) (ho : u (vaddr / 4096) = none) :
    Holds (mapUserPage s (segInfo flags vaddr paddr)).kernel.proc.vuserPD
        (own u (vaddr / 4096) ⟨flags, paddr / 4096⟩) ∧
      (mapUserPage s (segInfo flags vaddr paddr)).log = .map vaddr paddr :: s.log ∧
      SameElse s (mapUserPage s (segInfo flags vaddr paddr)) := by
  have hold := h.pages vaddr
  rw [ho] at hold
  have hnone : walk s.kernel.proc.vuserPD (segInfo flags vaddr paddr).vaddr = none := hold
  obtain ⟨hzero, hmap⟩ := mapMemoryV_small (s := segInfo flags vaddr paddr) rfl hnone
  have hwalk : ∀ va, walk (mapMemoryV s.kernel.proc.vuserPD (segInfo flags vaddr paddr)).2 va =
      if va / 4096 = vaddr / 4096 then
        some ⟨paddr / 4096 * 4096 + va % 4096, (segInfo flags vaddr paddr).attrNs
          (regionNs s.kernel.proc.vuserPD 0 vaddr)⟩
      else walk s.kernel.proc.vuserPD va := hmap
  unfold mapUserPage
  simp only [hzero, if_true]
  refine ⟨⟨fun va => ?_, fun va => ?_⟩, rfl, ⟨rfl, rfl, rfl⟩⟩
  · refine (hwalk va).trans ?_
    unfold own
    by_cases hva : va / 4096 = vaddr / 4096
    · rw [if_pos hva, if_pos hva, ho, h.secure]
      rfl
    · rw [if_neg hva, if_neg hva]
      exact h.pages va
  · exact (regionNs_mapMemoryV (s := segInfo flags vaddr paddr) rfl va).trans (h.secure va)

/-! ## 3. The mapping loop -/

/-- One round takes the page if nobody has it, and goes on. -/
theorem mapSegment_round (ph : Phdr) (ppage left i : Nat) {s : LoadState} {u : Owners}
    (hfit : startPage ph + i < 0x80000) (h : Holds s.kernel.proc.vuserPD u) :
    ∃ s1 : LoadState, mapSegment ph ppage (left + 1) i s = mapSegment ph ppage left (i + 1) s1 ∧
      Holds s1.kernel.proc.vuserPD (own u (startPage ph + i) (pageOwned ph ppage i)) ∧
      SameElse s s1 ∧ ∀ e, e ∈ s1.log ↔ e ∈ s.log ∨ (u (startPage ph + i) = none ∧
        e = .map (ph.pVaddr + 4096 * i) (w32 (ppage + 4096 * i))) := by
  have hpage : startPage ph = ph.pVaddr / 4096 := rfl
  have hva : w32 (ph.pVaddr + 4096 * i) = ph.pVaddr + 4096 * i := w32_of_lt (by omega)
  have hdiv : (ph.pVaddr + 4096 * i) / 4096 = startPage ph + i := by omega
  rw [mapSegment, if_neg (by omega)]
  refine ⟨_, rfl, ?_⟩
  unfold mapRound
  rw [hva]
  cases ho : u (startPage ph + i) with
  | some o =>
    rw [← hdiv] at ho
    simp only [mapUserPage_mapped h ho]
    have hown : own u (startPage ph + i) (pageOwned ph ppage i) = u := by
      funext q
      unfold own
      split
      · rename_i hq
        rw [hq, ← hdiv, ho]
        rfl
      · rfl
    rw [hown]
    exact ⟨h, ⟨rfl, rfl, rfl⟩, fun e => by simp⟩
  | none =>
    rw [← hdiv] at ho
    obtain ⟨hh, hlog, hsame⟩ := mapUserPage_free ph.pFlags
      (w32 (ppage + 4096 * i)) h ho
    rw [hdiv] at hh
    refine ⟨hh, ⟨hsame.pmm, hsame.physStart, hsame.mem⟩, fun e => ?_⟩
    simp only [hlog, List.mem_cons]
    tauto

/-- **The mapping loop**, on pages of the user half: every page that has no owner gets one. -/
theorem mapSegment_spec (ppage : Nat) :
    ∀ {left i : Nat} {s : LoadState} {u : Owners},
      left = 0 ∨ startPage ph + i + left ≤ 0x80000 → Holds s.kernel.proc.vuserPD u →
      ∃ s', mapSegment ph ppage left i s = (true, s') ∧
        Holds s'.kernel.proc.vuserPD (placedFrom u ph ppage i left) ∧ SameElse s s' ∧
        ∀ e, e ∈ s'.log ↔ e ∈ s.log ∨ ∃ j, i ≤ j ∧ j < i + left ∧
          u (startPage ph + j) = none ∧
          e = .map (ph.pVaddr + 4096 * j) (w32 (ppage + 4096 * j))
  | 0, i, s, u, _, h => by
    refine ⟨s, rfl, ?_, ⟨rfl, rfl, rfl⟩, fun e => ⟨Or.inl, ?_⟩⟩
    · rw [placedFrom_zero]
      exact h
    · rintro (he | ⟨j, h1, h2, -⟩)
      · exact he
      · omega
  | left + 1, i, s, u, hfit, h => by
    have hfit := hfit.resolve_left (Nat.succ_ne_zero left)
    obtain ⟨s1, heq, hh, hsame, hlog⟩ := mapSegment_round ph ppage left i (by omega) h
    have hrest : left = 0 ∨ startPage ph + (i + 1) + left ≤ 0x80000 := Or.inr (by omega)
    obtain ⟨s2, hrun, hh2, hsame2, hlog2⟩ := mapSegment_spec ppage hrest hh
    refine ⟨s2, heq.trans hrun, ?_, hsame.trans hsame2, fun e => ?_⟩
    · rw [placedFrom_succ] at hh2
      exact hh2
    · have hother : ∀ j, i + 1 ≤ j →
          own u (startPage ph + i) (pageOwned ph ppage i) (startPage ph + j) =
            u (startPage ph + j) := by
        intro j hj
        unfold own
        exact if_neg (by omega)
      rw [hlog2, hlog]
      constructor
      · rintro ((he | ⟨ho, he⟩) | ⟨j, h1, h2, ho, he⟩)
        · exact Or.inl he
        · exact Or.inr ⟨i, le_refl i, by omega, ho, he⟩
        · rw [hother j h1] at ho
          exact Or.inr ⟨j, by omega, by omega, ho, he⟩
      · rintro (he | ⟨j, h1, h2, ho, he⟩)
        · exact Or.inl (Or.inl he)
        · rcases Nat.eq_or_lt_of_le h1 with rfl | hlt
          · exact Or.inl (Or.inr ⟨ho, he⟩)
          · rw [← hother j hlt] at ho
            exact Or.inr ⟨j, hlt, by omega, ho, he⟩

/-- Pages outside of the user half end the loop. -/
theorem mapSegment_fault :
    ∀ {left i : Nat} {s : LoadState}, 0 < left → ¬ startPage ph + i + left ≤ 0x80000 →
      ph.pVaddr + 4096 * i < 4294967296 → (mapSegment ph ppage left i s).1 = false
  | 0, _, _, hpos, _, _ => absurd hpos (Nat.lt_irrefl 0)
  | left + 1, i, s, _, hno, hlt => by
    have hpage : startPage ph = ph.pVaddr / 4096 := rfl
    rw [mapSegment, w32_of_lt hlt]
    split
    · rfl
    · exact mapSegment_fault (by omega) (by omega) (by omega)

/-! ## 4. Stores -/

/-- Where a store to a user address goes. -/
theorem writeAddr_user {k : Kernel} {u : Owners} (h : Holds k.proc.vuserPD u) {va : Nat}
    (hva : va < 0x80000000) :
    writeAddr k va = (u (va / 4096)).bind fun o =>
      if hasFlag o.flags pfR then some (o.frame * 4096 + va % 4096) else none := by
  have hap : ∀ o : Owned, (Leaf.mk (o.frame * 4096 + va % 4096) (segAttr o.flags)).svcWrites =
      hasFlag o.flags pfR := by
    intro o
    have hattr : (segAttr o.flags).ap = segAp o.flags % 8 := rfl
    simp only [Leaf.svcWrites, hattr]
    unfold segAp
    cases hasFlag o.flags pfR <;> cases hasFlag o.flags pfW <;> rfl
  unfold writeAddr Mm.translate
  rw [if_pos hva, h.pages]
  cases u (va / 4096) with
  | none => rfl
  | some o =>
    simp only [Option.map_some, Option.bind_some, hap]

/-- The result of a run of stores. -/
theorem storeRun_done {addr count : Nat} {src : Nat → UInt8} :
    (storeRun s addr count src).1 = true ↔
      ∀ j, j < count → (writeAddr s.kernel (w32 (addr + j))).isSome = true := by
  have hdone : (storeRun s addr count src).1 = true ↔ ∀ j, 0 ≤ j → j < 0 + count →
      (writeAddr s.kernel (w32 (addr + j))).isSome = true := storeBytes_done
  refine hdone.trans ⟨fun h j hj => h j (Nat.zero_le j) (by omega), fun h j _ hj => h j (by omega)⟩

/-- A page of the process that the kernel may write. -/
def Writable (u : Owners) (p : Nat) : Prop := ∃ o, u p = some o ∧ hasFlag o.flags pfR = true

theorem writeAddr_isSome {k : Kernel} {u : Owners} (h : Holds k.proc.vuserPD u) {va : Nat}
    (hva : va < 0x80000000) : (writeAddr k va).isSome = true ↔ Writable u (va / 4096) := by
  rw [writeAddr_user h hva]
  unfold Writable
  cases u (va / 4096) with
  | none => simp
  | some o =>
    cases hr : hasFlag o.flags pfR
    · simp [hr]
    · simp [hr]

theorem storeRun_kernel {addr count : Nat} {src : Nat → UInt8} :
    (storeRun s addr count src).2.kernel = s.kernel := rfl

theorem storeRun_log {addr count : Nat} {src : Nat → UInt8} :
    (storeRun s addr count src).2.log = .store addr count :: s.log := rfl

/-! ## 5. One segment -/

/-- What `pmm_allocate_pages` returns for a segment. -/
def allocated (s : LoadState) (ph : Phdr) : Nat :=
  (allocatePages s.kernel.pmm s.kernel.physStart (pgCount ph)).1

/-- The pages of the segment are in the user half, the one too many with them. -/
def InUserHalf (ph : Phdr) : Prop := pgCount ph = 0 ∨ startPage ph + pgCount ph ≤ 0x80000

theorem pgCount_lt (ph : Phdr) : pgCount ph < 4294967296 := w32_lt _

theorem InUserHalf.le (h : InUserHalf ph) : pgCount ph ≤ 0x80000 := by
  unfold InUserHalf at h
  omega

/-- **Placing a segment** in the user half. -/
theorem placeSegment_spec {u : Owners} (hfit : InUserHalf ph)
    (h : Holds s.kernel.proc.vuserPD u) :
    ∃ s', placeSegment s ph = (true, s') ∧
      Holds s'.kernel.proc.vuserPD (placed u ph (allocated s ph)) ∧
      s'.kernel.pmm = (allocatePages s.kernel.pmm s.kernel.physStart (pgCount ph)).2 ∧
      s'.kernel.physStart = s.kernel.physStart ∧ s'.mem = s.mem ∧
      ∀ e, e ∈ s'.log ↔ (e = .pages (pgCount ph) ph.pMemsz ∨ e ∈ s.log) ∨
        ∃ j, j < pgCount ph ∧ u (startPage ph + j) = none ∧
          e = .map (ph.pVaddr + 4096 * j) (w32 (allocated s ph + 4096 * j)) := by
  have hrounds : pgCount ph = 0 ∨ startPage ph + 0 + pgCount ph ≤ 0x80000 := hfit
  have h0 : Holds (allocSegment s ph).2.kernel.proc.vuserPD u := h
  obtain ⟨s', hrun, hholds, hsame, hlog⟩ := mapSegment_spec (allocated s ph) hrounds h0
  refine ⟨s', hrun, hholds, hsame.pmm, hsame.physStart, hsame.mem, fun e => ?_⟩
  rw [hlog]
  have hmem : e ∈ (allocSegment s ph).2.log ↔ e = .pages (pgCount ph) ph.pMemsz ∨ e ∈ s.log := List.mem_cons
  simp only [hmem, Nat.zero_le, true_and, Nat.zero_add]

theorem placeSegment_fault (hv : ph.pVaddr < 4294967296) (hno : ¬ InUserHalf ph) :
    (placeSegment s ph).1 = false := by
  unfold InUserHalf at hno
  exact mapSegment_fault (by omega) (by omega) (by omega)

theorem zeroSegment_kernel : (zeroSegment s ph).2.kernel = s.kernel := by
  rw [zeroSegment, storeRun_kernel]

theorem copySegment_kernel (b : Bytes32) (payload : Nat) :
    (copySegment b payload s ph).2.kernel = s.kernel := by
  rw [copySegment, storeRun_kernel]
  rfl

/-- The number of bytes that are filled with zeros. -/
theorem zeroCount (hfit : InUserHalf ph) : w32 (pgCount ph * 4096) / 4 * 4 = pgCount ph * 4096 := by
  have := hfit.le
  unfold w32
  omega

/-- The zeros can be stored exactly when the kernel may write the pages of the segment. -/
theorem zeroSegment_done {u : Owners} (h : Holds s.kernel.proc.vuserPD u) (hfit : InUserHalf ph) :
    (zeroSegment s ph).1 = true ↔ ∀ p, inPages ph p = true → Writable u p := by
  unfold zeroSegment
  rw [storeRun_done, zeroCount hfit]
  unfold inPages InUserHalf at *
  constructor
  · intro hall p hp
    rw [Bool.and_eq_true, decide_eq_true_eq, decide_eq_true_eq] at hp
    have hj := hall ((p - startPage ph) * 4096) (by omega)
    have hva : w32 (startPage ph * 4096 + (p - startPage ph) * 4096) = p * 4096 := by
      unfold w32
      omega
    rw [hva, writeAddr_isSome h (by omega)] at hj
    rwa [Nat.mul_div_cancel p (by decide)] at hj
  · intro hall j hj
    have hva : w32 (startPage ph * 4096 + j) = startPage ph * 4096 + j := w32_of_lt (by omega)
    rw [hva, writeAddr_isSome h (by omega)]
    refine hall _ ?_
    rw [Bool.and_eq_true, decide_eq_true_eq, decide_eq_true_eq]
    omega

/-- The words of the file part can be copied to the user half exactly when the kernel may write
their pages. -/
theorem copySegment_done {u : Owners} (b : Bytes32) (payload : Nat)
    (h : Holds s.kernel.proc.vuserPD u)
    (huser : ∀ j, j < ph.pFilesz / 4 * 4 → w32 (ph.pVaddr + j) < 0x80000000) :
    (copySegment b payload s ph).1 = true ↔
      ∀ j, j < ph.pFilesz / 4 * 4 → Writable u (w32 (ph.pVaddr + j) / 4096) := by
  have hk : (s.record (.read (w32 (payload + ph.pOffset)) (ph.pFilesz / 4 * 4))).kernel =
      s.kernel := rfl
  unfold copySegment
  rw [storeRun_done, hk]
  exact forall₂_congr fun j hj => writeAddr_isSome h (huser j hj)

theorem fillSegment_eq (b : Bytes32) (payload : Nat) (s : LoadState) (ph : Phdr) :
    fillSegment b payload s ph =
      if (zeroSegment s ph).1 then copySegment b payload (zeroSegment s ph).2 ph
      else zeroSegment s ph := rfl

theorem fillSegment_zeroed (b : Bytes32) (payload : Nat) (hz : (zeroSegment s ph).1 = true) :
    fillSegment b payload s ph = copySegment b payload (zeroSegment s ph).2 ph := by
  rw [fillSegment_eq, if_pos hz]

theorem fillSegment_fault (b : Bytes32) (payload : Nat) (hz : ¬ (zeroSegment s ph).1 = true) :
    fillSegment b payload s ph = zeroSegment s ph := by
  rw [fillSegment_eq, if_neg hz]

theorem fillSegment_kernel (b : Bytes32) (payload : Nat) :
    (fillSegment b payload s ph).2.kernel = s.kernel := by
  by_cases hz : (zeroSegment s ph).1 = true
  · rw [fillSegment_zeroed b payload hz, copySegment_kernel, zeroSegment_kernel]
  · rw [fillSegment_fault b payload hz, zeroSegment_kernel]

theorem loadSegment_eq (b : Bytes32) (payload : Nat) (s : LoadState) (ph : Phdr) :
    loadSegment b payload s ph =
      if (placeSegment s ph).1 then fillSegment b payload (placeSegment s ph).2 ph
      else placeSegment s ph := rfl

theorem loadSegment_placed {s' : LoadState} (b : Bytes32) (payload : Nat)
    (hp : placeSegment s ph = (true, s')) :
    loadSegment b payload s ph = fillSegment b payload s' ph := by
  rw [loadSegment_eq, hp]
  exact if_pos rfl

theorem loadSegment_unplaced (b : Bytes32) (payload : Nat) (hp : (placeSegment s ph).1 = false) :
    loadSegment b payload s ph = placeSegment s ph := by
  rw [loadSegment_eq, hp]
  exact if_neg Bool.false_ne_true

end AndixOs.Loader
