/-
# Unmapping in the window of a process

`unmap_mem_from_task` is to unmap pages of the mapable window of a process and nothing else.  The end
that it compares with is computed with 32 pages for a byte of `membitmap`, where a byte has 8, and
the sum on the other side may wrap: it lets addresses behind the window pass, those of the stack
among them.  Its loop counts the bytes in steps of a page, and for the largest sizes the counter
wraps before it gets there.

What is left of the promise is `unmapMemFromTask_right_iff`.
-/
import AndixOs.Lib.Loop
import AndixOs.Mm.Unmap
import AndixOs.Mm.BlockMap

namespace AndixOs.Mm

/-! ## 1. The loop -/

variable {k : Kernel} {t : PageTable} {vaddr size va : Nat}

/-- The body of the loop, with `freed` and the table. -/
def unmapTaskBody (vaddr size : Nat) : Nat × PageTable → (Nat × PageTable) ⊕ PageTable
  | (freed, t) =>
    if freed < size then .inl (w32 (freed + smallPageSize), (unmapMemoryFromPd t vaddr).2)
    else .inr t

/-- The comparison of `unmap_mem_from_task`. -/
def TaskAccepts (vaddr size : Nat) : Prop :=
  userStartMappedMem ≤ vaddr ∧
    w32 (vaddr + size) < userStartMappedMem + membitmapWords * 4 * 32 * smallPageSize

instance : Decidable (TaskAccepts vaddr size) := inferInstanceAs (Decidable (_ ∧ _))

/-- `unmap_mem_from_task` where the loop makes at most this many rounds. -/
def runUnmapMemFromTask (fuel : Nat) (k : Kernel) (vaddr size : Nat) : Option Kernel :=
  if TaskAccepts vaddr size then
    (runLoop (unmapTaskBody vaddr size) fuel (0, k.proc.vuserPD)).map fun t =>
      { k with proc := { k.proc with vuserPD := t } }
  else some k

/-! ## 2. What is promised -/

/-- The address is in a page that has a bit in `membitmap`. -/
def InWindow (va : Nat) : Prop :=
  userStartMappedMem ≤ va ∧ va < userStartMappedMem + 32 * membitmapWords * smallPageSize

/-- The request is for addresses of the window. -/
def InsideWindow (vaddr size : Nat) : Prop :=
  userStartMappedMem ≤ vaddr ∧
    vaddr + size ≤ userStartMappedMem + 32 * membitmapWords * smallPageSize

/-- The call returns, only translations of the window have changed, and a request that goes beyond
the window has changed nothing. -/
def TaskUnmapRight (k : Kernel) (vaddr size : Nat) : Prop :=
  ∃ fuel k', runUnmapMemFromTask fuel k vaddr size = some k' ∧
    (∀ va, walk k'.proc.vuserPD va ≠ walk k.proc.vuserPD va → InWindow va) ∧
    (¬ InsideWindow vaddr size → k' = k)

/-- The window begins and ends inside a megabyte: these two are not in it as a whole. -/
def WholeMegabyte (va : Nat) : Prop := l1Index va ≠ 0x700 ∧ l1Index va ≠ 0x764

/-! ## 3. The rounds -/

/-- Unmapping an address again does nothing. -/
theorem repeat_unmap (t : PageTable) (vaddr : Nat) {n : Nat} (hn : 0 < n) :
    Nat.repeat (fun t => (unmapMemoryFromPd t vaddr).2) n t = (unmapMemoryFromPd t vaddr).2 := by
  induction n with
  | zero => exact absurd hn (Nat.lt_irrefl 0)
  | succ n ih =>
    rcases Nat.eq_zero_or_pos n with rfl | hpos
    · rfl
    · show (unmapMemoryFromPd (Nat.repeat _ n t) vaddr).2 = _
      rw [ih hpos, unmapMemoryFromPd_unmapped (walk_unmap_page t rfl)]

/-- The state of the loop before the `i`-th round. -/
def unmapTaskRound (vaddr : Nat) (t : PageTable) (i : Nat) : Nat × PageTable :=
  (w32 (4096 * i), Nat.repeat (fun t => (unmapMemoryFromPd t vaddr).2) i t)

theorem unmapTaskBody_goes {i : Nat} (hlt : w32 (4096 * i) < size) :
    unmapTaskBody vaddr size (unmapTaskRound vaddr t i) =
      .inl (unmapTaskRound vaddr t (i + 1)) := by
  rw [unmapTaskRound, unmapTaskBody, if_pos hlt, w32_w32_add]
  rfl

/-- The loop ends when the counter can reach the size. -/
theorem unmapTaskLoop_ends (hsize : size ≤ 0xFFFFF000) {fuel : Nat}
    (hfuel : pageRounds size < fuel) :
    runLoop (unmapTaskBody vaddr size) fuel (0, t) =
      some (Nat.repeat (fun t => (unmapMemoryFromPd t vaddr).2) (pageRounds size) t) := by
  have hrounds : Rounds (unmapTaskBody vaddr size) (unmapTaskRound vaddr t) (pageRounds size) := by
    intro i hi
    unfold pageRounds at hi
    refine unmapTaskBody_goes ?_
    rw [w32_of_lt (by omega)]
    omega
  refine runLoop_of_rounds hrounds ?_ hfuel
  rw [unmapTaskRound, unmapTaskBody, if_neg]
  unfold pageRounds
  rw [w32_of_lt (by omega)]
  omega

/-- **The counter wraps** where the size lies in the last page of the 32 bits. -/
theorem unmapTaskLoop_wraps (hsize : 0xFFFFF000 < size) (t' : PageTable) :
    ¬ Ends (unmapTaskBody vaddr size) (0, t) t' := by
  refine not_ends_of_rounds (f := unmapTaskRound vaddr t) fun n i _ => unmapTaskBody_goes ?_
  unfold w32
  omega

theorem unmapMemFromTask_of_accepts (hacc : TaskAccepts vaddr size) :
    unmapMemFromTask k vaddr size =
      { k with proc := { k.proc with
          vuserPD := Nat.repeat (fun t => (unmapMemoryFromPd t vaddr).2) (pageRounds size)
            k.proc.vuserPD } } :=
  if_pos hacc

theorem unmapMemFromTask_of_refuses (hacc : ¬ TaskAccepts vaddr size) :
    unmapMemFromTask k vaddr size = k := if_neg hacc

/-- The calls that return do what `unmapMemFromTask` says. -/
theorem runUnmapMemFromTask_ends (hsize : TaskAccepts vaddr size → size ≤ 0xFFFFF000) {fuel : Nat}
    (hfuel : pageRounds size < fuel) :
    runUnmapMemFromTask fuel k vaddr size = some (unmapMemFromTask k vaddr size) := by
  unfold runUnmapMemFromTask
  by_cases hacc : TaskAccepts vaddr size
  · rw [if_pos hacc, unmapTaskLoop_ends (hsize hacc) hfuel, unmapMemFromTask_of_accepts hacc]
    rfl
  · rw [if_neg hacc, unmapMemFromTask_of_refuses hacc]

/-- Every call that returns gives the same. -/
theorem taskUnmapRight_iff_of_ends (hsize : TaskAccepts vaddr size → size ≤ 0xFFFFF000) :
    TaskUnmapRight k vaddr size ↔
      (∀ va, walk (unmapMemFromTask k vaddr size).proc.vuserPD va ≠ walk k.proc.vuserPD va →
        InWindow va) ∧ (¬ InsideWindow vaddr size → unmapMemFromTask k vaddr size = k) := by
  constructor
  · rintro ⟨fuel, k', hrun, hright⟩
    have hdone := runUnmapMemFromTask_ends (k := k) hsize
      (Nat.lt_succ_of_le (Nat.le_add_left (pageRounds size) fuel))
    have hsame : k' = unmapMemFromTask k vaddr size := by
      unfold runUnmapMemFromTask at hrun hdone
      by_cases hacc : TaskAccepts vaddr size
      · rw [if_pos hacc] at hrun hdone
        obtain ⟨t, ht, rfl⟩ := Option.map_eq_some_iff.mp hrun
        obtain ⟨t', ht', hdone⟩ := Option.map_eq_some_iff.mp hdone
        rw [← hdone, runLoop_unique ht ht']
      · rw [if_neg hacc] at hrun hdone
        exact (Option.some.inj hrun).symm.trans (Option.some.inj hdone)
    rwa [← hsame]
  · exact fun hright => ⟨_, _, runUnmapMemFromTask_ends hsize (Nat.lt_succ_self _), hright⟩

/-- A request that changes nothing is right. -/
theorem taskUnmapRight_of_same (hsize : TaskAccepts vaddr size → size ≤ 0xFFFFF000)
    (hsame : unmapMemFromTask k vaddr size = k) : TaskUnmapRight k vaddr size := by
  rw [taskUnmapRight_iff_of_ends hsize, hsame]
  exact ⟨fun _ hne => absurd rfl hne, fun _ => rfl⟩

/-! ## 4. When only the window is touched -/

/-- A request that is accepted unmaps one page, or the section that holds it. -/
theorem unmapMemFromTask_accepted (hacc : TaskAccepts vaddr size) (hpos : 0 < size) :
    (unmapMemFromTask k vaddr size).proc.vuserPD =
      (unmapMemoryFromPd k.proc.vuserPD vaddr).2 := by
  rw [unmapMemFromTask_of_accepts hacc]
  exact repeat_unmap _ _ (by unfold pageRounds; omega)

/-- An address that is not mapped is not unmapped. -/
theorem unmapMemFromTask_of_unmapped (hacc : TaskAccepts vaddr size) (hpos : 0 < size)
    (hnone : walk k.proc.vuserPD vaddr = none) : unmapMemFromTask k vaddr size = k := by
  have htable := unmapMemFromTask_accepted (k := k) hacc hpos
  rw [unmapMemoryFromPd_unmapped hnone] at htable
  rw [unmapMemFromTask_of_accepts hacc] at htable ⊢
  simp only at htable
  rw [htable]

/-- What is unmapped stays in the window when the page does, or the whole megabyte of a section. -/
theorem unmap_inWindow_iff (hva : InWindow vaddr) :
    (∀ va, walk (unmapMemoryFromPd t vaddr).2 va ≠ walk t va → InWindow va) ↔
      Coarse t vaddr ∨ WholeMegabyte vaddr := by
  unfold InWindow userStartMappedMem membitmapWords smallPageSize at *
  constructor
  · intro hin
    by_contra hno
    obtain ⟨hsec, hpart⟩ := not_or.mp hno
    obtain ⟨d, hd⟩ := not_forall.mp hsec
    rw [not_not] at hd
    -- the last page of the megabyte before the window, or of the one it ends in
    have hlost : ∀ vb, l1Index vb = l1Index vaddr →
        walk (unmapMemoryFromPd t vaddr).2 vb ≠ walk t vb := by
      intro vb hvb
      have hold : walk t vb ≠ none := fun hnone =>
        not_section_of_walk_none hnone d (by rw [hvb]; exact hd)
      have hnew : walk (unmapMemoryFromPd t vaddr).2 vb = none := by
        simp only [unmapMemoryFromPd, hd]
        exact walk_of_fault (by rw [hvb]; exact Function.update_self _ _ _)
      rw [hnew]
      exact hold.symm
    unfold WholeMegabyte l1Index at hpart
    unfold l1Index at hlost
    have h1 := hin 0x70000000
    have h2 := hin 0x764FFFFF
    rcases not_and_or.mp hpart with hfirst | hlast
    · have hout := h1 (hlost _ (by omega))
      omega
    · have hout := h2 (hlost _ (by omega))
      omega
  · intro hok va hchanged
    by_cases hc : Coarse t vaddr
    · rw [walk_unmapMemoryFromPd hc] at hchanged
      split at hchanged
      · omega
      · exact absurd rfl hchanged
    · have hmega := hok.resolve_left hc
      have h1 : l1Index va = l1Index vaddr := by
        by_contra hne
        exact hchanged (walk_unmap_other t hne)
      unfold WholeMegabyte l1Index at *
      omega

/-- **When `unmap_mem_from_task` touches the window only.** -/
theorem unmapMemFromTask_right_iff (k : Kernel) (vaddr : Nat) {size : Nat}
    (hs : size < 4294967296) :
    TaskUnmapRight k vaddr size ↔
      ¬ TaskAccepts vaddr size ∨ size = 0 ∨
        (walk k.proc.vuserPD vaddr = none ∧ size ≤ 0xFFFFF000) ∨
        (InsideWindow vaddr size ∧ (Coarse k.proc.vuserPD vaddr ∨ WholeMegabyte vaddr)) := by
  by_cases hacc : TaskAccepts vaddr size
  · by_cases hlarge : 0xFFFFF000 < size
    · -- the loop never ends
      refine iff_of_false ?_ ?_
      · rintro ⟨fuel, k', hrun, -⟩
        unfold runUnmapMemFromTask at hrun
        rw [if_pos hacc] at hrun
        obtain ⟨t', ht', -⟩ := Option.map_eq_some_iff.mp hrun
        exact unmapTaskLoop_wraps hlarge t' ⟨fuel, ht'⟩
      · unfold InsideWindow membitmapWords smallPageSize
        rintro (h | h | h | h)
        · exact h hacc
        · omega
        · omega
        · have hin := h.1.2
          unfold userStartMappedMem at hin
          omega
    have hsize : TaskAccepts vaddr size → size ≤ 0xFFFFF000 := fun _ => Nat.le_of_not_lt hlarge
    rcases Nat.eq_zero_or_pos size with rfl | hpos
    · have hsame : unmapMemFromTask k vaddr 0 = k := unmapMemFromTask_of_accepts hacc
      exact iff_of_true (taskUnmapRight_of_same hsize hsame) (Or.inr (Or.inl rfl))
    by_cases hnone : walk k.proc.vuserPD vaddr = none
    · have hsame := unmapMemFromTask_of_unmapped hacc hpos hnone
      exact iff_of_true (taskUnmapRight_of_same hsize hsame)
        (Or.inr (Or.inr (Or.inl ⟨hnone, hsize hacc⟩)))
    -- the page was mapped, and is not any more
    rw [taskUnmapRight_iff_of_ends hsize, unmapMemFromTask_accepted hacc hpos]
    have hchanged : walk (unmapMemoryFromPd k.proc.vuserPD vaddr).2 vaddr ≠
        walk k.proc.vuserPD vaddr := by
      rw [walk_unmap_page k.proc.vuserPD rfl]
      exact Ne.symm hnone
    have hmust : (¬ InsideWindow vaddr size → unmapMemFromTask k vaddr size = k) ↔
        InsideWindow vaddr size := by
      refine ⟨fun h => ?_, fun h hno => absurd h hno⟩
      by_contra hno
      have htable := unmapMemFromTask_accepted (k := k) hacc hpos
      rw [h hno] at htable
      rw [← htable] at hchanged
      exact hchanged rfl
    rw [hmust]
    constructor
    · rintro ⟨hin, hinside⟩
      exact Or.inr (Or.inr (Or.inr ⟨hinside, (unmap_inWindow_iff (hin vaddr hchanged)).mp hin⟩))
    · rintro (h | h | h | ⟨hinside, hok⟩)
      · exact absurd hacc h
      · omega
      · exact absurd h.1 hnone
      · refine ⟨(unmap_inWindow_iff ⟨hinside.1, ?_⟩).mpr hok, hinside⟩
        have hend := hinside.2
        omega
  · -- the request is refused
    exact iff_of_true (taskUnmapRight_of_same (fun h => absurd h hacc)
      (unmapMemFromTask_of_refuses hacc)) (Or.inl hacc)

/-- A page of the window. -/
theorem unmapMemFromTask_right_page : TaskUnmapRight bootKernel 0x70005000 0x1000 :=
  (unmapMemFromTask_right_iff bootKernel 0x70005000 (by decide)).mpr
    (Or.inr (Or.inr (Or.inr ⟨by unfold InsideWindow; decide, Or.inl fun d h => by cases h⟩)))

/-- A process with its first stack page. -/
def stackKernel : Kernel :=
  { bootKernel with proc := { bootKernel.proc with
      vuserPD := (mapMemoryV emptyTable (taskMemInfo bootKernel 0x7A000000 0x78FFFFFF)).2 } }

/-- The page of the stack is unmapped. -/
theorem unmapMemFromTask_takes_stack :
    walk stackKernel.proc.vuserPD 0x78FFF000 ≠ none ∧
      walk (unmapMemFromTask stackKernel 0x78FFF000 0x1000).proc.vuserPD 0x78FFF000 = none ∧
      ¬ TaskUnmapRight stackKernel 0x78FFF000 0x1000 := by
  have hbefore : walk stackKernel.proc.vuserPD 0x78FFF000 ≠ none := by decide
  have hafter : walk (unmapMemFromTask stackKernel 0x78FFF000 0x1000).proc.vuserPD 0x78FFF000 =
      none := by
    decide
  refine ⟨hbefore, hafter, fun hright => ?_⟩
  have hin := ((taskUnmapRight_iff_of_ends fun _ => by decide).mp hright).1 0x78FFF000
    (by rw [hafter]; exact Ne.symm hbefore)
  exact absurd hin.2 (by decide)

end AndixOs.Mm
