/-
# Buffers of a process

`allocate_map_mem_to_task` takes frames and pages of the process's window; `free_mem_from_task` is to
undo it.  It gives no page of the window back (`free_task_mapped_page` is never called), so what was
there before is never restored (`freeMemFromTask_never_restores`).  The frames and the translations
come back exactly when the buffer is less than a page and not empty: of more pages it unmaps the
first one only, and an empty buffer has a page and a frame as well (`freed_handed_iff`).
-/
import AndixOs.Swi.Leak
import AndixOs.Mm.TaskWindow

namespace AndixOs.Swi

open AndixOs AndixOs.Mm

variable {k k' k'' : Kernel} {size v q f va : Nat}

/-! ## 1. The window -/

/-- The bitmap of the window, the translations and the frames are what they were. -/
structure BufferRestored (k k' : Kernel) : Prop where
  window : ∀ p, k'.proc.membitmap.isFree p = k.proc.membitmap.isFree p
  userTable : ∀ va, walk k'.proc.vuserPD va = walk k.proc.vuserPD va
  frames : ∀ p, k'.pmm.isFree p = k.pmm.isFree p

/-- **A buffer that is freed** leaves its pages of the window behind, in every state and whatever
its size. -/
theorem freeMemFromTask_never_restores {k : Kernel} (hk : WindowShape k) (size : Nat)
    (hv : (allocateMapMemToTask k size).1 ≠ 0) :
    ¬ BufferRestored k (Mm.freeMemFromTask (allocateMapMemToTask k size).2
      (allocateMapMemToTask k size).1 size) := by
  intro hrestored
  obtain ⟨-, hlost⟩ := allocateMapMemToTask_window hk size
  obtain ⟨p, hfree, hgone⟩ := (hlost.resolve_left hv).later (narrows_freeMemFromTask _ _ size)
  have hsame := hrestored.window p
  rw [hfree, hgone] at hsame
  exact absurd hsame (by decide)

/-- A buffer of 16 bytes. -/
theorem freeMemFromTask_never_restores_boot :
    ¬ BufferRestored bootKernel (Mm.freeMemFromTask (allocateMapMemToTask bootKernel 16).2
      (allocateMapMemToTask bootKernel 16).1 16) :=
  freeMemFromTask_never_restores ⟨rfl, rfl⟩ 16 (by decide +kernel)

/-- It is at the first page of the window, and that page is not free when the buffer is gone. -/
theorem freeMemFromTask_keeps_page :
    (allocateMapMemToTask bootKernel 16).1 = 0x70001000 ∧
      ¬ BufferRestored bootKernel
        (Mm.freeMemFromTask (allocateMapMemToTask bootKernel 16).2 0x70001000 16) := by
  have haddr : (allocateMapMemToTask bootKernel 16).1 = 0x70001000 := by decide +kernel
  have hgone : (Mm.freeMemFromTask (allocateMapMemToTask bootKernel 16).2 0x70001000
      16).proc.membitmap.isFree 0 = false := by
    decide +kernel
  refine ⟨haddr, fun hrestored => ?_⟩
  have hsame := hrestored.window 0
  rw [hgone] at hsame
  exact absurd hsame (by decide)

/-! ## 2. The translations and the frames -/

/-- Freeing frames touches their bitmap only. -/
theorem pmmFreeRun_rest (k : Kernel) (paddr : Nat) :
    ∀ n, pmmFreeRun k paddr n = { k with pmm := (pmmFreeRun k paddr n).pmm }
  | 0 => rfl
  | n + 1 => by
    have hsucc : pmmFreeRun k paddr (n + 1) =
        pmmFreePage (pmmFreeRun k paddr n) (pageAddr paddr n) := by
      unfold pmmFreeRun
      rw [List.range_succ, List.foldl_append, List.foldl_cons, List.foldl_nil]
    rw [hsucc, pmmFreeRun_rest k paddr n]
    rfl

/-- The kernel finds the first frame of a buffer at its address. -/
theorem vToP_handed (hk : WindowOk k) (h : Handed k k' size v q f) (hproc : k''.proc = k'.proc) :
    Mm.vToP k'' v = k.physStart + 4096 * f := by
  have haddr := h.addr
  have hin := h.window.inside
  have hpages : k.proc.membitmap.pages = 25600 := Bitmap.pages_of_words hk.words
  have hal := hk.aligned
  have hwalk := h.walk v
  unfold aliasedRun at hwalk
  rw [if_pos (by omega)] at hwalk
  have hlow : v < 0x80000000 := by
    unfold userStartMappedMem at haddr
    omega
  unfold Mm.vToP writeAddr Mm.translate
  rw [if_pos hlow, hproc, hwalk, Option.bind_some, if_pos (by rfl)]
  simp only [Option.getD_some]
  unfold userStartMappedMem at haddr
  omega

/-- A buffer that was handed out is accepted when it is freed. -/
theorem taskAccepts_handed (hk : WindowOk k) (h : Handed k k' size v q f) : TaskAccepts v size := by
  have haddr := h.addr
  have hin := h.window.inside
  have hpages : k.proc.membitmap.pages = 25600 := Bitmap.pages_of_words hk.words
  unfold TaskAccepts userStartMappedMem membitmapWords smallPageSize at *
  rw [w32_of_lt (by omega)]
  omega

/-- Its first page was not mapped before. -/
theorem unmapped_before_handed (hk : WindowOk k) (h : Handed k k' size v q f) :
    walk k.proc.vuserPD v = none := by
  have hin := h.window.inside
  rw [h.addr]
  exact hk.free q (h.window.run q (Nat.le_refl q) (by omega)) (by omega)

/-- It is not mapped by a section. -/
theorem coarse_handed (hk : WindowOk k) (h : Handed k k' size v q f) :
    Coarse k'.proc.vuserPD v := by
  have hin := h.window.inside
  refine h.coarse v ?_
  rw [h.addr]
  exact hk.coarse q (by omega)

/-- Freeing a buffer changes the translations as unmapping it does. -/
theorem freeMemFromTask_userTable (k : Kernel) (v size : Nat) :
    (Mm.freeMemFromTask k v size).proc.vuserPD = (unmapMemFromTask k v size).proc.vuserPD := by
  unfold Mm.freeMemFromTask
  rw [pmmFreeRun_rest]

/-- **The frame of a buffer of less than a page** is given back. -/
theorem frames_freed_page (hk : WindowOk k) (h : Handed k k' size v q f)
    (hproc : k''.proc = k'.proc) (hpmm : k''.pmm = k'.pmm) (hphys : k''.physStart = k.physStart)
    (hpos : 0 < size) (hlt : size < 4096) (p : Nat) :
    (Mm.freeMemFromTask k'' v size).pmm.isFree p = k.pmm.isFree p := by
  have hone : size / 4096 + 1 = 1 := by omega
  have hframe := h.frames.inside
  have hbelow := hk.below
  have hfew := hk.few
  have hround : pageRounds size = 1 := by
    unfold pageRounds
    omega
  have hfreed : (Mm.freeMemFromTask k'' v size).pmm =
      freePage k'.pmm k.physStart (k.physStart + 4096 * f) := by
    unfold Mm.freeMemFromTask
    rw [vToP_handed hk h hproc, hround, unmapMemFromTask_of_accepts (taskAccepts_handed hk h)]
    simp only [pmmFreeRun, List.range_one, List.foldl_cons, List.foldl_nil, pmmFreePage, hpmm,
      hphys, pageAddr, Nat.mul_zero, Nat.add_zero]
    rw [w32_of_lt (by omega)]
  have hpage : freedPage k.physStart (k.physStart + 4096 * f) = some f := by
    unfold freedPage
    rw [sub32_of_le (by omega) (by omega), if_pos (by omega)]
    congr 1
    omega
  rw [hfreed, isFree_freePage, hpage, h.frameMarked, hone]
  by_cases hp : p = f
  · subst hp
    have hf := h.frames.run p (Nat.le_refl p) (by omega)
    simp [hf]
  · have hne : ¬ (f ≤ p ∧ p < f + 1) := by omega
    have hne' : ¬ some f = some p := fun heq => hp (Option.some.inj heq).symm
    rw [decide_eq_false hne, decide_eq_false hne']
    simp

/-- **When freeing a buffer gives back its frames and its translations.** -/
theorem freed_handed_iff (hk : WindowOk k) (h : Handed k k' size v q f)
    (hproc : k''.proc = k'.proc) (hpmm : k''.pmm = k'.pmm) (hphys : k''.physStart = k.physStart) :
    ((∀ va, walk (Mm.freeMemFromTask k'' v size).proc.vuserPD va = walk k.proc.vuserPD va) ∧
        ∀ p, (Mm.freeMemFromTask k'' v size).pmm.isFree p = k.pmm.isFree p) ↔
      0 < size ∧ size < 4096 := by
  have haddr := h.addr
  have hin := h.window.inside
  have hpages : k.proc.membitmap.pages = 25600 := Bitmap.pages_of_words hk.words
  have hacc := taskAccepts_handed hk h
  have hold := unmapped_before_handed hk h
  have hcoarse := coarse_handed hk h
  have hwalk : 0 < size → ∀ va, walk (Mm.freeMemFromTask k'' v size).proc.vuserPD va =
      if va / 0x1000 = v / 0x1000 then none
      else aliasedRun k k.proc.vuserPD (k.physStart + 4096 * f) v (size / 4096 + 1) va := by
    intro hpos va
    rw [freeMemFromTask_userTable, unmapMemFromTask_accepted hacc hpos, hproc,
      walk_unmapMemoryFromPd hcoarse, h.walk]
  constructor
  · rintro ⟨hsame, -⟩
    rcases Nat.eq_zero_or_pos size with rfl | hpos
    · -- nothing is unmapped
      have hnone := hsame v
      rw [freeMemFromTask_userTable, unmapMemFromTask_of_accepts hacc, hold] at hnone
      have hmapped := h.walk v
      unfold aliasedRun at hmapped
      rw [if_pos (by omega), ← hproc] at hmapped
      exact absurd (hmapped.symm.trans hnone) nofun
    · refine ⟨hpos, Nat.lt_of_not_le fun hge => ?_⟩
      -- the second page stays
      have hnone := hsame (v + 4096)
      have hfree : walk k.proc.vuserPD (v + 4096) = none := by
        rw [haddr, Nat.add_assoc, ← Nat.mul_succ]
        exact hk.free (q + 1) (h.window.run _ (Nat.le_succ q) (by omega)) (by omega)
      rw [hwalk hpos, if_neg (by omega), hfree] at hnone
      unfold aliasedRun at hnone
      rw [if_pos (by omega)] at hnone
      exact absurd hnone nofun
  · rintro ⟨hpos, hlt⟩
    have hone : size / 4096 + 1 = 1 := by omega
    refine ⟨fun va => ?_, frames_freed_page hk h hproc hpmm hphys hpos hlt⟩
    rw [hwalk hpos, hone]
    by_cases hpage : va / 0x1000 = v / 0x1000
    · rw [if_pos hpage, walk_none_page hold hpage]
    · unfold aliasedRun
      rw [if_neg hpage, if_neg (by omega)]

end AndixOs.Swi
