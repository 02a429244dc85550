/-
# Requests that fail

When `parameters_to_userspace` returns an error, what it has created for the trustlet is to be gone.
But each round of its loop returns as soon as something fails: nobody looks at the parameters before,
and `swi_map_tee_temp_ref` leaves its record and its kernel mapping when there is no buffer.  So all
is released exactly when the first parameter that is not a value fails, and fails before it holds
anything, or with a buffer that `free_mem_from_task` does undo (`toUserspace_released_iff`).
-/
import AndixOs.Swi.Buffers
import AndixOs.Mm.MapNull
import AndixOs.Mm.TaskMem

namespace AndixOs.Swi

open AndixOs AndixOs.Mm AndixOs.Tee

/-! ## 1. What should be released, and when it is -/

/-- The user mappings, the kernel mappings, the frames and the temporary memories are what they
were. -/
structure Released (w w' : ParamWorld) : Prop where
  userTable : ∀ va, walk w'.k.proc.vuserPD va = walk w.k.proc.vuserPD va
  kernelTable : ∀ va, walk w'.k.kernelTable va = walk w.k.kernelTable va
  frames : ∀ p, w'.k.pmm.isFree p = w.k.pmm.isFree p
  temps : w'.temps = w.temps

theorem Released.refl (w : ParamWorld) : Released w w :=
  ⟨fun _ => rfl, fun _ => rfl, fun _ => rfl, rfl⟩

/-- A reference to registered memory fails before it holds anything: the memory is unknown or too
small, or there are no frames; or its buffer is less than a page and not empty, there is room for it
in the window, and there is none for the memory in the mapable area. -/
def RegisteredFailsClean (w : ParamWorld) (p : TeecParamter) (paramType : TeecType) : Prop :=
  match teeMemoryFind w.tee p.memid with
  | none => True
  | some memory =>
    memory.paddr + memory.size < memory.paddr + p.offset + p.size ∨
      (∀ f, ¬ FirstRun w.k.pmm.isFree (p.size.toNat / 4096 + 1) w.k.pmm.pages f) ∨
      (paramType ≠ .memrefPartialOutput ∧ 0 < p.size.toNat ∧ p.size.toNat < 4096 ∧
        (∃ q, FirstRun w.k.proc.membitmap.isFree 1 w.k.proc.membitmap.pages q) ∧
        NoMapableRoom w.k memory.paddr.toNat memory.size.toNat)

/-- A parameter fails before it holds anything. -/
def FailsClean (allocOk : Fin 4 → Bool) (comOp : TeecomOperation) (w : ParamWorld) (i : Fin 4) :
    Prop :=
  comOp.type i = .unsupported ∨
    ((comOp.type i).isTemp = true ∧
      (isValidNonsecureRamAddr (comOp.params i).buffer && allocOk i) = false) ∨
    ((comOp.type i).isRegistered = true ∧
      RegisteredFailsClean w (comOp.params i) (comOp.type i))

/-- The first of these parameters that is not a value fails so. -/
def FirstFailsClean (allocOk : Fin 4 → Bool) (comOp : TeecomOperation) (w : ParamWorld)
    (is : List (Fin 4)) : Prop :=
  ∃ i, is.find? (fun i => !(comOp.type i).isValue) = some i ∧ FailsClean allocOk comOp w i

/-! ## 2. The memory management -/

variable {k k' : Kernel}

/-- The window and the frames are all that `WindowOk` is about. -/
theorem windowOk_congr (hk : WindowOk k) (hproc : k'.proc = k.proc) (hpmm : k'.pmm = k.pmm)
    (hphys : k'.physStart = k.physStart) : WindowOk k' := by
  constructor
  · rw [hproc]
    exact hk.words
  · rw [hproc]
    exact hk.free
  · rw [hproc]
    exact hk.coarse
  · rw [hphys]
    exact hk.aligned
  · rw [hphys]
    exact hk.positive
  · rw [hphys, hpmm]
    exact hk.below
  · rw [hpmm]
    exact hk.few

/-- What a buffer takes leaves the window in order. -/
theorem windowOk_handed {size v q f : Nat} (hk : WindowOk k) (h : Handed k k' size v q f) :
    WindowOk k' := by
  have hphys : k'.physStart = k.physStart := by rw [h.rest]
  have hwindow : k'.proc.membitmap.pages = k.proc.membitmap.pages := by
    unfold Bitmap.pages
    rw [h.windowWords]
  have hframes : k'.pmm.pages = k.pmm.pages := by
    unfold Bitmap.pages
    rw [h.frameWords]
  constructor
  · exact h.windowWords.trans hk.words
  · intro p hp hlt
    rw [h.windowMarked, Bool.and_eq_true, Bool.not_eq_true', decide_eq_false_iff_not] at hp
    rw [h.walk, h.addr]
    unfold aliasedRun
    rw [if_neg (by unfold userStartMappedMem; omega)]
    exact hk.free p hp.1 (hwindow ▸ hlt)
  · exact fun p hp => h.coarse _ (hk.coarse p (hwindow ▸ hp))
  · rw [hphys]
    exact hk.aligned
  · rw [hphys]
    exact hk.positive
  · rw [hphys, hframes]
    exact hk.below
  · rw [hframes]
    exact hk.few

/-- What a process has stays where a page is mapped. -/
theorem mapTaskPages_keeps (k : Kernel) (paddr frameStart va : Nat) {t : PageTable} {l : Leaf}
    (h : walk t va = some l) : ∀ n, walk (mapTaskPages k paddr frameStart n t) va = some l
  | 0 => h
  | n + 1 => by
    have ih := mapTaskPages_keeps k paddr frameStart va h n
    rw [mapTaskPages_succ, walk_mapTaskPage, if_neg (by rw [ih]; simp), ih]

/-- A buffer takes no translation away. -/
theorem allocateMapMemToTask_keeps (k : Kernel) (size : Nat) {va : Nat} {l : Leaf}
    (h : walk k.proc.vuserPD va = some l) :
    walk (allocateMapMemToTask k size).2.proc.vuserPD va = some l := by
  unfold allocateMapMemToTask pmmAllocatePages
  simp only
  split
  · exact h
  · exact mapTaskPages_keeps _ _ _ _ h _

/-- Without a frame for a buffer nothing happens; without a page for it the frames are gone. -/
theorem allocateMapMemToTask_fails (hk : WindowOk k) {size : Nat} (hs : size < 4294967296)
    (hnull : (allocateMapMemToTask k size).1 = 0) :
    ((∀ f, ¬ FirstRun k.pmm.isFree (size / 4096 + 1) k.pmm.pages f) ∧
        allocateMapMemToTask k size = (0, k)) ∨
      (∃ f, FirstRun k.pmm.isFree (size / 4096 + 1) k.pmm.pages f ∧
        (allocateMapMemToTask k size).2.pmm.isFree f = false) ∧
        ∀ q, ¬ FirstRun k.proc.membitmap.isFree (size / 4096 + 1) k.proc.membitmap.pages q := by
  rcases pmmAllocatePages_cases hk hs with ⟨hr, hnone⟩ | ⟨f, b', hr, hframes, -, hfree, -, -⟩
  · refine Or.inl ⟨hnone, ?_⟩
    simp only [allocateMapMemToTask, hr, if_true]
  · have hpos := hk.positive
    refine Or.inr ⟨⟨f, hframes, ?_⟩, ?_⟩
    · have hne : k.physStart + 4096 * f ≠ 0 := by omega
      simp only [allocateMapMemToTask, hr, if_neg hne, mapMemToTask, allocateTaskMappedPageFrames]
      rw [hfree, decide_eq_true ⟨Nat.le_refl f, by omega⟩]
      exact Bool.and_false _
    · rcases allocateMapMemToTask_spec hk hs with ⟨-, hno | hno⟩ | ⟨q, f', h⟩
      · exact absurd hframes (hno f)
      · exact hno
      · have haddr := h.addr
        unfold userStartMappedMem at haddr
        omega

/-! ## 3. One parameter -/

variable {w w' : ParamWorld} {p : TeecParamter} {paramType : TeecType} {rpc rpc' : TaRpc}
  {ret : UInt32} {allocOk : Fin 4 → Bool} {comOp : TeecomOperation}

/-- The kernel of `map_phys_mem` for a parameter. -/
def paramMapped (k : Kernel) (paddr size : UInt32) : Nat × Kernel :=
  mapPhysMem k paddr.toNat size.toNat apSvcRwUsrNo 0 0 0

/-- It touches the kernel's table and the mapable area only. -/
theorem paramMapped_rest (k : Kernel) (paddr size : UInt32) :
    (paramMapped k paddr size).2.proc = k.proc ∧ (paramMapped k paddr size).2.pmm = k.pmm ∧
      (paramMapped k paddr size).2.physStart = k.physStart := by
  obtain ⟨t, b, h⟩ := mapPhysMem_rest k paddr.toNat size.toNat apSvcRwUsrNo 0 0 0
  rw [paramMapped, h]
  exact ⟨rfl, rfl, rfl⟩

theorem temps_memcpy {dest src count : Nat} (h : w.memcpy dest src count = some w') :
    w'.temps = w.temps := by
  unfold ParamWorld.memcpy at h
  split at h
  · obtain rfl := Option.some.inj h
    rfl
  · exact absurd h (by simp)

/-- What `swi_map_tee_temp_ref` does, if the kernel survives it: nothing, or there is a record and
what came of the buffer. -/
theorem swiMapTeeTempRef_cases {ok : Bool} {r : Option TeeTempMemory}
    (h : swiMapTeeTempRef w p paramType ok = some (r, w')) :
    ((isValidNonsecureRamAddr p.buffer && ok) = false ∧ r = none ∧ w' = w) ∨
      ((isValidNonsecureRamAddr p.buffer && ok) = true ∧
        (∃ m : TeeTempMemory, w'.temps = w.temps ++ [m] ∧ m.size = p.size ∧
          m.vaddr = (paramMapped w.k p.buffer p.size).1 ∧
          m.uaddr = (allocateMapMemToTask (paramMapped w.k p.buffer p.size).2 p.size.toNat).1) ∧
        w'.k = (allocateMapMemToTask (paramMapped w.k p.buffer p.size).2 p.size.toNat).2 ∧
        (r = none ↔
          (allocateMapMemToTask (paramMapped w.k p.buffer p.size).2 p.size.toNat).1 = 0)) := by
  unfold swiMapTeeTempRef at h
  split at h
  · rename_i hok
    refine Or.inr ⟨hok, ?_⟩
    unfold paramMapped
    generalize mapPhysMem w.k p.buffer.toNat p.size.toNat apSvcRwUsrNo 0 0 0 = v at h ⊢
    simp only at h
    generalize allocateMapMemToTask v.2 p.size.toNat = u at h ⊢
    split at h
    · rename_i hnull
      obtain ⟨rfl, rfl⟩ := Prod.mk.inj (Option.some.inj h)
      exact ⟨⟨_, rfl, rfl, rfl, rfl⟩, rfl, iff_of_true rfl hnull⟩
    · rename_i hne
      split at h
      · obtain ⟨x, hx, hpair⟩ := Option.map_eq_some_iff.mp h
        obtain ⟨rfl, rfl⟩ := Prod.mk.inj hpair
        exact ⟨⟨_, temps_memcpy hx, rfl, rfl, rfl⟩, k_memcpy hx, iff_of_false nofun hne⟩
      · obtain ⟨rfl, rfl⟩ := Prod.mk.inj (Option.some.inj h)
        exact ⟨⟨_, rfl, rfl, rfl, rfl⟩, rfl, iff_of_false nofun hne⟩
  · rename_i hno
    obtain ⟨rfl, rfl⟩ := Prod.mk.inj (Option.some.inj h)
    exact Or.inl ⟨by simpa using hno, rfl, rfl⟩

/-- What becomes of a reference to registered memory. -/
inductive RegisteredOutcome (w : ParamWorld) (p : TeecParamter) (paramType : TeecType) :
    UInt32 → ParamWorld → Prop where
  | unknown (hfind : teeMemoryFind w.tee p.memid = none) :
      RegisteredOutcome w p paramType teeErrorBadParameters w
  | outside {memory : TeeMemory} (hfind : teeMemoryFind w.tee p.memid = some memory)
      (hout : memory.paddr + memory.size < memory.paddr + p.offset + p.size) :
      RegisteredOutcome w p paramType teeErrorBadParameters w
  | noBuffer {memory : TeeMemory} {w' : ParamWorld}
      (hfind : teeMemoryFind w.tee p.memid = some memory)
      (hin : ¬ memory.paddr + memory.size < memory.paddr + p.offset + p.size)
      (hnull : (allocateMapMemToTask w.k p.size.toNat).1 = 0)
      (hk : w'.k = (allocateMapMemToTask w.k p.size.toNat).2) :
      RegisteredOutcome w p paramType teeErrorOutOfMemory w'
  | unmapped {memory : TeeMemory} {w' : ParamWorld}
      (hfind : teeMemoryFind w.tee p.memid = some memory)
      (hin : ¬ memory.paddr + memory.size < memory.paddr + p.offset + p.size)
      (hbuffer : (allocateMapMemToTask w.k p.size.toNat).1 ≠ 0)
      (htype : paramType ≠ .memrefPartialOutput)
      (hnull : (paramMapped (allocateMapMemToTask w.k p.size.toNat).2 memory.paddr memory.size).1 = 0)
      (hk : w'.k = Mm.freeMemFromTask
        (paramMapped (allocateMapMemToTask w.k p.size.toNat).2 memory.paddr memory.size).2
        (allocateMapMemToTask w.k p.size.toNat).1 p.size.toNat) :
      RegisteredOutcome w p paramType teeErrorOutOfMemory w'
  | handed {memory : TeeMemory} {w' : ParamWorld}
      (hfind : teeMemoryFind w.tee p.memid = some memory)
      (hin : ¬ memory.paddr + memory.size < memory.paddr + p.offset + p.size)
      (hbuffer : (allocateMapMemToTask w.k p.size.toNat).1 ≠ 0)
      (hmapped : paramType ≠ .memrefPartialOutput →
        (paramMapped (allocateMapMemToTask w.k p.size.toNat).2 memory.paddr memory.size).1 ≠ 0)
      (hkernel : w'.k = (allocateMapMemToTask w.k p.size.toNat).2 ∨
        (paramMapped (allocateMapMemToTask w.k p.size.toNat).2 memory.paddr memory.size).1 ≠ 0 ∧
          w'.k = unmapPages
            (paramMapped (allocateMapMemToTask w.k p.size.toNat).2 memory.paddr memory.size).2
            (paramMapped (allocateMapMemToTask w.k p.size.toNat).2 memory.paddr memory.size).1
            (pageRounds memory.size.toNat))
      (hproc : w'.k.proc = (allocateMapMemToTask w.k p.size.toNat).2.proc)
      (hpmm : w'.k.pmm = (allocateMapMemToTask w.k p.size.toNat).2.pmm)
      (hphys : w'.k.physStart = (allocateMapMemToTask w.k p.size.toNat).2.physStart) :
      RegisteredOutcome w p paramType teeSuccess w'

theorem registeredToUserspace_cases {i : Fin 4}
    (h : registeredToUserspace w p paramType rpc i = some (ret, w', rpc')) :
    w'.temps = w.temps ∧ RegisteredOutcome w p paramType ret w' := by
  unfold registeredToUserspace at h
  split at h
  · rename_i hfind
    obtain ⟨rfl, hpair⟩ := Prod.mk.inj (Option.some.inj h)
    obtain ⟨rfl, -⟩ := Prod.mk.inj hpair
    exact ⟨rfl, .unknown hfind⟩
  rename_i memory hfind
  split at h
  · rename_i hout
    obtain ⟨rfl, hpair⟩ := Prod.mk.inj (Option.some.inj h)
    obtain ⟨rfl, -⟩ := Prod.mk.inj hpair
    exact ⟨rfl, .outside hfind hout⟩
  rename_i hin
  simp only at h
  split at h
  · rename_i hnull
    obtain ⟨rfl, hpair⟩ := Prod.mk.inj (Option.some.inj h)
    obtain ⟨rfl, -⟩ := Prod.mk.inj hpair
    exact ⟨rfl, .noBuffer hfind hin hnull rfl⟩
  rename_i hbuffer
  split at h
  · rename_i htype
    obtain ⟨rfl, hpair⟩ := Prod.mk.inj (Option.some.inj h)
    obtain ⟨rfl, -⟩ := Prod.mk.inj hpair
    exact ⟨rfl, .handed hfind hin hbuffer (fun hne => absurd htype hne) (Or.inl rfl) rfl rfl rfl⟩
  rename_i htype
  split at h
  · rename_i hnull
    obtain ⟨rfl, hpair⟩ := Prod.mk.inj (Option.some.inj h)
    obtain ⟨rfl, -⟩ := Prod.mk.inj hpair
    exact ⟨rfl, .unmapped hfind hin hbuffer htype hnull rfl⟩
  · rename_i hmapped
    obtain ⟨x, hx, hpair⟩ := Option.map_eq_some_iff.mp h
    simp only [Prod.mk.injEq] at hpair
    obtain ⟨rfl, rfl, -⟩ := hpair
    obtain ⟨t, ht⟩ := unmapPages_rest x.k (paramMapped (allocateMapMemToTask w.k p.size.toNat).2
      memory.paddr memory.size).1 (pageRounds memory.size.toNat)
    obtain ⟨hproc, hpmm, hphys⟩ := paramMapped_rest (allocateMapMemToTask w.k p.size.toNat).2
      memory.paddr memory.size
    have hxk : x.k = (paramMapped (allocateMapMemToTask w.k p.size.toNat).2 memory.paddr
        memory.size).2 := k_memcpy hx
    rw [hxk] at ht
    have htemps := temps_memcpy hx
    refine ⟨htemps, .handed hfind hin hbuffer (fun _ => hmapped) (Or.inr ⟨hmapped, ?_⟩) ?_ ?_ ?_⟩
    · exact congrArg (fun k => unmapPages k _ _) hxk
    · simp only [hxk]
      exact (congrArg Kernel.proc ht).trans hproc
    · simp only [hxk]
      exact (congrArg Kernel.pmm ht).trans hpmm
    · simp only [hxk]
      exact (congrArg Kernel.physStart ht).trans hphys

/-! ## 4. A round -/

/-- What a round leaves of the rounds before it: the translations and the records. -/
structure Keeps (w w' : ParamWorld) : Prop where
  userTable : ∀ va l, walk w.k.proc.vuserPD va = some l → walk w'.k.proc.vuserPD va = some l
  temps : w.temps.length ≤ w'.temps.length

theorem Keeps.refl (w : ParamWorld) : Keeps w w := ⟨fun _ _ h => h, Nat.le_refl _⟩

theorem Keeps.trans {u : ParamWorld} (h : Keeps w u) (h' : Keeps u w') : Keeps w w' :=
  ⟨fun va l hl => h'.userTable va l (h.userTable va l hl), Nat.le_trans h.temps h'.temps⟩

/-- Giving back the buffer of this round takes no older translation away. -/
theorem keeps_freed (hk : WindowOk k) {size va : Nat} {l : Leaf} {k'' : Kernel}
    (hs : size < 4294967296) (hbuffer : (allocateMapMemToTask k size).1 ≠ 0)
    (hproc : k''.proc = (allocateMapMemToTask k size).2.proc)
    (hl : walk k.proc.vuserPD va = some l) :
    walk (Mm.freeMemFromTask k'' (allocateMapMemToTask k size).1 size).proc.vuserPD va = some l := by
  obtain ⟨hnull, -⟩ | ⟨q, f, h⟩ := allocateMapMemToTask_spec hk hs
  · exact absurd hnull hbuffer
  have hkeep := allocateMapMemToTask_keeps k size hl
  rw [← hproc] at hkeep
  generalize (allocateMapMemToTask k size).1 = v at h hbuffer ⊢
  -- the page of the buffer was not mapped
  have hpage : ¬ va / 0x1000 = v / 0x1000 := by
    intro hpage
    rw [walk_none_page (unmapped_before_handed hk h) hpage] at hl
    exact absurd hl nofun
  have hcoarse : Coarse k''.proc.vuserPD v := by
    rw [hproc]
    exact coarse_handed hk h
  have hacc := taskAccepts_handed hk h
  rw [freeMemFromTask_userTable]
  rcases Nat.eq_zero_or_pos size with rfl | hpos
  · rw [unmapMemFromTask_of_accepts hacc]
    exact hkeep
  · rw [unmapMemFromTask_accepted hacc hpos, walk_unmapMemoryFromPd hcoarse, if_neg hpage]
    exact hkeep

theorem keeps_temp {ok : Bool} {r : Option TeeTempMemory} (hk : WindowOk w.k)
    (h : swiMapTeeTempRef w p paramType ok = some (r, w')) :
    Keeps w w' ∧ (r ≠ none → WindowOk w'.k) := by
  obtain ⟨-, rfl, rfl⟩ | ⟨-, ⟨m, htemps, -⟩, hwk, hnull⟩ := swiMapTeeTempRef_cases h
  · exact ⟨Keeps.refl w', fun h => absurd rfl h⟩
  obtain ⟨hproc, hpmm, hphys⟩ := paramMapped_rest w.k p.buffer p.size
  have hk' := windowOk_congr hk hproc hpmm hphys
  refine ⟨⟨fun va l hl => ?_, by rw [htemps]; simp⟩, fun hne => ?_⟩
  · rw [hwk]
    exact allocateMapMemToTask_keeps _ _ (by rw [hproc]; exact hl)
  · rw [hwk]
    obtain ⟨hzero, -⟩ | ⟨q, f, hhanded⟩ := allocateMapMemToTask_spec hk' p.size.toNat_lt
    · exact absurd (hnull.mpr hzero) hne
    · exact windowOk_handed hk' hhanded

theorem keeps_registered {i : Fin 4} (hk : WindowOk w.k)
    (h : registeredToUserspace w p paramType rpc i = some (ret, w', rpc')) :
    Keeps w w' ∧ (ret = teeSuccess → WindowOk w'.k) := by
  obtain ⟨htemps, hout⟩ := registeredToUserspace_cases h
  have hlength : w.temps.length ≤ w'.temps.length := Nat.le_of_eq (congrArg _ htemps.symm)
  have hsize := p.size.toNat_lt
  cases hout with
  | unknown => exact ⟨Keeps.refl w, fun _ => hk⟩
  | outside => exact ⟨Keeps.refl w, fun _ => hk⟩
  | noBuffer _ _ _ hwk =>
    refine ⟨⟨fun va l hl => ?_, hlength⟩, fun h => absurd h (by decide)⟩
    rw [hwk]
    exact allocateMapMemToTask_keeps _ _ hl
  | unmapped _ _ hbuffer _ _ hwk =>
    refine ⟨⟨fun va l hl => ?_, hlength⟩, fun h => absurd h (by decide)⟩
    rw [hwk]
    exact keeps_freed hk hsize hbuffer (paramMapped_rest _ _ _).1 hl
  | handed _ _ hbuffer _ _ hproc hpmm hphys =>
    refine ⟨⟨fun va l hl => ?_, hlength⟩, fun _ => ?_⟩
    · rw [hproc]
      exact allocateMapMemToTask_keeps _ _ hl
    · obtain ⟨hzero, -⟩ | ⟨q, f, hhanded⟩ := allocateMapMemToTask_spec hk hsize
      · exact absurd hzero hbuffer
      · exact windowOk_congr (windowOk_handed hk hhanded) hproc hpmm hphys

/-- **A round** keeps what was there before it, and if it succeeds, the window in order. -/
theorem keeps_round {i : Fin 4} {s t : ParamWorld × TaRpc} (hk : WindowOk s.1.k)
    (h : toUserspaceRound allocOk comOp s i = some (ret, t)) :
    Keeps s.1 t.1 ∧ (ret = teeSuccess → WindowOk t.1.k) := by
  obtain ⟨-, -, hsame⟩ | ⟨-, -, hsame⟩ | ⟨-, r, hmap, hret⟩ | ⟨-, hreg⟩ := toUserspaceRound_cases h
  · rw [hsame]
    exact ⟨Keeps.refl s.1, fun _ => hk⟩
  · rw [hsame]
    exact ⟨Keeps.refl s.1, fun _ => hk⟩
  · obtain ⟨hkeeps, hwindow⟩ := keeps_temp hk hmap
    exact ⟨hkeeps, fun h => hwindow (hret.mp h)⟩
  · exact keeps_registered hk hreg

/-- The rounds that follow keep what was there before them. -/
theorem keeps_paramLoop : ∀ {is : List (Fin 4)} {s t : ParamWorld × TaRpc}, WindowOk s.1.k →
    paramLoop (toUserspaceRound allocOk comOp) is s = some (ret, t) → Keeps s.1 t.1
  | [], s, t, _, h => by
    obtain ⟨-, rfl⟩ := Prod.mk.inj (Option.some.inj h)
    exact Keeps.refl s.1
  | i :: is, s, t, hk, h => by
    rw [paramLoop] at h
    split at h
    · cases h
    · rename_i ret' u hround
      obtain ⟨hkeeps, hwindow⟩ := keeps_round hk hround
      split at h
      · rename_i hret
        exact hkeeps.trans (keeps_paramLoop (hwindow hret) h)
      · obtain ⟨-, rfl⟩ := Prod.mk.inj (Option.some.inj h)
        exact hkeeps

/-! ## 5. The first parameter that is not a value -/

/-- The mapable area is not touched by a buffer. -/
theorem mapable_handed {size v q f : Nat} (hm : Mapable k) (h : Handed k k' size v q f) :
    Mapable k' := by
  rw [h.rest]
  exact ⟨⟨hm.words, hm.free⟩, hm.image, hm.smmAbove⟩

/-- A temporary memory reference that fails. -/
theorem temp_released_iff {ok : Bool}
    (h : swiMapTeeTempRef w p paramType ok = some (none, w')) :
    Released w w' ↔ (isValidNonsecureRamAddr p.buffer && ok) = false := by
  obtain ⟨hno, -, rfl⟩ | ⟨hok, ⟨m, htemps, -⟩, -, -⟩ := swiMapTeeTempRef_cases h
  · exact iff_of_true (Released.refl w') hno
  · refine iff_of_false (fun hrel => ?_) (by rw [hok]; decide)
    have hsame := congrArg List.length (htemps.symm.trans hrel.temps)
    rw [List.length_append, List.length_singleton] at hsame
    omega

/-- A temporary memory reference that succeeds is never released by the rounds that follow. -/
theorem not_released_of_temp {ok : Bool} {m : TeeTempMemory} {u : ParamWorld}
    (h : swiMapTeeTempRef w p paramType ok = some (some m, u)) (hkeeps : Keeps u w') :
    ¬ Released w w' ∧ (isValidNonsecureRamAddr p.buffer && ok) = true := by
  obtain ⟨-, hnone, -⟩ | ⟨hok, ⟨m, htemps, -⟩, -, -⟩ := swiMapTeeTempRef_cases h
  · exact absurd hnone nofun
  · refine ⟨fun hrel => ?_, hok⟩
    have hlength := hkeeps.temps
    rw [hrel.temps, htemps, List.length_append, List.length_singleton] at hlength
    omega

/-- **A reference to registered memory that fails.** -/
theorem registered_released_iff {i : Fin 4} (hk : WindowOk w.k) (hm : Mapable w.k)
    (h : registeredToUserspace w p paramType rpc i = some (ret, w', rpc'))
    (hret : ret ≠ teeSuccess) : Released w w' ↔ RegisteredFailsClean w p paramType := by
  obtain ⟨htemps, hout⟩ := registeredToUserspace_cases h
  have hsize := p.size.toNat_lt
  unfold RegisteredFailsClean
  cases hout with
  | unknown hfind =>
    rw [hfind]
    exact iff_of_true (Released.refl w) trivial
  | outside hfind hout =>
    rw [hfind]
    exact iff_of_true (Released.refl w) (Or.inl hout)
  | noBuffer hfind hin hnull hwk =>
    rw [hfind]
    obtain ⟨hnone, hsame⟩ | ⟨⟨f, hframes, hgone⟩, hnoroom⟩ :=
      allocateMapMemToTask_fails hk hsize hnull
    · rw [hsame] at hwk
      refine iff_of_true ⟨?_, ?_, ?_, htemps⟩ (Or.inr (Or.inl hnone))
      · exact fun va => by rw [hwk]
      · exact fun va => by rw [hwk]
      · exact fun p => by rw [hwk]
    · -- the frames are taken, and no address leads to them
      refine iff_of_false (fun hrel => ?_) ?_
      · have hsame := hrel.frames f
        rw [hwk, hgone, hframes.run f (Nat.le_refl f) (by omega)] at hsame
        exact absurd hsame (by decide)
      · rintro (h | h | ⟨-, -, hlt, ⟨q, hq⟩, -⟩)
        · exact hin h
        · exact h f hframes
        · refine hnoroom q ?_
          rwa [Nat.div_eq_of_lt hlt]
  | @unmapped memory _ hfind hin hbuffer htype hnull hwk =>
    rw [hfind]
    obtain ⟨hzero, -⟩ | ⟨q, f, hhanded⟩ := allocateMapMemToTask_spec hk hsize
    · exact absurd hzero hbuffer
    obtain ⟨hproc, hpmm, hphys⟩ := paramMapped_rest (allocateMapMemToTask w.k p.size.toNat).2
      memory.paddr memory.size
    have hfreed := freed_handed_iff hk hhanded hproc hpmm
      (hphys.trans (by rw [hhanded.rest]))
    have hallow : (physMemInfo apSvcRwUsrNo 0 0 0).Allowed := by decide
    obtain ⟨hroom, hsame⟩ := mapPhysMem_null_iff (mapable_handed hm hhanded) hallow
      memory.paddr.toNat_lt memory.size.toNat_lt
    have hmmm : (allocateMapMemToTask w.k p.size.toNat).2.mmm = w.k.mmm := by rw [hhanded.rest]
    have hkernel : (allocateMapMemToTask w.k p.size.toNat).2.kernelTable = w.k.kernelTable := by
      rw [hhanded.rest]
    unfold NoMapableRoom at hroom
    rw [hmmm] at hroom
    constructor
    · intro hrel
      obtain ⟨hpos, hlt⟩ := hfreed.mp ⟨hwk ▸ hrel.userTable, hwk ▸ hrel.frames⟩
      have hwindow := hhanded.window
      rw [Nat.div_eq_of_lt hlt] at hwindow
      exact Or.inr (Or.inr ⟨htype, hpos, hlt, ⟨q, hwindow⟩, hroom.mp hnull⟩)
    · rintro (h | h | ⟨-, hpos, hlt, -⟩)
      · exact absurd h hin
      · exact absurd hhanded.frames (h f)
      · obtain ⟨huser, hframes⟩ := hfreed.mpr ⟨hpos, hlt⟩
        refine ⟨hwk ▸ huser, fun va => ?_, hwk ▸ hframes, htemps⟩
        obtain ⟨t, b, hrest⟩ := freeMemFromTask_rest
          (paramMapped (allocateMapMemToTask w.k p.size.toNat).2 memory.paddr memory.size).2
          (allocateMapMemToTask w.k p.size.toNat).1 p.size.toNat
        rw [hwk, hrest]
        exact (hsame hnull va).trans (by rw [hkernel])
  | handed => exact absurd rfl hret

/-- A reference to registered memory that succeeds keeps its buffer through the rounds that
follow. -/
theorem not_released_of_registered {i : Fin 4} {u : ParamWorld} (hk : WindowOk w.k)
    (hm : Mapable w.k)
    (h : registeredToUserspace w p paramType rpc i = some (teeSuccess, u, rpc'))
    (hkeeps : Keeps u w') : ¬ Released w w' ∧ ¬ RegisteredFailsClean w p paramType := by
  obtain ⟨-, hout⟩ := registeredToUserspace_cases h
  have hsize := p.size.toNat_lt
  generalize hret : teeSuccess = ret at hout
  cases hout with
  | unknown => exact absurd hret (by decide)
  | outside => exact absurd hret (by decide)
  | noBuffer => exact absurd hret (by decide)
  | unmapped => exact absurd hret (by decide)
  | @handed memory _ hfind hin hbuffer hmapped _ hproc =>
    obtain ⟨hzero, -⟩ | ⟨q, f, hhanded⟩ := allocateMapMemToTask_spec hk hsize
    · exact absurd hzero hbuffer
    have hinside := hhanded.window.inside
    have haddr := hhanded.addr
    constructor
    · intro hrel
      have hold := hrel.userTable (allocateMapMemToTask w.k p.size.toNat).1
      have hnew := hhanded.walk (allocateMapMemToTask w.k p.size.toNat).1
      unfold aliasedRun at hnew
      rw [if_pos (by omega), ← hproc] at hnew
      rw [hkeeps.userTable _ _ hnew, haddr,
        hk.free q (hhanded.window.run q (Nat.le_refl q) (by omega)) (by omega)] at hold
      exact absurd hold nofun
    · unfold RegisteredFailsClean
      rw [hfind]
      rintro (h | h | ⟨htype, -, -, -, hroom⟩)
      · exact hin h
      · exact h f hhanded.frames
      · refine hmapped htype ?_
        refine (mapPhysMem_null_iff (mapable_handed hm hhanded) (by decide)
          memory.paddr.toNat_lt memory.size.toNat_lt).1.mpr ?_
        unfold NoMapableRoom
        rw [show (allocateMapMemToTask w.k p.size.toNat).2.mmm = w.k.mmm by rw [hhanded.rest]]
        exact hroom

/-! ## 6. `parameters_to_userspace` -/

/-- A temporary reference is no other kind of parameter. -/
theorem failsClean_temp (allocOk : Fin 4 → Bool) (w : ParamWorld) {i : Fin 4}
    (h : (comOp.type i).isTemp = true) :
    (comOp.type i).isValue = false ∧ (FailsClean allocOk comOp w i ↔
      (isValidNonsecureRamAddr (comOp.params i).buffer && allocOk i) = false) := by
  unfold FailsClean
  generalize comOp.type i = type at h
  cases type <;> simp_all [TeecType.isTemp, TeecType.isValue, TeecType.isRegistered]

/-- A reference to registered memory is no other kind of parameter. -/
theorem failsClean_registered (allocOk : Fin 4 → Bool) (w : ParamWorld) {i : Fin 4}
    (h : (comOp.type i).isRegistered = true) :
    (comOp.type i).isValue = false ∧ (FailsClean allocOk comOp w i ↔
      RegisteredFailsClean w (comOp.params i) (comOp.type i)) := by
  unfold FailsClean
  generalize comOp.type i = type at h
  cases type <;> simp_all [TeecType.isTemp, TeecType.isValue, TeecType.isRegistered]

theorem firstFailsClean_cons {i : Fin 4} {is : List (Fin 4)} :
    FirstFailsClean allocOk comOp w (i :: is) ↔
      if (comOp.type i).isValue = true then FirstFailsClean allocOk comOp w is
      else FailsClean allocOk comOp w i := by
  unfold FirstFailsClean
  rw [List.find?_cons]
  by_cases hvalue : (comOp.type i).isValue = true
  · rw [if_pos hvalue, hvalue]
    exact Iff.rfl
  · rw [if_neg hvalue, Bool.eq_false_iff.mpr hvalue]
    simp

/-- The loop, from any parameter on. -/
theorem paramLoop_released_iff :
    ∀ {is : List (Fin 4)} {s t : ParamWorld × TaRpc}, WindowOk s.1.k → Mapable s.1.k →
      paramLoop (toUserspaceRound allocOk comOp) is s = some (ret, t) → ret ≠ teeSuccess →
      (Released s.1 t.1 ↔ FirstFailsClean allocOk comOp s.1 is)
  | [], _, _, _, _, h, hret => absurd (Prod.mk.inj (Option.some.inj h)).1.symm hret
  | i :: is, s, t, hk, hm, h, hret => by
    rw [paramLoop] at h
    rw [firstFailsClean_cons]
    split at h
    · cases h
    rename_i ret' u hround
    have hwindow := (keeps_round hk hround).2
    obtain ⟨hvalue, rfl, hsame⟩ | ⟨htype, rfl, hsame⟩ | ⟨htype, r, hmap, hr⟩ | ⟨htype, hreg⟩ :=
      toUserspaceRound_cases hround
    · -- a value holds nothing
      rw [if_pos rfl] at h
      rw [if_pos hvalue, ← hsame]
      exact paramLoop_released_iff (hsame ▸ hk) (hsame ▸ hm) h hret
    · rw [if_neg (by decide)] at h
      obtain ⟨-, rfl⟩ := Prod.mk.inj (Option.some.inj h)
      rw [htype, if_neg (by decide), hsame]
      exact iff_of_true (Released.refl s.1) (Or.inl htype)
    · obtain ⟨hvalue, hclean⟩ := failsClean_temp allocOk s.1 htype
      rw [if_neg (Bool.eq_false_iff.mp hvalue), hclean]
      by_cases hok : ret' = teeSuccess
      · rw [if_pos hok] at h
        obtain ⟨m, rfl⟩ := Option.ne_none_iff_exists'.mp (hr.mp hok)
        obtain ⟨hkept, htrue⟩ := not_released_of_temp hmap (keeps_paramLoop (hwindow hok) h)
        exact iff_of_false hkept (by rw [htrue]; decide)
      · rw [if_neg hok] at h
        obtain ⟨-, rfl⟩ := Prod.mk.inj (Option.some.inj h)
        obtain rfl : r = none := not_not.mp fun hne => hok (hr.mpr hne)
        exact temp_released_iff hmap
    · obtain ⟨hvalue, hclean⟩ := failsClean_registered allocOk s.1 htype
      rw [if_neg (Bool.eq_false_iff.mp hvalue), hclean]
      by_cases hok : ret' = teeSuccess
      · rw [if_pos hok] at h
        obtain ⟨hkept, hno⟩ := not_released_of_registered hk hm (hok ▸ hreg)
          (keeps_paramLoop (hwindow hok) h)
        exact iff_of_false hkept hno
      · rw [if_neg hok] at h
        obtain ⟨-, rfl⟩ := Prod.mk.inj (Option.some.inj h)
        exact registered_released_iff hk hm hreg hok

/-- **When an error releases everything**: the first parameter that is not a value fails before it
holds anything, or with a buffer that can be given back. -/
theorem toUserspace_released_iff {allocOk : Fin 4 → Bool} {comOp : TeecomOperation}
    {rpc rpc' : TaRpc} {w w' : ParamWorld} {ret : UInt32} (hk : WindowOk w.k) (hm : Mapable w.k)
    (h : parametersToUserspace allocOk comOp rpc w = some (ret, w', rpc'))
    (hret : ret ≠ teeSuccess) :
    Released w w' ↔ FirstFailsClean allocOk comOp w (List.finRange 4) := by
  unfold parametersToUserspace at h
  split at h
  · exact paramLoop_released_iff (s := (w, { rpc with paramTypes := comOp.paramTypes })) hk hm h hret
  · exact absurd (Prod.mk.inj (Option.some.inj h)).1.symm hret

/-- A value, and memory that is not registered. -/
def unknownOp : TeecomOperation :=
  ⟨0x00C1, fun i => if i = 1 then ⟨9, 16, 0⟩ else ⟨3, 4, 0⟩, 1⟩

/-- Nothing was taken for it. -/
theorem toUserspace_released_unknown :
    ∃ w' rpc', parametersToUserspace (fun _ => true) unknownOp ⟨0, fun _ => ⟨0, 0⟩⟩ bootParams =
        some (teeErrorBadParameters, w', rpc') ∧ Released bootParams w' := by
  have hcall : (parametersToUserspace (fun _ => true) unknownOp ⟨0, fun _ => ⟨0, 0⟩⟩ bootParams).map
      (fun r => r.1) = some teeErrorBadParameters := by
    decide +kernel
  obtain ⟨⟨ret, w', rpc'⟩, hr, rfl⟩ := Option.map_eq_some_iff.mp hcall
  refine ⟨w', rpc', hr, ?_⟩
  refine (toUserspace_released_iff bootKernel_windowOk bootKernel_mapable hr (by decide)).mpr ?_
  refine ⟨1, by decide, Or.inr (Or.inr ⟨by decide, ?_⟩)⟩
  exact trivial

/-- Two temporary memories of the normal world, and a type that is not supported. -/
def thirdFailsOp : TeecomOperation :=
  ⟨0x0455, fun _ => ⟨0xB0000000, 16, 0⟩, 1⟩

/-- Their records are still there when the third parameter fails. -/
theorem toUserspace_keeps_temps :
    ∃ w' rpc', parametersToUserspace (fun _ => true) thirdFailsOp ⟨0, fun _ => ⟨0, 0⟩⟩ bootParams =
        some (teeErrorBadParameters, w', rpc') ∧ w'.temps.length = 2 ∧
      walk w'.k.proc.vuserPD 0x70001000 ≠ none ∧ ¬ Released bootParams w' := by
  have hcall : (parametersToUserspace (fun _ => true) thirdFailsOp ⟨0, fun _ => ⟨0, 0⟩⟩
      bootParams).any (fun r => decide (r.1 = teeErrorBadParameters ∧ r.2.1.temps.length = 2 ∧
        walk r.2.1.k.proc.vuserPD 0x70001000 ≠ none)) = true := by
    decide +kernel
  obtain ⟨⟨ret, w', rpc'⟩, hr, htest⟩ := (Option.any_eq_true _ _).mp hcall
  obtain ⟨rfl, htemps, hwalk⟩ := of_decide_eq_true htest
  refine ⟨w', rpc', hr, htemps, hwalk, fun hrel => ?_⟩
  exact hwalk (hrel.userTable 0x70001000)

end AndixOs.Swi
