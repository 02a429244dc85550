/-
# The states that requests reach

The results about the parameters of a request are about states in which a page that is free in a
bitmap is not mapped (`WindowOk`, `Mapable`).  Here is why: they hold after the boot, and both
functions keep them, whatever they are called with and whatever they return (`paramsOk_of_run`).

One call is left out.  A buffer that cannot be allocated leaves a temporary memory at the address 0
behind, of any size.  A trustlet that gives back a buffer at 0 has that memory unmapped, from the
address 0 on, and the kernel image may be part of it (`null_unmaps_image`).
-/
import AndixOs.Swi.Cleanup

namespace AndixOs.Swi

open AndixOs AndixOs.Mm AndixOs.Tee

variable {k k' : Kernel} {t t' : PageTable}

/-! ## 1. The window -/

theorem keepsCoarse_trans {t'' : PageTable} (h : KeepsCoarse t t') (h' : KeepsCoarse t' t'') :
    KeepsCoarse t t'' := by
  intro i
  rcases h' i with he | he
  · rw [he]
    exact h i
  · exact Or.inr he

theorem keepsCoarse_unmapMemoryFromPd (t : PageTable) (va : Nat) :
    KeepsCoarse t (unmapMemoryFromPd t va).2 := by
  unfold unmapMemoryFromPd
  cases ht : t (l1Index va) with
  | fault =>
    simp only [ht]
    exact KeepsCoarse.refl t
  | table desc l2 =>
    simp only [ht]
    split
    · exact KeepsCoarse.refl t
    · exact KeepsCoarse.update (Or.inr ⟨_, _, rfl⟩)
  | «section» d =>
    simp only [ht]
    exact KeepsCoarse.update (Or.inl rfl)

theorem keepsCoarse_mapTaskPages (k : Kernel) (paddr frameStart : Nat) (t : PageTable) :
    ∀ n, KeepsCoarse t (mapTaskPages k paddr frameStart n t)
  | 0 => KeepsCoarse.refl t
  | n + 1 => by
    rw [mapTaskPages_succ]
    exact keepsCoarse_trans (keepsCoarse_mapTaskPages k paddr frameStart t n)
      (keepsCoarse_mapMemoryV _ rfl)

/-- What keeps the window in order: no page of it becomes free, and none that is not mapped is
mapped. -/
theorem windowOk_of_narrows (hk : WindowOk k) (h : Narrows k k')
    (hwalk : ∀ p, walk k.proc.vuserPD (userStartMappedMem + 4096 * p) = none →
      walk k'.proc.vuserPD (userStartMappedMem + 4096 * p) = none)
    (hcoarse : KeepsCoarse k.proc.vuserPD k'.proc.vuserPD) (hpmm : k'.pmm.words = k.pmm.words) :
    WindowOk k' := by
  have hpages : k'.proc.membitmap.pages = k.proc.membitmap.pages := by
    unfold Bitmap.pages
    rw [h.words]
  have hframes : k'.pmm.pages = k.pmm.pages := by
    unfold Bitmap.pages
    rw [hpmm]
  constructor
  · exact h.words.trans hk.words
  · exact fun p hp hlt => hwalk p (hk.free p (h.free p hp) (hpages ▸ hlt))
  · exact fun p hp => hcoarse.coarse (hk.coarse p (hpages ▸ hp))
  · rw [h.physStart]
    exact hk.aligned
  · rw [h.physStart]
    exact hk.positive
  · rw [h.physStart, hframes]
    exact hk.below
  · rw [hframes]
    exact hk.few

/-- A buffer that is not found a place for is mapped from 0 on, far below the window. -/
theorem windowOk_allocateMapMemToTask (hk : WindowOk k) {size : Nat} (hs : size < 4294967296) :
    WindowOk (allocateMapMemToTask k size).2 := by
  obtain ⟨hnull, -⟩ | ⟨q, f, h⟩ := allocateMapMemToTask_spec hk hs
  · rcases pmmAllocatePages_cases hk hs with ⟨hr, -⟩ | ⟨f, b', hr, -, hwords, -, hin, hmax⟩
    · simp only [allocateMapMemToTask, hr, if_true]
      exact hk
    · have hpos := hk.positive
      have hne : k.physStart + 4096 * f ≠ 0 := by omega
      have hnarrow := (allocateMapMemToTask_window ⟨hk.words, hk.aligned⟩ size).1
      have hcount : neededPages (k.physStart + 4096 * f) size ≤ 65537 := by
        rw [neededPages_eq (by omega) hs, if_pos hin]
        omega
      have hstart := allocatePages_aligned k.proc.membitmap
        (neededPages (k.physStart + 4096 * f) size) (show userStartMappedMem % 4096 = 0 by rfl)
      simp only [allocateMapMemToTask, hr, if_neg hne, mapMemToTask,
        allocateTaskMappedPageFrames] at hnull hnarrow ⊢
      have hzero : (allocatePages k.proc.membitmap userStartMappedMem
          (neededPages (k.physStart + 4096 * f) size)).1 = 0 := by omega
      refine windowOk_of_narrows hk hnarrow (fun p hp => ?_) (keepsCoarse_mapTaskPages _ _ _ _ _)
        hwords
      rw [walk_mapTaskPages _ _ hstart _ _ (by omega)]
      unfold filledRun
      rw [hzero, if_neg (by unfold userStartMappedMem; omega)]
      exact hp
  · exact windowOk_handed hk h

theorem words_pmmFreeRun (k : Kernel) (paddr : Nat) :
    ∀ n, (pmmFreeRun k paddr n).pmm.words = k.pmm.words
  | 0 => rfl
  | n + 1 => by
    unfold pmmFreeRun
    rw [List.range_succ, List.foldl_append, List.foldl_cons, List.foldl_nil]
    exact words_pmmFreeRun k paddr n

/-- The process's table after unmapping: as it was, or without the page of the address. -/
theorem unmapMemFromTask_table (k : Kernel) (vaddr size : Nat) :
    (unmapMemFromTask k vaddr size).proc.vuserPD = k.proc.vuserPD ∨
      (unmapMemFromTask k vaddr size).proc.vuserPD =
        (unmapMemoryFromPd k.proc.vuserPD vaddr).2 := by
  by_cases hacc : TaskAccepts vaddr size
  · rcases Nat.eq_zero_or_pos size with rfl | hpos
    · rw [unmapMemFromTask_of_accepts hacc]
      exact Or.inl rfl
    · exact Or.inr (unmapMemFromTask_accepted hacc hpos)
  · rw [unmapMemFromTask_of_refuses hacc]
    exact Or.inl rfl

/-- Freeing memory of the process keeps the window in order, wherever the memory is. -/
theorem windowOk_freeMemFromTask (hk : WindowOk k) (vaddr size : Nat) :
    WindowOk (Mm.freeMemFromTask k vaddr size) := by
  have htable := unmapMemFromTask_table k vaddr size
  rw [← freeMemFromTask_userTable] at htable
  refine windowOk_of_narrows hk (narrows_freeMemFromTask k vaddr size) (fun p hp => ?_) ?_ ?_
  · rcases htable with htable | htable
    · rw [htable, hp]
    · rw [htable]
      exact walk_unmap_none hp
  · rcases htable with htable | htable
    · rw [htable]
      exact KeepsCoarse.refl _
    · rw [htable]
      exact keepsCoarse_unmapMemoryFromPd _ vaddr
  · unfold Mm.freeMemFromTask
    rw [words_pmmFreeRun]
    unfold unmapMemFromTask
    split <;> rfl

/-! ## 2. The mapable area -/

/-- The mapable area is not about the process and its frames. -/
theorem mapable_congr (hm : Mapable k) (hmmm : k'.mmm = k.mmm)
    (htable : k'.kernelTable = k.kernelTable) (hlayout : k'.layout = k.layout) : Mapable k' := by
  refine ⟨⟨?_, ?_⟩, ?_, ?_⟩
  · rw [hmmm]
    exact hm.words
  · rw [hmmm, htable]
    exact hm.free
  · rw [htable]
    exact hm.image
  · rw [hlayout]
    exact hm.smmAbove

/-- A buffer does not touch the mapable area. -/
theorem mapable_allocateMapMemToTask (hm : Mapable k) (size : Nat) :
    Mapable (allocateMapMemToTask k size).2 := by
  unfold allocateMapMemToTask pmmAllocatePages
  simp only
  split
  · exact mapable_congr hm rfl rfl rfl
  · exact mapable_congr hm rfl rfl rfl

theorem mapable_freeMemFromTask (hm : Mapable k) (vaddr size : Nat) :
    Mapable (Mm.freeMemFromTask k vaddr size) := by
  obtain ⟨t, b, h⟩ := freeMemFromTask_rest k vaddr size
  rw [h]
  exact mapable_congr hm rfl rfl rfl

/-- The pages from an address on that the callers of `map_phys_mem` unmap are below the kernel
image. -/
def BelowImage (vaddr size : Nat) : Prop :=
  ∀ i, i < pageRounds size → vaddr + 4096 * i < mmmEnd

theorem unmapPages_succ (k : Kernel) (vaddr n : Nat) :
    unmapPages k vaddr (n + 1) = unmapKernelMemory (unmapPages k vaddr n) (pageAddr vaddr n) := by
  unfold unmapPages
  rw [List.range_succ, List.foldl_append, List.foldl_cons, List.foldl_nil]

/-- Unmapping below the kernel image keeps the mapable area in order. -/
theorem mapable_unmapPages {vaddr : Nat} (hm : Mapable k) :
    ∀ n, (∀ i, i < n → vaddr + 4096 * i < mmmEnd) → Mapable (unmapPages k vaddr n)
  | 0, _ => hm
  | n + 1, h => by
    have hlast := h n (Nat.lt_succ_self n)
    unfold mmmEnd at hlast
    rw [unmapPages_succ, pageAddr_of_lt (by omega)]
    refine mapable_unmapKernelMemory
      (mapable_unmapPages hm n fun i hi => h i (Nat.lt_succ_of_lt hi)) ?_
    unfold l1Index mmmEnd
    omega

/-- What was mapped for a parameter is in the mapable area. -/
theorem belowImage_paramMapped (hm : Mapable k) {paddr size : UInt32}
    (hmapped : (paramMapped k paddr size).1 ≠ 0) :
    BelowImage (paramMapped k paddr size).1 size.toNat := by
  have hpages : k.mmm.pages = 262144 := Bitmap.pages_of_words hm.words
  obtain hnull | ⟨q, h⟩ := mapPhysMem_spec hm.words apSvcRwUsrNo 0 0 0 paddr.toNat_lt size.toNat_lt
  · exact absurd hnull hmapped
  · have haddr := h.addr
    have hinside := h.run.inside
    rw [neededPages_eq paddr.toNat_lt size.toNat_lt, if_pos h.inside] at hinside
    intro i hi
    unfold paramMapped
    rw [haddr]
    unfold pageRounds at hi
    unfold mmmStart mmmEnd
    omega

/-- The window and the mapable area are in order. -/
structure PagesOk (k : Kernel) : Prop where
  window : WindowOk k
  mapable : Mapable k

theorem PagesOk.mapped (h : PagesOk k) (paddr size : UInt32) :
    PagesOk (paramMapped k paddr size).2 := by
  obtain ⟨hproc, hpmm, hphys⟩ := paramMapped_rest k paddr size
  exact ⟨windowOk_congr h.window hproc hpmm hphys,
    mapable_mapPhysMem h.mapable paddr.toNat_lt size.toNat_lt⟩

theorem PagesOk.allocated (h : PagesOk k) (size : UInt32) :
    PagesOk (allocateMapMemToTask k size.toNat).2 :=
  ⟨windowOk_allocateMapMemToTask h.window size.toNat_lt,
    mapable_allocateMapMemToTask h.mapable size.toNat⟩

theorem PagesOk.freed (h : PagesOk k) (vaddr size : Nat) :
    PagesOk (Mm.freeMemFromTask k vaddr size) :=
  ⟨windowOk_freeMemFromTask h.window vaddr size, mapable_freeMemFromTask h.mapable vaddr size⟩

theorem PagesOk.unmapped {vaddr size : Nat} (h : PagesOk k) (hbelow : BelowImage vaddr size) :
    PagesOk (unmapPages k vaddr (pageRounds size)) := by
  refine ⟨?_, mapable_unmapPages h.mapable _ hbelow⟩
  obtain ⟨t, ht⟩ := unmapPages_rest k vaddr (pageRounds size)
  rw [ht]
  exact windowOk_congr h.window rfl rfl rfl

/-! ## 3. One parameter -/

/-- The pages are in order, and a temporary memory that has a buffer can be unmapped. -/
structure ParamsOk (w : ParamWorld) : Prop where
  pages : PagesOk w.k
  temps : ∀ m ∈ w.temps, m.uaddr ≠ 0 → BelowImage m.vaddr m.size.toNat

variable {w w' : ParamWorld} {p : TeecParamter} {paramType : TeecType} {rpc rpc' : TaRpc}
  {ret : UInt32} {allocOk : Fin 4 → Bool} {comOp : TeecomOperation}

/-- A buffer is not larger than the window, and far from the kernel image. -/
theorem belowImage_null (hk : WindowOk k) {size : UInt32}
    (hbuffer : (allocateMapMemToTask k size.toNat).1 ≠ 0) : BelowImage 0 size.toNat := by
  obtain ⟨hnull, -⟩ | ⟨q, f, h⟩ := allocateMapMemToTask_spec hk size.toNat_lt
  · exact absurd hnull hbuffer
  · have hpages : k.proc.membitmap.pages = 25600 := Bitmap.pages_of_words hk.words
    have hinside := h.window.inside
    intro i hi
    unfold pageRounds at hi
    unfold mmmEnd
    omega

theorem paramsOk_swiMapTeeTempRef {ok : Bool} {r : Option TeeTempMemory} (h : ParamsOk w)
    (hmap : swiMapTeeTempRef w p paramType ok = some (r, w')) : ParamsOk w' := by
  obtain ⟨-, -, rfl⟩ | ⟨-, ⟨m, htemps, hsize, hvaddr, huaddr⟩, hk, -⟩ :=
    swiMapTeeTempRef_cases hmap
  · exact h
  have hmapped := h.pages.mapped p.buffer p.size
  refine ⟨?_, fun x hx hbuffer => ?_⟩
  · rw [hk]
    exact hmapped.allocated p.size
  · rw [htemps] at hx
    rcases List.mem_append.mp hx with hx | hx
    · exact h.temps x hx hbuffer
    · obtain rfl := List.mem_singleton.mp hx
      rw [hsize, hvaddr]
      by_cases hnull : (paramMapped w.k p.buffer p.size).1 = 0
      · -- nobody has looked at what `map_phys_mem` returned
        rw [hnull]
        exact belowImage_null hmapped.window (huaddr ▸ hbuffer)
      · exact belowImage_paramMapped h.pages.mapable hnull

theorem paramsOk_registeredToUserspace {i : Fin 4} (h : ParamsOk w)
    (hreg : registeredToUserspace w p paramType rpc i = some (ret, w', rpc')) : ParamsOk w' := by
  obtain ⟨htemps, hout⟩ := registeredToUserspace_cases hreg
  refine ⟨?_, htemps ▸ h.temps⟩
  have hbuffer := h.pages.allocated p.size
  cases hout with
  | unknown => exact h.pages
  | outside => exact h.pages
  | noBuffer _ _ _ hk => exact hk ▸ hbuffer
  | unmapped _ _ _ _ _ hk => exact hk ▸ (hbuffer.mapped _ _).freed _ _
  | handed _ _ _ _ hkernel =>
    obtain hk | ⟨hmapped, hk⟩ := hkernel
    · exact hk ▸ hbuffer
    · exact hk ▸ (hbuffer.mapped _ _).unmapped (belowImage_paramMapped hbuffer.mapable hmapped)

/-- A round of `parameters_to_userspace`. -/
theorem paramsOk_toUserspaceRound {i : Fin 4} {s t : ParamWorld × TaRpc} (h : ParamsOk s.1)
    (hround : toUserspaceRound allocOk comOp s i = some (ret, t)) : ParamsOk t.1 := by
  obtain ⟨-, -, hsame⟩ | ⟨-, -, hsame⟩ | ⟨-, r, hmap, -⟩ | ⟨-, hreg⟩ :=
    toUserspaceRound_cases hround
  · exact hsame ▸ h
  · exact hsame ▸ h
  · exact paramsOk_swiMapTeeTempRef h hmap
  · exact paramsOk_registeredToUserspace h hreg

theorem paramsOk_swiUnmapTeeTempRef {m : TeeTempMemory} (h : ParamsOk w) (hm : m ∈ w.temps)
    (hbuffer : m.uaddr ≠ 0) (hunmap : swiUnmapTeeTempRef w m paramType = some w') :
    ParamsOk w' := by
  obtain ⟨x, hx, rfl⟩ := Option.map_eq_some_iff.mp hunmap
  have hcopied : x.k = w.k ∧ x.temps = w.temps := by
    split at hx
    · exact ⟨k_memcpy hx, temps_memcpy hx⟩
    · obtain rfl := Option.some.inj hx
      exact ⟨rfl, rfl⟩
  obtain ⟨hk, htemps⟩ := hcopied
  refine ⟨?_, fun x' hx' => ?_⟩
  · exact ((hk ▸ h.pages).freed m.uaddr m.size.toNat).unmapped (h.temps m hm hbuffer)
  · exact h.temps x' (htemps ▸ (List.mem_filter.mp hx').1)

theorem paramsOk_registeredFromUserspace {buffer : UInt32} (h : ParamsOk w)
    (hreg : registeredFromUserspace w p paramType buffer = some (ret, w')) : ParamsOk w' := by
  unfold registeredFromUserspace at hreg
  split at hreg
  · obtain ⟨-, rfl⟩ := Prod.mk.inj (Option.some.inj hreg)
    exact h
  rename_i memory _
  split at hreg
  · obtain ⟨-, rfl⟩ := Prod.mk.inj (Option.some.inj hreg)
    exact ⟨h.pages.freed _ _, h.temps⟩
  have hmapped := h.pages.mapped memory.paddr memory.size
  have hbelow := @belowImage_paramMapped w.k h.pages.mapable memory.paddr memory.size
  unfold paramMapped at hmapped hbelow
  simp only at hreg
  generalize mapPhysMem w.k memory.paddr.toNat memory.size.toNat apSvcRwUsrNo 0 0 0 = v
    at hmapped hbelow hreg
  split at hreg
  · obtain ⟨-, rfl⟩ := Prod.mk.inj (Option.some.inj hreg)
    exact ⟨hmapped.freed _ _, h.temps⟩
  · rename_i hne
    obtain ⟨x, hx, hpair⟩ := Option.map_eq_some_iff.mp hreg
    obtain ⟨-, rfl⟩ := Prod.mk.inj hpair
    have hk : x.k = v.2 := k_memcpy hx
    have htemps := temps_memcpy hx
    exact ⟨((hk ▸ hmapped).unmapped (hbelow hne)).freed _ _, htemps ▸ h.temps⟩

/-- A temporary memory that is found at an address has its buffer there. -/
theorem uaddr_of_find {buffer : UInt32} {tid : Nat} {m : TeeTempMemory}
    (h : teeTmpFindByVaddrAndTask w buffer tid = some m) :
    m ∈ w.temps ∧ m.uaddr = buffer.toNat := by
  refine ⟨List.mem_of_find?_eq_some h, ?_⟩
  have htest := List.find?_some h
  exact eq_of_beq (Bool.and_eq_true_iff.mp htest).1

/-- The trustlet gives no temporary memory back at the address 0. -/
def NamesBuffers (comOp : TeecomOperation) (rpc : TaRpc) : Prop :=
  ∀ i, (comOp.type i).isTemp = true → (rpc.teeParam i).word0 ≠ 0

/-- A round of `parameters_from_userspace`. -/
theorem paramsOk_fromUserspaceRound {i : Fin 4} {s t : ParamWorld × TeecomOperation × TaRpc}
    (h : ParamsOk s.1) (hnames : NamesBuffers s.2.1 s.2.2)
    (hround : fromUserspaceRound s i = some (ret, t)) :
    ParamsOk t.1 ∧ NamesBuffers t.2.1 t.2.2 := by
  obtain ⟨htypes, hrpc, hworld⟩ := fromUserspaceRound_cases hround
  have htype : ∀ j, t.2.1.type j = s.2.1.type j := fun j =>
    congrArg (fun x => teeParamTypeGet x j) htypes
  constructor
  · obtain hsame | ⟨htemp, m, hfind, hunmap⟩ | ⟨-, hreg⟩ := hworld
    · exact hsame ▸ h
    · obtain ⟨hm, huaddr⟩ := uaddr_of_find hfind
      refine paramsOk_swiUnmapTeeTempRef h hm (fun hnull => hnames i htemp ?_) hunmap
      exact UInt32.toNat_inj.mp (huaddr.symm.trans hnull)
    · exact paramsOk_registeredFromUserspace h hreg
  · intro j hj
    rw [htype] at hj
    obtain hsame | ⟨hnone, hset⟩ := hrpc
    · rw [hsame]
      exact hnames j hj
    · -- what is set to 0 is no memory
      rw [hset]
      by_cases hji : j = i
      · rw [hji, hnone] at hj
        exact absurd hj (by decide)
      · unfold TaRpc.setParam
        simp only [Function.update_of_ne hji]
        exact hnames j hj

/-! ## 4. Runs of calls -/

/-- A call of one of the two functions; `tee` and `mem` are the registered memories and the bytes of
the memory by then. -/
inductive ParamCall where
  | toUserspace (allocOk : Fin 4 → Bool) (comOp : TeecomOperation) (rpc : TaRpc) (tee : TeeWorld)
      (mem : Mem)
  | fromUserspace (comOp : TeecomOperation) (rpc : TaRpc) (tee : TeeWorld) (mem : Mem)

/-- The state after the call, whatever it returns; `none` if the kernel does not survive it. -/
def paramCall (w : ParamWorld) : ParamCall → Option ParamWorld
  | .toUserspace allocOk comOp rpc tee mem =>
    (parametersToUserspace allocOk comOp rpc { w with tee := tee, mem := mem }).map fun r => r.2.1
  | .fromUserspace comOp rpc tee mem =>
    (parametersFromUserspace comOp rpc { w with tee := tee, mem := mem }).map fun r => r.2.1

/-- No temporary memory is given back at the address 0. -/
def ParamCall.NamesBuffers : ParamCall → Prop
  | .toUserspace .. => True
  | .fromUserspace comOp rpc _ _ => Swi.NamesBuffers comOp rpc

/-- **One call** keeps the pages in order. -/
theorem paramsOk_paramCall {c : ParamCall} (h : ParamsOk w) (hc : c.NamesBuffers)
    (hcall : paramCall w c = some w') : ParamsOk w' := by
  cases c with
  | toUserspace allocOk comOp rpc tee mem =>
    obtain ⟨⟨ret, w'', rpc'⟩, hto, rfl⟩ := Option.map_eq_some_iff.mp hcall
    have h' : ParamsOk { w with tee := tee, mem := mem } := ⟨h.pages, h.temps⟩
    unfold parametersToUserspace at hto
    split at hto
    · exact paramLoop_invariant (fun s : ParamWorld × TaRpc => ParamsOk s.1)
        (fun s i ret t hs hround => paramsOk_toUserspaceRound hs hround) h' hto
    · obtain ⟨-, hpair⟩ := Prod.mk.inj (Option.some.inj hto)
      exact (Prod.mk.inj hpair).1 ▸ h'
  | fromUserspace comOp rpc tee mem =>
    obtain ⟨⟨ret, w'', comOp', rpc'⟩, hfrom, rfl⟩ := Option.map_eq_some_iff.mp hcall
    have h' : ParamsOk { w with tee := tee, mem := mem } := ⟨h.pages, h.temps⟩
    unfold parametersFromUserspace at hfrom
    split at hfrom
    · refine (paramLoop_invariant
        (fun s : ParamWorld × TeecomOperation × TaRpc => ParamsOk s.1 ∧ Swi.NamesBuffers s.2.1 s.2.2)
        (fun s i ret t hs hround => paramsOk_fromUserspaceRound hs.1 hs.2 hround) ?_ hfrom).1
      exact ⟨h', hc⟩
    · obtain ⟨-, hpair⟩ := Prod.mk.inj (Option.some.inj hfrom)
      exact (Prod.mk.inj hpair).1 ▸ h'

/-- **The states that requests reach.**  After any calls of the two functions, in any order and
whatever they returned, no page that is free is mapped, as long as no temporary memory was given
back at the address 0. -/
theorem paramsOk_of_run {cs : List ParamCall} (h : ParamsOk w)
    (hrun : Run (Guarded (fun _ c => c.NamesBuffers) (stepOf paramCall)) w cs w') : ParamsOk w' := by
  refine hrun.invariant (fun u c v hu hstep => ?_) h
  obtain ⟨hc, hcall⟩ := hstep
  exact paramsOk_paramCall hu hc hcall

theorem bootParams_ok : ParamsOk bootParams where
  pages := ⟨bootKernel_windowOk, bootKernel_mapable⟩
  temps := fun _ hm => absurd hm List.not_mem_nil

/-! ## 5. A buffer at 0 -/

/-- An address that one of the rounds unmaps. -/
theorem walk_unmapPages {vaddr va i : Nat} (hlt : vaddr + 4096 * i < 4294967296)
    (hva : va / 0x1000 = (vaddr + 4096 * i) / 0x1000) :
    ∀ n, i < n → walk (unmapPages k vaddr n).kernelTable va = none
  | 0, hi => absurd hi (Nat.not_lt_zero i)
  | n + 1, hi => by
    rw [unmapPages_succ]
    rcases Nat.lt_succ_iff_lt_or_eq.mp hi with hi | rfl
    · exact walk_unmap_none (walk_unmapPages hlt hva n hi)
    · rw [pageAddr_of_lt hlt]
      exact walk_unmap_page _ hva

/-- **A temporary memory that was not mapped** is unmapped from the address 0 on; if it is larger
than 3 GB, the kernel image goes with it. -/
theorem image_unmapped {m : TeeTempMemory} (h : swiUnmapTeeTempRef w m paramType = some w')
    (hvaddr : m.vaddr = 0) (hsize : mmmEnd < m.size.toNat) :
    walk w'.k.kernelTable mmmEnd = none := by
  obtain ⟨x, -, rfl⟩ := Option.map_eq_some_iff.mp h
  have hlast : 0 + 4096 * 0xC0000 = mmmEnd := rfl
  have hrounds : 0xC0000 < pageRounds m.size.toNat := by
    unfold pageRounds
    unfold mmmEnd at hsize
    omega
  show walk (unmapPages _ m.vaddr _).kernelTable mmmEnd = none
  rw [hvaddr]
  exact walk_unmapPages (by rw [hlast]; decide) (by rw [hlast]) _ hrounds

/-- The record of a temporary memory that is neither mapped nor has a buffer. -/
def emptyTemp (w : ParamWorld) (p : TeecParamter) : TeeTempMemory :=
  ⟨w.nextTemp, p.buffer, 0, p.size, w.k.proc.pid, 0⟩

/-- The state with that record. -/
def withEmptyTemp (w : ParamWorld) (p : TeecParamter) : ParamWorld :=
  { w with temps := w.temps ++ [emptyTemp w p], nextTemp := w.nextTemp + 1 }

/-- There is no room for so much memory, neither in the kernel nor in the trustlet, but there is a
record of it. -/
theorem swiMapTeeTempRef_huge (h : PagesOk w.k) (hvalid : isValidNonsecureRamAddr p.buffer = true)
    (hsize : mmmEnd < p.size.toNat) (paramType : TeecType) :
    swiMapTeeTempRef w p paramType true = some (none, withEmptyTemp w p) := by
  have hmap : mapPhysMem w.k p.buffer.toNat p.size.toNat apSvcRwUsrNo 0 0 0 = (0, w.k) := by
    obtain hnull | ⟨q, b', htakes, -⟩ := mapPhysMem_cases h.mapable.words apSvcRwUsrNo 0 0 0
      p.buffer.toNat_lt p.size.toNat_lt
    · exact hnull
    · have hpages := htakes.pages
      have hcount := htakes.count
      unfold mmmEnd at hsize
      omega
  have hbuffer : allocateMapMemToTask w.k p.size.toNat = (0, w.k) := by
    rcases pmmAllocatePages_cases h.window p.size.toNat_lt with
      ⟨hr, -⟩ | ⟨f, b', -, -, -, -, -, hmax⟩
    · simp only [allocateMapMemToTask, hr, if_true]
    · unfold mmmEnd at hsize
      omega
  unfold swiMapTeeTempRef
  rw [if_pos (by rw [hvalid]; rfl)]
  simp only [hmap, hbuffer, if_true, withEmptyTemp, emptyTemp]

/-- A buffer at 0 is that record's, if no other is there. -/
theorem find_emptyTemp (hnone : ∀ m ∈ w.temps, m.uaddr ≠ 0) (p : TeecParamter) :
    teeTmpFindByVaddrAndTask (withEmptyTemp w p) 0 (withEmptyTemp w p).k.proc.pid =
      some (emptyTemp w p) := by
  have hold : w.temps.find? (fun m => m.uaddr == (0 : UInt32).toNat && m.taskId == w.k.proc.pid) =
      none := by
    refine List.find?_eq_none.mpr fun m hm htest => hnone m hm ?_
    exact eq_of_beq (Bool.and_eq_true_iff.mp htest).1
  unfold teeTmpFindByVaddrAndTask withEmptyTemp
  rw [List.find?_append, hold]
  simp [emptyTemp]

/-- **Where the address 0 leads.**  The normal world asks for more than 3 GB; that fails.  When the
trustlet gives back a buffer at 0 later, the kernel image is not mapped any more. -/
theorem null_unmaps_image {i : Fin 4} (h : ParamsOk w) (hnone : ∀ m ∈ w.temps, m.uaddr ≠ 0)
    (htype : comOp.type i = .memrefTempInput) (hok : allocOk i = true)
    (hvalid : isValidNonsecureRamAddr (comOp.params i).buffer = true)
    (hsize : mmmEnd < (comOp.params i).size.toNat) :
    ∃ u, toUserspaceRound allocOk comOp (w, rpc) i = some (teeErrorCommunication, u, rpc) ∧
      ((rpc'.teeParam i).word0 = 0 → ∃ w',
        fromUserspaceRound (u, comOp, rpc') i = some (teeSuccess, w', comOp, rpc') ∧
          walk w'.k.kernelTable mmmEnd = none) := by
  refine ⟨withEmptyTemp w (comOp.params i), ?_, fun hnull => ?_⟩
  · unfold toUserspaceRound
    simp only [htype, hok, swiMapTeeTempRef_huge h.pages hvalid hsize]
  · obtain ⟨w', hunmap⟩ : ∃ w', swiUnmapTeeTempRef (withEmptyTemp w (comOp.params i))
        (emptyTemp w (comOp.params i)) .memrefTempInput = some w' := by
      unfold swiUnmapTeeTempRef
      rw [if_neg (by decide)]
      exact ⟨_, rfl⟩
    refine ⟨w', ?_, image_unmapped hunmap rfl hsize⟩
    unfold fromUserspaceRound
    simp only [htype, hnull, find_emptyTemp hnone, hunmap, Option.map_some]

end AndixOs.Swi
