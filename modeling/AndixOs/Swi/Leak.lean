/-
# What a request takes and gives back

A memory reference takes frames, a run of pages of the trustlet's window, mapable kernel pages and
perhaps a temporary memory.  `parameters_from_userspace` is to give all of it back.  The pages of
the window are never given back: nothing that the two functions call marks a page of `membitmap`
free.  So a request leaves things as they were when it has no memory reference, and only then
(`requests_leak_iff`).
-/
import AndixOs.Swi.Params
import AndixOs.Mm.Allocators

namespace AndixOs.Swi

open AndixOs AndixOs.Mm AndixOs.Tee

/-! ## 1. What should be the same, and when it is -/

/-- The resources are as before. -/
structure SameResources (w w' : ParamWorld) : Prop where
  pmm : w'.k.pmm = w.k.pmm
  mmm : w'.k.mmm = w.k.mmm
  membitmap : w'.k.proc.membitmap = w.k.proc.membitmap
  kernelTable : ∀ va, walk w'.k.kernelTable va = walk w.k.kernelTable va
  userTable : ∀ va, walk w'.k.proc.vuserPD va = walk w.k.proc.vuserPD va
  temps : w'.temps = w.temps

theorem SameResources.refl (w : ParamWorld) : SameResources w w :=
  ⟨rfl, rfl, rfl, fun _ => rfl, fun _ => rfl, rfl⟩

theorem SameResources.trans {w u v : ParamWorld} (h : SameResources w u)
    (h' : SameResources u v) : SameResources w v where
  pmm := h'.pmm.trans h.pmm
  mmm := h'.mmm.trans h.mmm
  membitmap := h'.membitmap.trans h.membitmap
  kernelTable := fun va => (h'.kernelTable va).trans (h.kernelTable va)
  userTable := fun va => (h'.userTable va).trans (h.userTable va)
  temps := h'.temps.trans h.temps

/-- A memory reference of any kind. -/
def TeecType.isMemref (t : TeecType) : Bool := t.isTemp || t.isRegistered

/-- The operation is not valid, or none of its parameters is a memory reference. -/
def TeecomOperation.onlyValues (op : TeecomOperation) : Bool :=
  op.valid != 1 || (List.finRange 4).all fun i => !(op.type i).isMemref

/-- The bitmap of the window has its place in the process structure, and the frames begin at a page
boundary, as `init_vmm` has it. -/
structure WindowShape (k : Kernel) : Prop where
  words : k.proc.membitmap.words = membitmapWords
  aligned : k.physStart % 4096 = 0

/-! ## 2. The pages of the window -/

/-- No page of the window has become free. -/
structure Narrows (k k' : Kernel) : Prop where
  words : k'.proc.membitmap.words = k.proc.membitmap.words
  physStart : k'.physStart = k.physStart
  free : ∀ p, k'.proc.membitmap.isFree p = true → k.proc.membitmap.isFree p = true

/-- Some page of the window is no longer free. -/
def LosesPage (k k' : Kernel) : Prop :=
  ∃ p, k.proc.membitmap.isFree p = true ∧ k'.proc.membitmap.isFree p = false

variable {k k' k'' : Kernel}

theorem Narrows.refl (k : Kernel) : Narrows k k := ⟨rfl, rfl, fun _ h => h⟩

theorem Narrows.trans (h : Narrows k k') (h' : Narrows k' k'') : Narrows k k'' where
  words := h'.words.trans h.words
  physStart := h'.physStart.trans h.physStart
  free := fun p hp => h.free p (h'.free p hp)

theorem Narrows.shape (h : Narrows k k') (hk : WindowShape k) : WindowShape k' where
  words := h.words.trans hk.words
  aligned := by
    rw [h.physStart]
    exact hk.aligned

/-- A page lost earlier or later is lost. -/
theorem LosesPage.later (h : LosesPage k k') (h' : Narrows k' k'') : LosesPage k k'' := by
  obtain ⟨p, hfree, hlost⟩ := h
  refine ⟨p, hfree, ?_⟩
  by_contra hne
  have hp := h'.free p (by simpa using hne)
  exact absurd (hp.symm.trans hlost) (by simp)

theorem LosesPage.earlier (h : Narrows k k') (h' : LosesPage k' k'') : LosesPage k k'' := by
  obtain ⟨p, hfree, hlost⟩ := h'
  exact ⟨p, h.free p hfree, hlost⟩

/-- A lost page shows in the bitmap. -/
theorem LosesPage.ne (h : LosesPage k k') : k'.proc.membitmap ≠ k.proc.membitmap := by
  obtain ⟨p, hfree, hlost⟩ := h
  intro heq
  rw [heq, hfree] at hlost
  exact absurd hlost (by simp)

/-! ## 3. The functions of the memory management -/

/-- Mapping physical memory leaves the process and the frames alone. -/
theorem mapPhysMem_rest (k : Kernel) (paddr size access cache buffer nonsecure : Nat) :
    ∃ t b, (mapPhysMem k paddr size access cache buffer nonsecure).2 =
      { k with kernelTable := t, mmm := b } := by
  unfold mapPhysMem mmmAllocatePages
  simp only
  split
  · exact ⟨_, _, rfl⟩
  · split <;> exact ⟨_, _, rfl⟩

/-- Unmapping what was mapped only touches the kernel's table. -/
theorem unmapPages_rest (k : Kernel) (vaddr rounds : Nat) :
    ∃ t, unmapPages k vaddr rounds = { k with kernelTable := t } := by
  induction rounds with
  | zero => exact ⟨_, rfl⟩
  | succ n ih =>
    obtain ⟨t, ht⟩ := ih
    unfold unmapPages at ht ⊢
    rw [List.range_succ, List.foldl_append, List.foldl_cons, List.foldl_nil, ht]
    exact ⟨_, rfl⟩

/-- Freeing memory of the process changes its table and the frames, and not its bitmap. -/
theorem freeMemFromTask_rest (k : Kernel) (vaddr size : Nat) :
    ∃ t b, Mm.freeMemFromTask k vaddr size =
      { k with pmm := b, proc := { k.proc with vuserPD := t } } := by
  have hfree : ∀ (k : Kernel) (paddr n : Nat), ∃ b, pmmFreeRun k paddr n = { k with pmm := b } := by
    intro k paddr n
    induction n with
    | zero => exact ⟨_, rfl⟩
    | succ n ih =>
      obtain ⟨b, hb⟩ := ih
      unfold pmmFreeRun at hb ⊢
      rw [List.range_succ, List.foldl_append, List.foldl_cons, List.foldl_nil, hb]
      exact ⟨_, rfl⟩
  obtain ⟨b, hb⟩ := hfree (unmapMemFromTask k vaddr size) (vToP k vaddr) (pageRounds size)
  unfold Mm.freeMemFromTask
  rw [hb]
  unfold unmapMemFromTask
  split <;> exact ⟨_, _, rfl⟩

theorem narrows_mapPhysMem (k : Kernel) (paddr size access cache buffer nonsecure : Nat) :
    Narrows k (mapPhysMem k paddr size access cache buffer nonsecure).2 := by
  obtain ⟨t, b, h⟩ := mapPhysMem_rest k paddr size access cache buffer nonsecure
  rw [h]
  exact ⟨rfl, rfl, fun _ hp => hp⟩

theorem narrows_unmapPages (k : Kernel) (vaddr rounds : Nat) :
    Narrows k (unmapPages k vaddr rounds) := by
  obtain ⟨t, h⟩ := unmapPages_rest k vaddr rounds
  rw [h]
  exact ⟨rfl, rfl, fun _ hp => hp⟩

theorem narrows_freeMemFromTask (k : Kernel) (vaddr size : Nat) :
    Narrows k (Mm.freeMemFromTask k vaddr size) := by
  obtain ⟨t, b, h⟩ := freeMemFromTask_rest k vaddr size
  rw [h]
  exact ⟨rfl, rfl, fun _ hp => hp⟩

/-- A search returns the address of a page, or 0. -/
theorem allocatePages_aligned (b : Bitmap) {base : Nat} (n : Nat) (hb : base % 4096 = 0) :
    (allocatePages b base n).1 % 4096 = 0 := by
  unfold allocatePages
  split
  · rfl
  · simp only [w32]
    omega

theorem neededPages_lt (ptr size : Nat) : neededPages ptr size < 4294967296 := by
  have hlt := w32_lt (ptr + size)
  unfold neededPages
  split <;> omega

/-- **A buffer takes pages of the window**: the call changes nothing there and returns `NULL`, or it
returns an address and has taken at least one page. -/
theorem allocateMapMemToTask_window (hk : WindowShape k) (size : Nat) :
    Narrows k (allocateMapMemToTask k size).2 ∧
      ((allocateMapMemToTask k size).1 = 0 ∨ LosesPage k (allocateMapMemToTask k size).2) := by
  have hpages : k.proc.membitmap.pages < 4294967295 := by
    unfold Bitmap.pages
    rw [hk.words]
    decide
  have hphys := allocatePages_aligned k.pmm (neededPages 0 size) hk.aligned
  unfold allocateMapMemToTask pmmAllocatePages
  simp only
  generalize allocatePages k.pmm k.physStart (neededPages 0 size) = r at hphys ⊢
  obtain ⟨phys, b⟩ := r
  simp only at hphys ⊢
  split
  · exact ⟨⟨rfl, rfl, fun _ h => h⟩, Or.inl rfl⟩
  · unfold mapMemToTask allocateTaskMappedPageFrames
    simp only
    rcases allocatePages_takes k.proc.membitmap userStartMappedMem (neededPages_lt phys size)
      hpages with h | ⟨q, w', h, ht⟩
    · rw [h]
      refine ⟨⟨rfl, rfl, fun _ hp => hp⟩, Or.inl ?_⟩
      simp only [Nat.zero_div, Nat.zero_mul, Nat.zero_add]
      exact hphys
    · rw [h]
      have hpos := ht.some_page
      refine ⟨⟨ht.words, rfl, fun p hp => ?_⟩, Or.inr ⟨q, ht.free q (le_refl q) (by omega), ?_⟩⟩
      · rw [ht.marked] at hp
        exact (Bool.and_eq_true_iff.mp hp).1
      · rw [ht.marked, decide_eq_true (by omega)]
        exact Bool.and_false _

/-! ## 4. The memory references -/

variable {w w' u : ParamWorld} {p : TeecParamter} {paramType : TeecType} {rpc rpc' : TaRpc}

/-- A copy changes the bytes of the memory. -/
theorem k_memcpy {dest src count : Nat} (h : w.memcpy dest src count = some w') : w'.k = w.k := by
  unfold ParamWorld.memcpy at h
  split at h
  · obtain rfl := Option.some.inj h
    rfl
  · exact absurd h (by simp)

/-- `swi_map_tee_temp_ref` that returns a memory. -/
theorem swiMapTeeTempRef_window {allocOk : Bool} {m : TeeTempMemory} (hk : WindowShape w.k)
    (h : swiMapTeeTempRef w p paramType allocOk = some (some m, w')) :
    Narrows w.k w'.k ∧ LosesPage w.k w'.k := by
  unfold swiMapTeeTempRef at h
  split at h
  · have hmap := narrows_mapPhysMem w.k p.buffer.toNat p.size.toNat apSvcRwUsrNo 0 0 0
    generalize mapPhysMem w.k p.buffer.toNat p.size.toNat apSvcRwUsrNo 0 0 0 = v at hmap h
    obtain ⟨hnar, hlost⟩ := allocateMapMemToTask_window (hmap.shape hk) p.size.toNat
    simp only at h
    generalize allocateMapMemToTask v.2 p.size.toNat = r at hnar hlost h
    split at h
    · exact absurd h (by simp)
    · rename_i hne
      have hk' : w'.k = r.2 := by
        split at h
        · obtain ⟨x, hx, hpair⟩ := Option.map_eq_some_iff.mp h
          obtain ⟨-, rfl⟩ := Prod.mk.inj hpair
          exact k_memcpy hx
        · obtain ⟨-, rfl⟩ := Prod.mk.inj (Option.some.inj h)
          rfl
      rw [hk']
      exact ⟨hmap.trans hnar, (hlost.resolve_left hne).earlier hmap⟩
  · exact absurd h (by simp)

/-- `swi_unmap_tee_temp_ref` gives no page back. -/
theorem narrows_swiUnmapTeeTempRef {m : TeeTempMemory}
    (h : swiUnmapTeeTempRef w m paramType = some w') : Narrows w.k w'.k := by
  obtain ⟨x, hx, rfl⟩ := Option.map_eq_some_iff.mp h
  have hxk : x.k = w.k := by
    split at hx
    · exact k_memcpy hx
    · obtain rfl := Option.some.inj hx
      rfl
  rw [← hxk]
  exact (narrows_freeMemFromTask x.k m.uaddr m.size.toNat).trans (narrows_unmapPages _ _ _)

/-- A reference to registered memory that is handed over. -/
theorem registeredToUserspace_window {i : Fin 4} (hk : WindowShape w.k)
    (h : registeredToUserspace w p paramType rpc i = some (teeSuccess, w', rpc')) :
    Narrows w.k w'.k ∧ LosesPage w.k w'.k := by
  unfold registeredToUserspace at h
  split at h
  · exact absurd (Prod.mk.inj (Option.some.inj h)).1 (by decide)
  · rename_i memory _
    split at h
    · exact absurd (Prod.mk.inj (Option.some.inj h)).1 (by decide)
    · obtain ⟨hnar, hlost⟩ := allocateMapMemToTask_window hk p.size.toNat
      generalize allocateMapMemToTask w.k p.size.toNat = r at hnar hlost h
      simp only at h
      split at h
      · exact absurd (Prod.mk.inj (Option.some.inj h)).1 (by decide)
      · rename_i hne
        have hlost := hlost.resolve_left hne
        split at h
        · simp only [Option.some.injEq, Prod.mk.injEq] at h
          obtain ⟨-, rfl, -⟩ := h
          exact ⟨hnar, hlost⟩
        · have hmap := narrows_mapPhysMem r.2 memory.paddr.toNat memory.size.toNat apSvcRwUsrNo
            0 0 0
          generalize mapPhysMem r.2 memory.paddr.toNat memory.size.toNat apSvcRwUsrNo 0 0 0 = v
            at hmap h
          split at h
          · exact absurd (Prod.mk.inj (Option.some.inj h)).1 (by decide)
          · obtain ⟨x, hx, hpair⟩ := Option.map_eq_some_iff.mp h
            simp only [Prod.mk.injEq] at hpair
            obtain ⟨-, rfl, -⟩ := hpair
            have hrest := hmap.trans (narrows_unmapPages v.2 v.1 (pageRounds memory.size.toNat))
            rw [← show x.k = v.2 from k_memcpy hx] at hrest
            exact ⟨hnar.trans hrest, hlost.later hrest⟩

/-- A reference to registered memory that is brought back gives no page back. -/
theorem narrows_registeredFromUserspace {buffer ret : UInt32}
    (h : registeredFromUserspace w p paramType buffer = some (ret, w')) : Narrows w.k w'.k := by
  unfold registeredFromUserspace at h
  split at h
  · obtain ⟨-, rfl⟩ := Prod.mk.inj (Option.some.inj h)
    exact Narrows.refl w.k
  · rename_i memory _
    split at h
    · obtain ⟨-, rfl⟩ := Prod.mk.inj (Option.some.inj h)
      exact narrows_freeMemFromTask _ _ _
    · have hmap := narrows_mapPhysMem w.k memory.paddr.toNat memory.size.toNat apSvcRwUsrNo 0 0 0
      generalize mapPhysMem w.k memory.paddr.toNat memory.size.toNat apSvcRwUsrNo 0 0 0 = v
        at hmap h
      simp only at h
      split at h
      · obtain ⟨-, rfl⟩ := Prod.mk.inj (Option.some.inj h)
        exact hmap.trans (narrows_freeMemFromTask _ _ _)
      · obtain ⟨x, hx, hpair⟩ := Option.map_eq_some_iff.mp h
        obtain ⟨-, rfl⟩ := Prod.mk.inj hpair
        have hxk : x.k = v.2 := k_memcpy hx
        rw [← hxk] at hmap
        exact hmap.trans ((narrows_unmapPages _ _ _).trans (narrows_freeMemFromTask _ _ _))

/-! ## 5. The rounds -/

/-- A round of `parameters_to_userspace` that succeeds: a memory reference takes pages of the
window, and a value changes nothing. -/
theorem toUserspaceRound_window {allocOk : Fin 4 → Bool} {comOp : TeecomOperation} {i : Fin 4}
    {s t : ParamWorld × TaRpc} (hk : WindowShape s.1.k)
    (h : toUserspaceRound allocOk comOp s i = some (teeSuccess, t)) :
    Narrows s.1.k t.1.k ∧
      if (comOp.type i).isMemref = true then LosesPage s.1.k t.1.k else t.1 = s.1 := by
  obtain ⟨hvalue, -, hsame⟩ | ⟨-, hret, -⟩ | ⟨htype, r, hmap, hr⟩ | ⟨htype, hreg⟩ :=
    toUserspaceRound_cases h
  · have hno : (comOp.type i).isMemref = false := by
      revert hvalue
      cases comOp.type i <;> decide
    rw [if_neg (by rw [hno]; decide), hsame]
    exact ⟨Narrows.refl _, rfl⟩
  · exact absurd hret (by decide)
  · obtain ⟨m, rfl⟩ := Option.ne_none_iff_exists'.mp (hr.mp rfl)
    rw [if_pos (by unfold TeecType.isMemref; rw [htype, Bool.true_or])]
    exact swiMapTeeTempRef_window hk hmap
  · rw [if_pos (by unfold TeecType.isMemref; rw [htype, Bool.or_true])]
    exact registeredToUserspace_window hk hreg

/-- A round of `parameters_from_userspace`: no page of the window is given back, and a value
changes nothing. -/
theorem fromUserspaceRound_window {i : Fin 4} {s t : ParamWorld × TeecomOperation × TaRpc}
    {ret : UInt32} (h : fromUserspaceRound s i = some (ret, t)) :
    t.2.1.paramTypes = s.2.1.paramTypes ∧ Narrows s.1.k t.1.k ∧
      ((s.2.1.type i).isMemref = false → t.1 = s.1) := by
  obtain ⟨htypes, -, hsame | ⟨htype, m, -, hunmap⟩ | ⟨htype, hreg⟩⟩ := fromUserspaceRound_cases h
  · exact ⟨htypes, hsame ▸ Narrows.refl _, fun _ => hsame⟩
  · refine ⟨htypes, narrows_swiUnmapTeeTempRef hunmap, fun hno => ?_⟩
    unfold TeecType.isMemref at hno
    rw [htype] at hno
    exact absurd hno (by simp)
  · refine ⟨htypes, narrows_registeredFromUserspace hreg, fun hno => ?_⟩
    unfold TeecType.isMemref at hno
    rw [htype, Bool.or_true] at hno
    exact absurd hno (by simp)

/-! ## 6. Requests -/

/-- The rounds that `parameters_to_userspace` has made. -/
theorem toUserspace_window {allocOk : Fin 4 → Bool} {comOp : TeecomOperation} {is : List (Fin 4)}
    {s t : ParamWorld × TaRpc}
    (hrun : Run (fun s i t => toUserspaceRound allocOk comOp s i = some (teeSuccess, t)) s is t)
    (hk : WindowShape s.1.k) :
    Narrows s.1.k t.1.k ∧ ((∃ i ∈ is, (comOp.type i).isMemref = true) → LosesPage s.1.k t.1.k) ∧
      ((∀ i ∈ is, (comOp.type i).isMemref = false) → t.1 = s.1) := by
  induction hrun with
  | nil s => exact ⟨Narrows.refl _, by simp, fun _ => rfl⟩
  | @cons s t u i is h _ ih =>
    obtain ⟨hnar, hround⟩ := toUserspaceRound_window hk h
    obtain ⟨hnar', hlost, hsame⟩ := ih (hnar.shape hk)
    refine ⟨hnar.trans hnar', ?_, fun hall => ?_⟩
    · rintro ⟨j, hj, hmem⟩
      rcases List.mem_cons.mp hj with rfl | hj
      · rw [if_pos hmem] at hround
        exact hround.later hnar'
      · exact (hlost ⟨j, hj, hmem⟩).earlier hnar
    · rw [if_neg (by simp [hall i List.mem_cons_self])] at hround
      exact (hsame fun j hj => hall j (List.mem_cons_of_mem i hj)).trans hround

/-- The rounds that `parameters_from_userspace` has made. -/
theorem fromUserspace_window {is : List (Fin 4)} {s t : ParamWorld × TeecomOperation × TaRpc}
    (hrun : Run (fun s i t => fromUserspaceRound s i = some (teeSuccess, t)) s is t) :
    Narrows s.1.k t.1.k ∧ ((∀ i ∈ is, (s.2.1.type i).isMemref = false) → t.1 = s.1) := by
  induction hrun with
  | nil s => exact ⟨Narrows.refl _, fun _ => rfl⟩
  | @cons s t u i is h _ ih =>
    obtain ⟨htypes, hnar, hround⟩ := fromUserspaceRound_window h
    refine ⟨hnar.trans ih.1, fun hall => ?_⟩
    have htype : ∀ j, t.2.1.type j = s.2.1.type j := fun j =>
      congrArg (fun x => teeParamTypeGet x j) htypes
    refine (ih.2 fun j hj => ?_).trans (hround (hall i List.mem_cons_self))
    rw [htype]
    exact hall j (List.mem_cons_of_mem i hj)

/-- **One request**: with a memory reference it costs a page of the window, and without one it
changes nothing that is counted. -/
theorem serveParams_window {q : ParamRequest} (hk : WindowShape w.k)
    (h : serveParams w q = some w') :
    Narrows w.k w'.k ∧
      if q.comOp.onlyValues = true then SameResources w w' else LosesPage w.k w'.k := by
  obtain ⟨u, rpc, comOp, rpc', hto, hfrom⟩ := serveParams_cases h
  unfold parametersToUserspace at hto
  unfold parametersFromUserspace at hfrom
  unfold TeecomOperation.onlyValues
  by_cases hvalid : q.comOp.valid = 1
  · rw [if_pos hvalid] at hto hfrom
    obtain ⟨hnar, hlost, hsame⟩ := toUserspace_window (run_of_paramLoop hto) hk
    obtain ⟨hnar', hsame'⟩ := fromUserspace_window (run_of_paramLoop hfrom)
    simp only at hnar hlost hsame hnar' hsame'
    refine ⟨hnar.trans hnar', ?_⟩
    split
    · rename_i hall
      simp only [hvalid, bne_self_eq_false, Bool.false_or, List.all_eq_true,
        Bool.not_eq_true'] at hall
      obtain rfl := hsame hall
      obtain rfl := hsame' hall
      exact ⟨rfl, rfl, rfl, fun _ => rfl, fun _ => rfl, rfl⟩
    · rename_i hsome
      refine (hlost ?_).later hnar'
      by_contra hno
      refine hsome ?_
      simp only [hvalid, bne_self_eq_false, Bool.false_or, List.all_eq_true, Bool.not_eq_true']
      intro i hi
      by_contra hne
      exact hno ⟨i, hi, by simpa using hne⟩
  · rw [if_neg hvalid] at hto hfrom
    simp only [Option.some.injEq, Prod.mk.injEq, true_and] at hto hfrom
    obtain ⟨rfl, -⟩ := hto
    obtain ⟨rfl, -⟩ := hfrom
    refine ⟨Narrows.refl _, ?_⟩
    rw [if_pos (by simp [hvalid])]
    exact ⟨rfl, rfl, rfl, fun _ => rfl, fun _ => rfl, rfl⟩

/-- What a run of requests costs. -/
theorem run_window {qs : List ParamRequest} (hrun : Run (stepOf serveParams) w qs w')
    (hk : WindowShape w.k) :
    Narrows w.k w'.k ∧ ((∃ q ∈ qs, q.comOp.onlyValues = false) → LosesPage w.k w'.k) ∧
      ((∀ q ∈ qs, q.comOp.onlyValues = true) → SameResources w w') := by
  induction hrun with
  | nil w => exact ⟨Narrows.refl _, by simp, fun _ => SameResources.refl w⟩
  | @cons w u w' q qs h _ ih =>
    obtain ⟨hnar, hone⟩ := serveParams_window hk h
    obtain ⟨hnar', hlost, hsame⟩ := ih (hnar.shape hk)
    refine ⟨hnar.trans hnar', ?_, fun hall => ?_⟩
    · rintro ⟨q', hq', hmem⟩
      rcases List.mem_cons.mp hq' with rfl | hq'
      · rw [if_neg (by simp [hmem])] at hone
        exact hone.later hnar'
      · exact (hlost ⟨q', hq', hmem⟩).earlier hnar
    · rw [if_pos (hall q List.mem_cons_self)] at hone
      exact hone.trans (hsame fun q' hq' => hall q' (List.mem_cons_of_mem q hq'))

/-- **When requests leave the resources as they were.**  After any number of requests that were
served, everything is as before exactly when none of them had a memory reference. -/
theorem requests_leak_iff {qs : List ParamRequest} (hk : WindowShape w.k)
    (hrun : Run (stepOf serveParams) w qs w') :
    SameResources w w' ↔ ∀ q ∈ qs, q.comOp.onlyValues = true := by
  obtain ⟨-, hlost, hsame⟩ := run_window hrun hk
  refine ⟨fun h q hq => ?_, hsame⟩
  by_contra hne
  exact (hlost ⟨q, hq, by simpa using hne⟩).ne h.membitmap

/-- Two values in, one out. -/
def valueRequest : ParamRequest where
  comOp := ⟨0x0211, fun _ => ⟨3, 4, 0⟩, 1⟩
  allocOk := fun _ => true
  before := ⟨0, fun _ => ⟨0, 0⟩⟩
  answer := ⟨0x0211, fun _ => ⟨5, 6⟩⟩
  mem := fun _ => 0

/-- A temporary memory of 16 bytes in the normal world's memory. -/
def tempRequest : ParamRequest where
  comOp := ⟨0x0005, fun _ => ⟨0xB0000000, 16, 0⟩, 1⟩
  allocOk := fun _ => true
  before := ⟨0, fun _ => ⟨0, 0⟩⟩
  answer := ⟨0x0005, fun _ => ⟨0x70001000, 16⟩⟩
  mem := fun _ => 0

theorem bootParams_windowShape : WindowShape bootParams.k := ⟨rfl, rfl⟩

/-- Values only, twice. -/
theorem requests_leak_values :
    ∃ w, Run (stepOf serveParams) bootParams [valueRequest, valueRequest] w ∧
      SameResources bootParams w := by
  have hserved : ((serveParams bootParams valueRequest).bind fun w =>
      serveParams w valueRequest).isSome = true := by
    decide +kernel
  obtain ⟨w, hw⟩ := Option.isSome_iff_exists.mp hserved
  obtain ⟨u, hu, hw⟩ := Option.bind_eq_some_iff.mp hw
  have hrun : Run (stepOf serveParams) bootParams [valueRequest, valueRequest] w :=
    Run.cons hu (Run.cons hw (Run.nil w))
  refine ⟨w, hrun, (requests_leak_iff bootParams_windowShape hrun).mpr ?_⟩
  decide

/-- The temporary memory has gone, and the page of the window with it. -/
theorem request_leaks :
    ∃ w, serveParams bootParams tempRequest = some w ∧ w.temps = [] ∧
      ¬ SameResources bootParams w := by
  have hserved : (serveParams bootParams tempRequest).any (fun w =>
      decide (w.temps = []) && !w.k.proc.membitmap.isFree 0) = true := by
    decide +kernel
  obtain ⟨w, hw, htest⟩ := (Option.any_eq_true _ _).mp hserved
  obtain ⟨htemps, hpage⟩ := Bool.and_eq_true_iff.mp htest
  refine ⟨w, hw, of_decide_eq_true htemps, fun h => ?_⟩
  rw [h.membitmap] at hpage
  exact absurd hpage (by decide)

end AndixOs.Swi
