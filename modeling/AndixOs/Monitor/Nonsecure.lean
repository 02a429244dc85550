/-
# When the non-secure world runs

The thread of the non-secure world is in the list of all threads, ready while a TEE request is
served (`SMC_PROCESS_TMEM` does not block it).  What keeps the scheduler from taking it is the order
of the list: it comes last, and while it is ready the TEE thread is ready too, or running.  So once
an SMC is accepted it runs again only through `SSC_NONS_SERVICE`, with the result of the package
written and the three structures unmapped (`nonsecure_returns`).
-/
import AndixOs.Lib.Run
import AndixOs.Monitor.Steps

namespace AndixOs.Monitor

open Mm

/-! ## 1. The structures of the package -/

/-- An address of the mapable area. -/
def InArea (v : Nat) : Prop := mmmStart ≤ v ∧ v < mmmEnd

def TzState.Unmapped (s : TzState) : Prop := s.package = 0 ∧ s.teeMem = 0 ∧ s.comMem = 0

def TzState.Mapped (s : TzState) : Prop := InArea s.package ∧ InArea s.teeMem ∧ InArea s.comMem

/-- Each address is `NULL` or in the area. -/
structure TzOk (s : TzState) : Prop where
  mapable : Mapable s.k
  package : s.package = 0 ∨ InArea s.package
  teeMem : s.teeMem = 0 ∨ InArea s.teeMem
  comMem : s.comMem = 0 ∨ InArea s.comMem

theorem InArea.ne_zero {v : Nat} (h : InArea v) : v ≠ 0 := by
  unfold InArea mmmStart at h
  omega

theorem TzState.Unmapped.ok {s : TzState} (h : s.Unmapped) (hk : Mapable s.k) : TzOk s :=
  ⟨hk, Or.inl h.1, Or.inl h.2.1, Or.inl h.2.2⟩

theorem TzState.Mapped.ok {s : TzState} (h : s.Mapped) (hk : Mapable s.k) : TzOk s :=
  ⟨hk, Or.inr h.1, Or.inr h.2.1, Or.inr h.2.2⟩

/-- What one unmapping does: the state stays well-formed, the address is not mapped any more, and
nothing is mapped that was not. -/
theorem unmapMemory_area {k k' : Kernel} {v size : Nat} (hk : Mapable k) (hv : InArea v)
    (hsize : size ≤ 1040) (h : unmapMemory k v size = some k') :
    Mapable k' ∧ walk k'.kernelTable v = none ∧
      ∀ va, walk k.kernelTable va = none → walk k'.kernelTable va = none := by
  obtain ⟨h1, h2⟩ := hv
  have hwrap : v + size < 4294967296 := by
    unfold mmmEnd at h2
    omega
  exact ⟨mapable_unmapMemory hk h, walk_unmapMemory h1 h2 hwrap h (Or.inl rfl),
    fun va hva => walk_unmapMemory h1 h2 hwrap h (Or.inr hva)⟩

/-- The unmapping of one of the structures, at `v`. -/
theorem freeSpace_spec {v size : Nat} {f : Kernel → TzState} {s s' : TzState} (hk : Mapable s.k)
    (hv : v = 0 ∨ InArea v) (hsize : size ≤ 1040) (hs : v = 0 → s = f s.k)
    (h : (if v ≠ 0 then (unmapMemory s.k v size).map f else some s) = some s') :
    ∃ k', s' = f k' ∧ Mapable k' ∧ (v ≠ 0 → walk k'.kernelTable v = none) ∧
      ∀ va, walk s.k.kernelTable va = none → walk k'.kernelTable va = none := by
  by_cases h0 : v = 0
  · rw [if_neg (not_not.mpr h0)] at h
    exact ⟨s.k, (Option.some.inj h).symm.trans (hs h0), hk, fun hne => absurd h0 hne,
      fun _ hva => hva⟩
  · rw [if_pos h0] at h
    obtain ⟨k', hun, rfl⟩ := Option.map_eq_some_iff.mp h
    obtain ⟨h1, h2, h3⟩ := unmapMemory_area hk (hv.resolve_left h0) hsize hun
    exact ⟨k', rfl, h1, fun _ => h2, h3⟩

/-- **`free_tz_package`** leaves the three addresses `NULL`, and the bytes they led to unmapped. -/
theorem freeTzPackage_spec {s s' : TzState} (hs : TzOk s) (h : freeTzPackage s = some s') :
    s'.Unmapped ∧ Mapable s'.k ∧
      ∀ v, v = s.package ∨ v = s.teeMem ∨ v = s.comMem → v ≠ 0 →
        walk s'.k.kernelTable v = none := by
  obtain ⟨k, p, t, c⟩ := s
  obtain ⟨hk, hp, ht, hc⟩ := hs
  simp only at hk hp ht hc ⊢
  obtain ⟨s1, hfree1, h⟩ := Option.bind_eq_some_iff.mp h
  obtain ⟨s2, hfree2, hfree3⟩ := Option.bind_eq_some_iff.mp h
  obtain ⟨k1, rfl, hk1, hp1, -⟩ := freeSpace_spec (f := fun k => ⟨k, 0, t, c⟩) hk hp (by decide)
    (fun h0 => congrArg (TzState.mk k · t c) h0) hfree1
  obtain ⟨k2, rfl, hk2, ht2, hkeep2⟩ := freeSpace_spec (f := fun k => ⟨k, 0, 0, c⟩) hk1 ht
    (by decide) (fun h0 => congrArg (TzState.mk k1 0 · c) h0) hfree2
  obtain ⟨k3, rfl, hk3, hc3, hkeep3⟩ := freeSpace_spec (f := fun k => ⟨k, 0, 0, 0⟩) hk2 hc
    (by decide) (fun h0 => congrArg (TzState.mk k2 0 0 ·) h0) hfree3
  refine ⟨⟨rfl, rfl, rfl⟩, hk3, ?_⟩
  rintro v (rfl | rfl | rfl) hv
  · exact hkeep3 _ (hkeep2 _ (hp1 hv))
  · exact hkeep3 _ (ht2 hv)
  · exact hc3 hv

/-- Mapping one of the structures. -/
theorem mapNonsecure_area {k : Kernel} (hk : Mapable k) (paddr : UInt32) {size : Nat}
    (hsize : size < 4294967296) :
    ((mapNonsecure k paddr.toNat size).1 = 0 ∨ InArea (mapNonsecure k paddr.toNat size).1) ∧
      Mapable (mapNonsecure k paddr.toNat size).2 := by
  refine ⟨?_, mapable_mapPhysMem hk paddr.toNat_lt hsize⟩
  refine (mapPhysMem_spec hk.words apSvcRwUsrNo 0 0 1 paddr.toNat_lt hsize).imp id ?_
  rintro ⟨q, hm⟩
  have haddr := hm.addr
  have hinside := hm.run.inside
  have hpages := neededPages_eq paddr.toNat_lt hsize
  rw [if_pos hm.inside] at hpages
  unfold Bitmap.pages at hinside
  rw [hk.words] at hinside
  unfold InArea mapNonsecure mmmStart mmmEnd
  unfold mmmStart at haddr
  omega

/-- **`set_tz_tee_memory`** where none is mapped. -/
theorem setTzTeeMemory_spec {s s' : TzState} {r : Int} {ptr : UInt32} (hs : TzOk s)
    (h0 : s.teeMem = 0) (h : setTzTeeMemory s ptr.toNat = some (r, s')) :
    TzOk s' ∧ (r = 0 → InArea s'.teeMem) ∧ s'.package = s.package ∧ s'.comMem = s.comMem ∧
      s'.teeMem = (mapNonsecure s.k ptr.toNat sizeofTzTeeSpace).1 := by
  have hfree : freeTzTeeMemory s = some s := if_neg (not_not.mpr h0)
  obtain ⟨hv, hk⟩ := mapNonsecure_area hs.mapable ptr (show sizeofTzTeeSpace < 4294967296 by decide)
  unfold setTzTeeMemory at h
  rw [hfree] at h
  obtain ⟨rfl, rfl⟩ := Prod.mk.inj (Option.some.inj h)
  refine ⟨⟨hk, hs.package, hv, hs.comMem⟩, fun hr => hv.resolve_left fun hz => ?_, rfl, rfl, rfl⟩
  rw [if_pos hz] at hr
  exact absurd hr (by decide)

/-- **`set_tz_communication_memory`** where none is mapped. -/
theorem setTzCommunicationMemory_spec {s s' : TzState} {r : Int} {ptr : UInt32} (hs : TzOk s)
    (h0 : s.comMem = 0) (h : setTzCommunicationMemory s ptr.toNat = some (r, s')) :
    TzOk s' ∧ (r = 0 → InArea s'.comMem) ∧ s'.package = s.package ∧ s'.teeMem = s.teeMem := by
  have hfree : freeTzCommunicationMemory s = some s := if_neg (not_not.mpr h0)
  obtain ⟨hv, hk⟩ := mapNonsecure_area hs.mapable ptr (show sizeofTzCtlrSpace < 4294967296 by decide)
  unfold setTzCommunicationMemory at h
  rw [hfree] at h
  obtain ⟨rfl, rfl⟩ := Prod.mk.inj (Option.some.inj h)
  refine ⟨⟨hk, hs.package, hs.teeMem, hv⟩, fun hr => hv.resolve_left fun hz => ?_, rfl, rfl⟩
  rw [if_pos hz] at hr
  exact absurd hr (by decide)

/-- Where `set_tz_package` maps the package and the TEE space. -/
def MappedAt (s s' : TzState) (paddr teePaddr : UInt32) : Prop :=
  s'.Mapped ∧ s'.package = (mapNonsecure s.k paddr.toNat sizeofTzPackage).1 ∧
    s'.teeMem = (mapNonsecure (mapNonsecure s.k paddr.toNat sizeofTzPackage).2 teePaddr.toNat
      sizeofTzTeeSpace).1

/-- **`set_tz_package`** maps all three structures, or none. -/
theorem setTzPackage_spec {s s' : TzState} {r : Int} {paddr teePaddr ctrlPaddr : UInt32}
    (hs : s.Unmapped) (hk : Mapable s.k)
    (h : setTzPackage s paddr.toNat teePaddr.toNat ctrlPaddr.toNat = some (r, s')) :
    Mapable s'.k ∧ (s'.Unmapped ∨ MappedAt s s' paddr teePaddr) := by
  have hfree : freeTzPackage s = some s := by
    simp only [freeTzPackage, freeTzPackageOnly, freeTzTeeMemory, freeTzCommunicationMemory, hs.1,
      hs.2.1, hs.2.2, ne_eq, not_true, if_false, Option.bind_eq_bind, Option.bind_some]
  have hback : ∀ {s1 : TzState}, TzOk s1 →
      (freeTzPackage s1).bind (fun s => some ((-1 : Int), s)) = some (r, s') →
      Mapable s'.k ∧ (s'.Unmapped ∨ MappedAt s s' paddr teePaddr) := by
    intro s1 h1 hb
    obtain ⟨s2, hs2, heq⟩ := Option.bind_eq_some_iff.mp hb
    obtain ⟨-, rfl⟩ := Prod.mk.inj (Option.some.inj heq)
    obtain ⟨hun, hk2, -⟩ := freeTzPackage_spec h1 hs2
    exact ⟨hk2, Or.inl hun⟩
  obtain ⟨hv, hk1⟩ := mapNonsecure_area hk paddr (show sizeofTzPackage < 4294967296 by decide)
  unfold setTzPackage at h
  split at h
  · obtain ⟨-, rfl⟩ := Prod.mk.inj (Option.some.inj h)
    exact ⟨hk, Or.inl hs⟩
  rw [hfree, Option.bind_eq_bind, Option.bind_some] at h
  simp only at h
  split at h
  · rename_i hz
    obtain ⟨-, rfl⟩ := Prod.mk.inj (Option.some.inj h)
    exact ⟨hk1, Or.inl ⟨hz, hs.2.1, hs.2.2⟩⟩
  rename_i hp
  have hok : TzOk ⟨(mapNonsecure s.k paddr.toNat sizeofTzPackage).2,
      (mapNonsecure s.k paddr.toNat sizeofTzPackage).1, s.teeMem, s.comMem⟩ :=
    ⟨hk1, hv, Or.inl hs.2.1, Or.inl hs.2.2⟩
  split at h
  · exact hback hok h
  obtain ⟨⟨r1, s1⟩, hset1, h⟩ := Option.bind_eq_some_iff.mp h
  obtain ⟨hok1, htee, hpkg1, hcom1, hspace⟩ := setTzTeeMemory_spec hok hs.2.1 hset1
  simp only at h
  split at h
  · exact hback hok1 h
  rename_i hr1
  split at h
  · exact hback hok1 h
  obtain ⟨⟨r2, s2⟩, hset2, h⟩ := Option.bind_eq_some_iff.mp h
  obtain ⟨hok2, hcom, hpkg2, htee2⟩ := setTzCommunicationMemory_spec hok1 (hcom1.trans hs.2.2) hset2
  simp only at h
  split at h
  · exact hback hok2 h
  rename_i hr2
  obtain ⟨-, rfl⟩ := Prod.mk.inj (Option.some.inj h)
  refine ⟨hok2.mapable, Or.inr ⟨⟨?_, ?_, hcom (not_not.mp hr2)⟩, hpkg2.trans hpkg1,
    htee2.trans hspace⟩⟩
  · rw [hpkg2, hpkg1]
    exact hv.resolve_left hp
  · rw [htee2]
    exact htee (not_not.mp hr1)

/-- The three structures can be mapped. -/
def NsPackage.accepted (p : NsPackage) (s : TzState) : Bool :=
  (setTzPackage s p.paddr.toNat p.teePaddr.toNat p.ctrlPaddr.toNat).any fun r => r.2.teeMem != 0

/-! ## 2. What the secure threads do -/

/-- The acceptance of an SMC. -/
def Event.isEntry : Event → Bool
  | .requested | .answered _ => true
  | _ => false

/-- The non-secure world has entered. -/
def System.entered (s : System) : Prop := ∃ e ∈ s.log, e.isEntry = true

theorem entered_record {s : System} {e : Event} (he : e.isEntry = false) :
    (s.record e).entered ↔ s.entered := by
  simp [System.entered, he]

/-- What a secure thread leaves alone on its way to the monitor: the states of all threads but its
own and the service thread's, and the three addresses. -/
structure Frame (s s' : System) : Prop where
  current : s'.current = s.current
  threads : s'.threads = s.threads
  mainPc : s'.mainPc = s.mainPc
  mapable : Mapable s.tz.k → Mapable s'.tz.k
  spaces : s'.tz.package = s.tz.package ∧ s'.tz.teeMem = s.tz.teeMem ∧ s'.tz.comMem = s.tz.comMem
  states : ∀ t, t ≠ s.current → t ≠ .service → s'.state t = s.state t
  entered : s'.entered ↔ s.entered

section

variable {s s' : System} {t : Thread} {x : ThreadState} {e : Event}

theorem Frame.same (h : (s'.current, s'.threads, s'.mainPc, s'.tz, s'.state, s'.log) =
    (s.current, s.threads, s.mainPc, s.tz, s.state, s.log)) : Frame s s' := by
  simp only [Prod.mk.injEq] at h
  obtain ⟨h1, h2, h3, h4, h5, h6⟩ := h
  exact ⟨h1, h2, h3, by rw [h4]; exact id, by rw [h4]; exact ⟨rfl, rfl, rfl⟩,
    fun t _ _ => by rw [h5], by rw [System.entered, h6, System.entered]⟩

theorem Frame.setState (h : Frame s s') (ht : t = s.current ∨ t = .service) :
    Frame s (s'.setState t x) where
  current := h.current
  threads := h.threads
  mainPc := h.mainPc
  mapable := h.mapable
  spaces := h.spaces
  states := fun u hu hus => by
    have hne : u ≠ t := by
      rintro rfl
      exact ht.elim hu hus
    exact (setState_other _ _ _ _ hne).trans (h.states u hu hus)
  entered := h.entered

theorem Frame.record (h : Frame s s') (he : e.isEntry = false) : Frame s (s'.record e) :=
  { h with entered := (entered_record he).trans h.entered }

end

theorem MmEffect.mapable {e : MmEffect} {k k' : Kernel} (hk : Mapable k)
    (h : e.apply k = some k') : Mapable k' := by
  obtain ⟨k1, hops, rfl⟩ := Option.map_eq_some_iff.mp h
  have hrun : ∀ (ops : List MmOp) (k : Kernel), Mapable k → ops.foldlM mmStep k = some k1 →
      Mapable k1 := by
    intro ops
    induction ops with
    | nil =>
      intro k hk h
      obtain rfl := Option.some.inj h
      exact hk
    | cons op ops ih =>
      intro k hk h
      rw [List.foldlM_cons] at h
      obtain ⟨k2, hop, h⟩ := Option.bind_eq_some_iff.mp h
      exact ih k2 (mapable_of_run hk (Run.cons hop (Run.nil k2))) h
  have h1 := hrun e.ops k hk hops
  exact ⟨⟨h1.words, h1.free⟩, h1.image, h1.smmAbove⟩

/-- What the call of a secure thread can be: no switch leads to the non-secure world, and only
threads without work ask the scheduler. -/
def CallOk (s s' : System) : Option Smc → Prop
  | some (.taskSwitch t) =>
    t ≠ .nonsecure ∧ t ≠ .main ∧ (s.current = .tee → s'.state .tee = s.state .tee)
  | some .taskSchedule => s.current = .service ∨ s.current = .tee ∧ s.tz.teeMem = 0
  | some (.nonsService _) => True
  | some (.processTmem _) | some (.processCmem _) => False
  | none => s.current ≠ .tee ∧ s'.state = s.state

section

variable {s s' : System} {call : Option Smc}

theorem serviceLoop_step (hs : s.current = .service) (h : serviceLoop s = some (s', call)) :
    Frame s s' ∧ CallOk s s' call := by
  have htee : s.current ≠ .tee := by rw [hs]; exact nofun
  unfold serviceLoop at h
  split at h
  · obtain ⟨rfl, rfl⟩ := Prod.mk.inj (Option.some.inj h)
    exact ⟨Frame.setState (Frame.same rfl) (Or.inr rfl), Or.inl hs⟩
  · simp only at h
    split at h
    · exact nomatch h
    split at h
    · obtain ⟨rfl, rfl⟩ := Prod.mk.inj (Option.some.inj h)
      exact ⟨Frame.same rfl, nofun, nofun, fun hc => absurd hc htee⟩
    split at h
    · exact nomatch h
    · obtain ⟨rfl, rfl⟩ := Prod.mk.inj (Option.some.inj h)
      exact ⟨Frame.record (Frame.same rfl) rfl, trivial⟩

theorem serviceProgram_step (hs : s.current = .service) (h : serviceProgram s = some (s', call)) :
    Frame s s' ∧ CallOk s s' call := by
  have htee : s.current ≠ .tee := by rw [hs]; exact nofun
  unfold serviceProgram at h
  split at h
  · exact serviceLoop_step hs h
  · exact serviceLoop_step hs h
  · exact serviceLoop_step hs h
  · obtain ⟨rfl, rfl⟩ := Prod.mk.inj (Option.some.inj h)
    exact ⟨Frame.record (Frame.same rfl) rfl, htee, rfl⟩
  · split at h
    · obtain ⟨rfl, rfl⟩ := Prod.mk.inj (Option.some.inj h)
      exact ⟨Frame.record (Frame.same rfl) rfl, htee, rfl⟩
    split at h
    · exact nomatch h
    · obtain ⟨rfl, rfl⟩ := Prod.mk.inj (Option.some.inj h)
      exact ⟨Frame.record (Frame.same rfl) rfl, nofun, nofun, fun hc => absurd hc htee⟩
  · exact nomatch h

theorem Frame.trans {s1 : System} (h1 : Frame s s1) (h2 : Frame s1 s') : Frame s s' where
  current := h2.current.trans h1.current
  threads := h2.threads.trans h1.threads
  mainPc := h2.mainPc.trans h1.mainPc
  mapable := h2.mapable ∘ h1.mapable
  spaces := ⟨h2.spaces.1.trans h1.spaces.1, h2.spaces.2.1.trans h1.spaces.2.1,
    h2.spaces.2.2.trans h1.spaces.2.2⟩
  states := fun t ht hts => (h2.states t (by rwa [h1.current]) hts).trans (h1.states t ht hts)
  entered := h2.entered.trans h1.entered

theorem teeRespond_step {tee : Nat} {ret : UInt32} (h : teeRespond s tee ret = some (s', call))
    (hs : s.current = .tee) :
    Frame s s' ∧ call = some (.nonsService teeStruct) := by
  unfold teeRespond at h
  simp only at h
  split at h
  · exact nomatch h
  · obtain ⟨rfl, rfl⟩ := Prod.mk.inj (Option.some.inj h)
    exact ⟨Frame.setState (Frame.record (Frame.same rfl) rfl) (Or.inl hs.symm), rfl⟩

theorem teeLoop_step {input : Input} (hs : s.current = .tee)
    (h : teeLoop s input = some (s', call)) : Frame s s' ∧ CallOk s s' call := by
  unfold teeLoop at h
  split at h
  · rename_i h0
    obtain ⟨rfl, rfl⟩ := Prod.mk.inj (Option.some.inj h)
    exact ⟨Frame.setState (Frame.same rfl) (Or.inl hs.symm), Or.inr ⟨hs, h0⟩⟩
  split at h
  · exact nomatch h
  split at h
  · simp only at h
    split at h
    · split at h
      · obtain ⟨rfl, rfl⟩ := Prod.mk.inj (Option.some.inj h)
        exact ⟨Frame.record (Frame.same rfl) rfl, nofun, nofun, fun _ => rfl⟩
      · exact nomatch h
    · obtain ⟨hframe, rfl⟩ := teeRespond_step h hs
      refine ⟨Frame.trans ?_ hframe, trivial⟩
      exact Frame.same rfl
  · exact nomatch h

theorem teeProgram_step {input : Input} (hs : s.current = .tee)
    (h : teeProgram s input = some (s', call)) : Frame s s' ∧ CallOk s s' call := by
  unfold teeProgram at h
  split at h
  · exact teeLoop_step hs h
  · exact teeLoop_step hs h
  · exact teeLoop_step hs h
  · obtain ⟨hframe, rfl⟩ := teeRespond_step h hs
    refine ⟨Frame.trans ?_ hframe, trivial⟩
    exact Frame.record (Frame.same rfl) rfl

/-- Changes of the memory management keep the frame. -/
theorem Frame.setKernel {k : Kernel} (hk : Mapable s.tz.k → Mapable k) :
    Frame s { s with tz := { s.tz with k := k } } :=
  ⟨rfl, rfl, rfl, hk, ⟨rfl, rfl, rfl⟩, fun _ _ _ => rfl, Iff.rfl⟩

theorem processAnswer_frame {i : Nat} {serving : Option Nat} {ret : UInt32} {mm : MmEffect}
    (h : processAnswer s i serving ret mm = some s') : Frame s s' := by
  unfold processAnswer at h
  split at h
  · obtain rfl := Option.some.inj h
    exact Frame.same rfl
  · obtain ⟨k, hk, rfl⟩ := Option.map_eq_some_iff.mp h
    have hbase : Frame s { s with tz := { s.tz with k := k } } := Frame.setKernel (MmEffect.mapable · hk)
    simp only
    cases serving with
    | none =>
      split
      · exact hbase.trans (Frame.same rfl)
      · exact hbase
    | some n =>
      split
      · exact hbase.trans (Frame.record (Frame.same rfl) rfl)
      · exact hbase.record rfl

theorem trustletProgram_step {i : Nat} {input : Input} (hs : s.current = .trustlet i)
    (h : trustletProgram s i input = some (s', call)) : Frame s s' ∧ CallOk s s' call := by
  have htee : s.current ≠ .tee := by rw [hs]; exact nofun
  have htoService (s' : System) : CallOk s s' (some (.taskSwitch .service)) :=
    ⟨nofun, nofun, fun hc => absurd hc htee⟩
  have htoTee (s' : System) : CallOk s s' (some (.taskSwitch .tee)) :=
    ⟨nofun, nofun, fun hc => absurd hc htee⟩
  unfold trustletProgram at h
  split at h
  · split at h
    · obtain ⟨rfl, rfl⟩ := Prod.mk.inj (Option.some.inj h)
      exact ⟨Frame.setState (Frame.record (Frame.same rfl) rfl) (Or.inr rfl), htoService _⟩
    · obtain ⟨s1, h1, heq⟩ := Option.map_eq_some_iff.mp h
      obtain ⟨rfl, rfl⟩ := Prod.mk.inj heq
      exact ⟨(processAnswer_frame h1).trans (Frame.setState (Frame.same rfl)
        (Or.inl ((processAnswer_frame h1).current.trans hs).symm)), htoTee _⟩
    · exact nomatch h
  · split at h
    · obtain ⟨rfl, rfl⟩ := Prod.mk.inj (Option.some.inj h)
      exact ⟨Frame.record (Frame.same rfl) rfl, htee, rfl⟩
    · obtain ⟨rfl, rfl⟩ := Prod.mk.inj (Option.some.inj h)
      exact ⟨Frame.same rfl, htoService _⟩
  · split at h
    · obtain ⟨rfl, rfl⟩ := Prod.mk.inj (Option.some.inj h)
      exact ⟨Frame.setState (Frame.same rfl) (Or.inl hs.symm), htoTee _⟩
    split at h
    · obtain ⟨k, hk, heq⟩ := Option.map_eq_some_iff.mp h
      have hbase : Frame s { s with tz := { s.tz with k := k } } :=
        Frame.setKernel (MmEffect.mapable · hk)
      simp only at heq
      split at heq
      · obtain ⟨rfl, rfl⟩ := Prod.mk.inj heq
        exact ⟨hbase.setState (Or.inl hs.symm), htoTee _⟩
      split at heq
      · obtain ⟨rfl, rfl⟩ := Prod.mk.inj heq
        exact ⟨hbase.trans (Frame.same rfl), htee, rfl⟩
      · obtain ⟨rfl, rfl⟩ := Prod.mk.inj heq
        exact ⟨hbase.trans (Frame.setState (Frame.same rfl) (Or.inl hs.symm)),
          htoTee _⟩
    · exact nomatch h

/-- **A secure thread's way to the monitor.** -/
theorem secureProgram_step {apps : Nat} {input : Input} (hmain : s.current ≠ .main)
    (hns : s.current ≠ .nonsecure) (h : program apps s input = some (s', call)) :
    Frame s s' ∧ CallOk s s' call := by
  unfold program at h
  split at h
  · rename_i hs
    exact absurd hs hmain
  · rename_i hs
    exact serviceProgram_step hs h
  · rename_i hs
    exact teeProgram_step hs h
  · rename_i hs
    exact trustletProgram_step hs h
  · rename_i hs
    exact absurd hs hns

end

/-! ## 3. The two worlds -/

/-- Before the non-secure world runs for the first time. -/
structure Booting (s : System) : Prop where
  unmapped : s.tz.Unmapped
  secure : s.current ≠ .nonsecure
  fresh : ¬ s.entered

/-- The non-secure world runs. -/
structure Outside (s : System) : Prop where
  unmapped : s.tz.Unmapped
  nonsecure : s.current = .nonsecure
  made : .nonsecure ∈ s.threads

/-- The secure world runs, for the non-secure one. -/
structure Inside (s : System) : Prop where
  mapped : s.tz.Mapped
  secure : s.current ≠ .nonsecure
  made : .nonsecure ∈ s.threads
  waits : s.state .nonsecure ≠ .running
  teeReady : s.state .nonsecure = .ready → s.current ≠ .tee → s.state .tee = .ready
  teeRuns : s.current = .tee → s.state .tee = .running
  entered : s.entered

/-- What the boot leaves: the main thread is done when the non-secure world is there, and the thread
of that world comes last in the list. -/
structure BootInv (apps : Nat) (s : System) : Prop where
  mapable : Mapable s.tz.k
  order : .nonsecure ∈ s.threads →
    ∃ l, s.threads = l ++ [.nonsecure] ∧ .tee ∈ l ∧ .nonsecure ∉ l
  booting : s.mainPc ≤ 2 + apps → .nonsecure ∉ s.threads
  teeMade : 2 ≤ s.mainPc → .tee ∈ s.threads
  mainDone : .nonsecure ∈ s.threads → s.state .main = .blocked

/-- What holds in every reachable state. -/
structure WorldInv (apps : Nat) (s : System) : Prop extends BootInv apps s where
  mainLeft : .nonsecure ∈ s.threads → s.current ≠ .main
  world : Booting s ∨ Outside s ∨ Inside s

section

variable {apps : Nat} {s s' t : System} {u : Thread} {call : Option Smc}

theorem scheduled_ready (h : schedGetNextReadyThread s = some u) :
    u ∈ s.threads ∧ s.state u = .ready :=
  ⟨List.mem_of_find?_eq_some h, by simpa using List.find?_some h⟩

/-- Where the scheduler takes the thread of the non-secure world, no other is ready. -/
theorem scheduled_last (horder : .nonsecure ∈ s.threads →
      ∃ l, s.threads = l ++ [.nonsecure] ∧ .tee ∈ l ∧ .nonsecure ∉ l)
    (h : schedGetNextReadyThread s = some .nonsecure) (hu : u ∈ s.threads) (hne : u ≠ .nonsecure) :
    s.state u ≠ .ready := by
  intro hready
  obtain ⟨l, hl, -, hnot⟩ := horder (scheduled_ready h).1
  rw [hl, List.mem_append, List.mem_singleton] at hu
  unfold schedGetNextReadyThread at h
  rw [hl, List.find?_append] at h
  have hsome : (l.find? fun t => s.state t = .ready).isSome :=
    List.find?_isSome.mpr ⟨u, hu.resolve_right hne, by simpa using hready⟩
  obtain ⟨v, hv⟩ := Option.isSome_iff_exists.mp hsome
  rw [hv, Option.some_or] at h
  obtain rfl := Option.some.inj h
  exact hnot (List.mem_of_find?_eq_some hv)

/-- A ready TEE thread is taken before the non-secure world. -/
theorem scheduled_secure (horder : .nonsecure ∈ s.threads →
      ∃ l, s.threads = l ++ [.nonsecure] ∧ .tee ∈ l ∧ .nonsecure ∉ l)
    (htee : s.state .nonsecure = .ready → s.state .tee = .ready)
    (h : schedGetNextReadyThread s = some u) : u ≠ .nonsecure := by
  rintro rfl
  obtain ⟨hmem, hready⟩ := scheduled_ready h
  obtain ⟨l, hl, hteel, -⟩ := horder hmem
  have hteeMem : .tee ∈ s.threads := hl ▸ List.mem_append_left _ hteel
  exact scheduled_last horder h hteeMem nofun (htee hready)

/-- Once an SMC was accepted, a secure thread runs for the non-secure world. -/
theorem WorldInv.inside (hw : WorldInv apps s) (hent : s.entered) (hcur : s.current ≠ .nonsecure) :
    Inside s := by
  obtain hb | hout | hin := hw.world
  · exact absurd hent hb.fresh
  · exact absurd hout.nonsecure hcur
  · exact hin

/-- The frame keeps what the boot leaves, and a switch to another thread than the main one does. -/
theorem BootInv.frame (hs : BootInv apps s) (h : Frame s s') (hmain : s.current ≠ .main) :
    BootInv apps s' where
  mapable := h.mapable hs.mapable
  order := by rw [h.threads]; exact hs.order
  booting := by rw [h.threads, h.mainPc]; exact hs.booting
  teeMade := by rw [h.threads, h.mainPc]; exact hs.teeMade
  mainDone := by
    rw [h.threads, h.states .main hmain.symm nofun]
    exact hs.mainDone

theorem BootInv.same (hs : BootInv apps s)
    (h : (s'.threads, s'.mainPc, s'.state .main) = (s.threads, s.mainPc, s.state .main))
    (hk : Mapable s'.tz.k) : BootInv apps s' := by
  simp only [Prod.mk.injEq] at h
  obtain ⟨h1, h2, h3⟩ := h
  exact ⟨hk, by rw [h1]; exact hs.order, by rw [h1, h2]; exact hs.booting,
    by rw [h1, h2]; exact hs.teeMade, by rw [h1, h3]; exact hs.mainDone⟩

theorem BootInv.switch (hs : BootInv apps s) (hu : .nonsecure ∈ s.threads → u ≠ .main) :
    BootInv apps (schedThreadSwitched s u) where
  mapable := by rw [schedThreadSwitched_tz]; exact hs.mapable
  order := by rw [schedThreadSwitched_threads]; exact hs.order
  booting := by rw [schedThreadSwitched_threads, schedThreadSwitched_mainPc]; exact hs.booting
  teeMade := by rw [schedThreadSwitched_threads, schedThreadSwitched_mainPc]; exact hs.teeMade
  mainDone := by
    rw [schedThreadSwitched_threads]
    intro hmade
    have hblocked := hs.mainDone hmade
    rw [schedThreadSwitched_other _ _ _ (hu hmade).symm, hblocked, if_neg (fun hc => nomatch hc.2)]

theorem TzState.Mapped.frame (hs : s.tz.Mapped) (h : Frame s s') : s'.tz.Mapped := by
  unfold TzState.Mapped
  rw [h.spaces.1, h.spaces.2.1, h.spaces.2.2]
  exact hs

/-- A step to user mode, or to a scheduler that finds no thread. -/
theorem Inside.frame (hs : Inside s) (h : Frame s s') (htee : s'.state .tee = s.state .tee) :
    Inside s' := by
  have hns : s'.state .nonsecure = s.state .nonsecure := h.states _ hs.secure.symm nofun
  refine ⟨hs.mapped.frame h, h.current ▸ hs.secure, h.threads ▸ hs.made, ?_, ?_, ?_,
    h.entered.mpr hs.entered⟩
  · rw [hns]
    exact hs.waits
  · rw [hns, htee, h.current]
    exact hs.teeReady
  · rw [htee, h.current]
    exact hs.teeRuns

/-- A switch from one secure thread to another. -/
theorem Inside.switch (hs : Inside s) (h : Frame s s') (hu : u ≠ .nonsecure)
    (hrun : s.current = .tee → s'.state .tee = .running) :
    Inside (schedThreadSwitched s' u) := by
  have hns : (schedThreadSwitched s' u).state .nonsecure = s.state .nonsecure := by
    rw [schedThreadSwitched_other _ _ _ hu.symm,
      if_neg (fun hc => hs.secure (h.current.symm.trans hc.1.symm)), h.states _ hs.secure.symm nofun]
  refine ⟨?_, hu, ?_, by rw [hns]; exact hs.waits, ?_, ?_, ?_⟩
  · rw [schedThreadSwitched_tz]
    exact hs.mapped.frame h
  · rw [schedThreadSwitched_threads, h.threads]
    exact hs.made
  · rw [hns]
    intro hready hne
    have hne' : Thread.tee ≠ u := Ne.symm hne
    rw [schedThreadSwitched_other _ _ _ hne']
    by_cases hcur : s.current = .tee
    · rw [if_pos ⟨(h.current.trans hcur).symm, hrun hcur⟩]
    · rw [if_neg (fun hc => hcur (h.current.symm.trans hc.1.symm)), h.states _ (Ne.symm hcur) nofun]
      exact hs.teeReady hready hcur
  · rintro rfl
    exact schedThreadSwitched_self ..
  · unfold System.entered
    rw [schedThreadSwitched_log]
    exact h.entered.mpr hs.entered

/-! ## 4. Steps -/

/-- The secure world gives the processor back by `SSC_NONS_SERVICE`: the result is written, and the
three structures are unmapped. -/
def GivesBack (s' : System) (call : Option Smc) (t : System) : Prop :=
  ∃ r, call = some (.nonsService r) ∧ t.log = s'.log ++ [.result r] ∧
    freeTzPackage s'.tz = some t.tz ∧ t.tz.Unmapped ∧
    ∀ v, v = s'.tz.package ∨ v = s'.tz.teeMem ∨ v = s'.tz.comMem →
      v ≠ 0 ∧ Mm.translate t.tz.k v = none

/-- A secure thread's step while a package is mapped. -/
theorem inside_step (hs : BootInv apps s) (hin : Inside s) (hmain : s.current ≠ .main)
    (h : Frame s s') (hcall : CallOk s s' call) (hsmc : call.elim (some s') (smc s') = some t) :
    WorldInv apps t ∧ (t.current = .nonsecure → GivesBack s' call t) := by
  have hs' := hs.frame h hmain
  have hmain' : s'.current ≠ .main := h.current ▸ hmain
  have hmade' : .nonsecure ∈ s'.threads := h.threads ▸ hin.made
  match call, hcall, hsmc with
  | some (.taskSwitch u), ⟨hns, hum, hrun⟩, hsmc =>
    obtain rfl := Option.some.inj hsmc
    exact ⟨⟨hs'.switch fun _ => hum, fun _ => hum,
      Or.inr (Or.inr (hin.switch h hns fun hc => (hrun hc).trans (hin.teeRuns hc)))⟩,
      fun hc => absurd hc hns⟩
  | some .taskSchedule, hwho, hsmc =>
    -- the TEE thread has a TEE space, so it is the service thread that has nothing to do
    have hservice : s.current = .service :=
      hwho.resolve_right fun hc => absurd hc.2 hin.mapped.2.1.ne_zero
    have hnt : s.current ≠ .tee := by rw [hservice]; exact nofun
    have hteeState : s'.state .tee = s.state .tee := h.states _ hnt.symm nofun
    simp only [Option.elim_some, smc] at hsmc
    split at hsmc
    · obtain rfl := Option.some.inj hsmc
      exact ⟨⟨hs', fun _ => hmain', Or.inr (Or.inr (hin.frame h hteeState))⟩,
        fun hc => absurd (h.current.symm.trans hc) hin.secure⟩
    · rename_i u hu
      obtain rfl := Option.some.inj hsmc
      have hns : u ≠ .nonsecure := scheduled_secure hs'.order (fun hready => by
        rw [hteeState]
        exact hin.teeReady (h.states _ hin.secure.symm nofun ▸ hready) hnt) hu
      have hum : u ≠ .main := by
        rintro rfl
        exact absurd ((scheduled_ready hu).2.symm.trans (hs'.mainDone hmade')) nofun
      exact ⟨⟨hs'.switch fun _ => hum, fun _ => hum,
        Or.inr (Or.inr (hin.switch h hns fun hc => absurd hc hnt))⟩, fun hc => absurd hc hns⟩
  | some (.nonsService r), _, hsmc =>
    simp only [Option.elim_some, smc] at hsmc
    split at hsmc
    · exact nomatch hsmc
    obtain ⟨tz, hfree, rfl⟩ := Option.map_eq_some_iff.mp hsmc
    have hmapped := hin.mapped.frame h
    obtain ⟨hun, hk, hnone⟩ := freeTzPackage_spec (hmapped.ok hs'.mapable) hfree
    have hfreed : BootInv apps ({ s' with tz := tz }.record (.result r)) :=
      ⟨hk, hs'.order, hs'.booting, hs'.teeMade, hs'.mainDone⟩
    refine ⟨⟨hfreed.switch fun _ => nofun, fun _ => nofun, Or.inr (Or.inl ⟨?_, rfl, ?_⟩)⟩, fun _ => ⟨r, rfl, ?_⟩⟩
    · rw [schedThreadSwitched_tz]
      exact hun
    · rw [schedThreadSwitched_threads]
      exact hmade'
    · rw [schedThreadSwitched_log, schedThreadSwitched_tz]
      refine ⟨rfl, hfree, hun, fun v hv => ?_⟩
      have harea : InArea v := by
        obtain ⟨hp, ht, hc⟩ := hmapped
        obtain rfl | rfl | rfl := hv
        · exact hp
        · exact ht
        · exact hc
      refine ⟨harea.ne_zero, ?_⟩
      have hhigh : ¬ v < 0x80000000 := Nat.not_lt.mpr harea.1
      unfold Mm.translate
      rw [if_neg hhigh]
      exact hnone v hv harea.ne_zero
  | none, ⟨hnt, hstate⟩, hsmc =>
    obtain rfl := Option.some.inj hsmc
    exact ⟨⟨hs', fun _ => hmain', Or.inr (Or.inr (hin.frame h (by rw [hstate])))⟩,
      fun hc => absurd (h.current.symm.trans hc) hin.secure⟩

theorem Booting.switch (hb : Booting s) (hu : u ≠ .nonsecure) : Booting (schedThreadSwitched s u) where
  unmapped := by rw [schedThreadSwitched_tz]; exact hb.unmapped
  secure := hu
  fresh := by
    unfold System.entered
    rw [schedThreadSwitched_log]
    exact hb.fresh

/-- The scheduler takes a thread during the boot, and in the end that of the non-secure world. -/
theorem booting_schedule (hs : BootInv apps s) (hb : Booting s)
    (h : schedGetNextReadyThread s = some u) : WorldInv apps (schedThreadSwitched s u) := by
  obtain ⟨hmem, hready⟩ := scheduled_ready h
  have hum : .nonsecure ∈ s.threads → u ≠ .main := by
    rintro hmade rfl
    exact absurd (hready.symm.trans (hs.mainDone hmade)) nofun
  refine ⟨hs.switch hum, by rw [schedThreadSwitched_threads]; exact hum, ?_⟩
  by_cases hns : u = .nonsecure
  · subst hns
    refine Or.inr (Or.inl ⟨?_, rfl, ?_⟩)
    · rw [schedThreadSwitched_tz]
      exact hb.unmapped
    · rw [schedThreadSwitched_threads]
      exact hmem
  · exact Or.inl (hb.switch hns)

/-- A secure thread's step before the non-secure world has run. -/
theorem booting_step (hs : BootInv apps s) (hb : Booting s) (hmain : s.current ≠ .main)
    (h : Frame s s') (hcall : CallOk s s' call) (hsmc : call.elim (some s') (smc s') = some t) :
    WorldInv apps t := by
  have hs' := hs.frame h hmain
  have hmain' : s'.current ≠ .main := h.current ▸ hmain
  have hb' : Booting s' := by
    refine ⟨?_, h.current ▸ hb.secure, fun hc => hb.fresh (h.entered.mp hc)⟩
    unfold TzState.Unmapped
    rw [h.spaces.1, h.spaces.2.1, h.spaces.2.2]
    exact hb.unmapped
  match call, hcall, hsmc with
  | some (.taskSwitch u), ⟨hns, hum, hrun⟩, hsmc =>
    obtain rfl := Option.some.inj hsmc
    exact ⟨hs'.switch fun _ => hum, fun _ => hum, Or.inl (hb'.switch hns)⟩
  | some .taskSchedule, _, hsmc =>
    simp only [Option.elim_some, smc] at hsmc
    split at hsmc
    · obtain rfl := Option.some.inj hsmc
      exact ⟨hs', fun _ => hmain', Or.inl hb'⟩
    · rename_i u hu
      obtain rfl := Option.some.inj hsmc
      exact booting_schedule hs' hb' hu
  | some (.nonsService r), _, hsmc =>
    simp only [Option.elim_some, smc] at hsmc
    rw [if_pos (Or.inl hb'.unmapped.1)] at hsmc
    exact nomatch hsmc
  | none, _, hsmc =>
    obtain rfl := Option.some.inj hsmc
    exact ⟨hs', fun _ => hmain', Or.inl hb'⟩

/-- The main thread adds another thread than that of the non-secure world. -/
theorem BootInv.add (hs : BootInv apps s) (u : Thread) (hpc : s.mainPc < 2 + apps)
    (hu : u ≠ .nonsecure) (htee : s.mainPc = 1 → u = .tee) :
    BootInv apps (schedAddThread { s with mainPc := s.mainPc + 1 } u) := by
  have hnot : .nonsecure ∉ s.threads ++ [u] := by
    rw [List.mem_append, List.mem_singleton]
    exact not_or.mpr ⟨hs.booting hpc.le, hu.symm⟩
  refine ⟨hs.mapable, fun hc => absurd hc hnot, fun _ => hnot, ?_, fun hc => absurd hc hnot⟩
  intro hpc2
  by_cases h1 : s.mainPc = 1
  · exact List.mem_append_right _ (List.mem_singleton.mpr (htee h1).symm)
  · exact List.mem_append_left _ (hs.teeMade (by change 2 ≤ s.mainPc + 1 at hpc2; omega))

/-- It adds that one last, and blocks. -/
theorem BootInv.addNonsecure (hs : BootInv apps s) (hpc : s.mainPc = 2 + apps) :
    BootInv apps
      ((schedAddThread { s with mainPc := s.mainPc + 1 } .nonsecure).setState .main .blocked) where
  mapable := hs.mapable
  order := fun _ => ⟨s.threads, rfl, hs.teeMade (by omega), hs.booting hpc.le⟩
  booting := fun h => by
    change s.mainPc + 1 ≤ 2 + apps at h
    omega
  teeMade := fun _ => List.mem_append_left _ (hs.teeMade (by omega))
  mainDone := fun _ => setState_self ..

/-- A step of the main thread. -/
theorem main_step (hs : BootInv apps s) (hb : Booting s) (h : mainProgram apps s = some (s', call))
    (hsmc : call.elim (some s') (smc s') = some t) : WorldInv apps t := by
  have hgo (s' : System) (u : Thread) (hs' : BootInv apps s') (hb' : Booting s')
      (hu : u ∈ s'.threads ∧ s'.state u = .ready) (hsmc : smc s' .taskSchedule = some t) :
      WorldInv apps t := by
    simp only [smc] at hsmc
    split at hsmc
    · rename_i hnone
      have hready := List.find?_eq_none.mp hnone u hu.1
      exact absurd (decide_eq_true hu.2) hready
    · rename_i v hv
      obtain rfl := Option.some.inj hsmc
      exact booting_schedule hs' hb' hv
  have hadded (u : Thread) : u ∈ s.threads ++ [u] := List.mem_append_right _ (List.mem_singleton_self u)
  unfold mainProgram at h
  simp only at h
  split at h
  · rename_i h0
    obtain ⟨rfl, rfl⟩ := Prod.mk.inj (Option.some.inj h)
    exact hgo _ .service (hs.add .service (by omega) nofun (by omega)) ⟨hb.unmapped, hb.secure, hb.fresh⟩
      ⟨hadded _, setState_self ..⟩ hsmc
  split at h
  · rename_i h1
    obtain ⟨rfl, rfl⟩ := Prod.mk.inj (Option.some.inj h)
    exact hgo _ .tee (hs.add .tee (by omega) nofun (fun _ => rfl)) ⟨hb.unmapped, hb.secure, hb.fresh⟩
      ⟨hadded _, setState_self ..⟩ hsmc
  split at h
  · rename_i h1 h2
    obtain ⟨rfl, rfl⟩ := Prod.mk.inj (Option.some.inj h)
    exact hgo _ (.trustlet (s.mainPc - 2)) (hs.add (.trustlet (s.mainPc - 2)) h2 nofun (fun hc => absurd hc h1))
      ⟨hb.unmapped, hb.secure, hb.fresh⟩ ⟨hadded _, setState_self ..⟩ hsmc
  split at h
  · rename_i h3
    obtain ⟨rfl, rfl⟩ := Prod.mk.inj (Option.some.inj h)
    exact hgo _ .nonsecure (hs.addNonsecure h3) ⟨hb.unmapped, hb.secure, hb.fresh⟩
      ⟨hadded _, (setState_other _ _ _ _ (show Thread.nonsecure ≠ Thread.main from nofun)).trans
        (setState_self ..)⟩ hsmc
  · exact nomatch h

/-- An SMC that is not accepted. -/
theorem Outside.refused (hs : BootInv apps s) (hout : Outside s) {tz : TzState} (hk : Mapable tz.k)
    (htz : tz.Unmapped) : WorldInv apps { s with tz := tz } where
  toBootInv := hs.same rfl hk
  mainLeft := fun _ => by
    change s.current ≠ .main
    rw [hout.nonsecure]
    exact nofun
  world := Or.inr (Or.inl ⟨htz, hout.nonsecure, hout.made⟩)

/-- An SMC that is accepted: the non-secure world waits, or is ready with the TEE thread running. -/
theorem Outside.accepted (hs : BootInv apps s) (hout : Outside s) (hum : u ≠ .main)
    (hns : u ≠ .nonsecure) (hk : Mapable s'.tz.k) (hm : s'.tz.Mapped)
    (hthreads : s'.threads = s.threads) (hpc : s'.mainPc = s.mainPc)
    (hstate : s'.state .main = s.state .main) (hcur : s'.current = .nonsecure)
    (hwho : u = .tee ∨ s'.state .nonsecure = .blocked) (hent : s'.entered) :
    WorldInv apps (schedThreadSwitched s' u) := by
  have hs' : BootInv apps s' := hs.same (by rw [hthreads, hpc, hstate]) hk
  have hnsState := schedThreadSwitched_other s' u .nonsecure hns.symm
  refine ⟨hs'.switch fun _ => hum, fun _ => hum, Or.inr (Or.inr ⟨?_, hns, ?_, ?_, ?_, ?_, ?_⟩)⟩
  · rw [schedThreadSwitched_tz]
    exact hm
  · rw [schedThreadSwitched_threads, hthreads]
    exact hout.made
  · rw [hnsState]
    split
    · exact nofun
    · rename_i hno
      exact fun hc => hno ⟨hcur.symm, hc⟩
  · intro hready hne
    have hblocked := hwho.resolve_left hne
    rw [hnsState, hblocked, if_neg (fun hc => nomatch hc.2)] at hready
    exact nomatch hready
  · rintro rfl
    exact schedThreadSwitched_self ..
  · unfold System.entered
    rw [schedThreadSwitched_log]
    exact hent

/-- An SMC of the non-secure world. -/
theorem outside_step {input : Input} (hs : BootInv apps s) (hout : Outside s)
    (h : nonsecureProgram s input = some (s', call))
    (hsmc : call.elim (some s') (smc s') = some t) : WorldInv apps t := by
  have hcur := hout.nonsecure
  cases nonsecure_cases h hsmc with
  | refused hset hnull =>
    obtain ⟨hk, htz⟩ := setTzPackage_spec hout.unmapped hs.mapable hset
    exact hout.refused hs hk (htz.resolve_right fun hm => hm.1.2.1.ne_zero hnull)
  | requested hset hmem =>
    obtain ⟨hk, htz⟩ := setTzPackage_spec hout.unmapped hs.mapable hset
    have hm := (htz.resolve_left fun hun => hmem hun.2.1).1
    exact hout.accepted hs nofun nofun hk hm rfl rfl rfl hcur (Or.inl rfl)
      ⟨_, List.mem_append_right _ (List.mem_singleton_self _), rfl⟩
  | answered hset hmem =>
    obtain ⟨hk, htz⟩ := setTzPackage_spec hout.unmapped hs.mapable hset
    have hm := (htz.resolve_left fun hun => hmem hun.2.2).1
    have hmain : Thread.main ≠ s.current := by rw [hcur]; exact nofun
    have hservice (u : Thread) (hu : u ≠ .service) (s' : System) :
        (s'.setState .service .ready).state u = s'.state u := setState_other _ _ _ _ hu
    refine hout.accepted hs nofun nofun hk hm rfl rfl ?_ hcur (Or.inr ?_)
      ⟨_, List.mem_append_right _ (List.mem_singleton_self _), rfl⟩
    · exact (hservice .main nofun _).trans (setState_other _ _ _ _ hmain)
    · refine (hservice .nonsecure nofun _).trans ?_
      rw [hcur]
      exact setState_self ..

/-! ## 5. Runs -/

theorem worldInv_init {k : Kernel} (hk : Mapable k) (tee : TeeSpace) (ctrl : Service.TzCtlrSpace) :
    WorldInv apps (System.init k tee ctrl) where
  mapable := hk
  order := fun h => absurd (List.mem_singleton.mp h) nofun
  booting := fun _ h => absurd (List.mem_singleton.mp h) nofun
  teeMade := fun h => absurd h (Nat.not_succ_le_zero 1)
  mainDone := fun h => absurd (List.mem_singleton.mp h) nofun
  mainLeft := fun h => absurd (List.mem_singleton.mp h) nofun
  world := Or.inl ⟨⟨rfl, rfl, rfl⟩, nofun, fun ⟨_, he, _⟩ => nomatch he⟩

theorem step_eq_some {input : Input} (h : step apps s input = some t) :
    ∃ s' call, program apps s input = some (s', call) ∧ call.elim (some s') (smc s') = some t := by
  obtain ⟨⟨s', call⟩, hp, hsmc⟩ := Option.bind_eq_some_iff.mp h
  exact ⟨s', call, hp, hsmc⟩

/-- No thread but that of the non-secure world changes the package. -/
theorem program_package {input : Input} (hs : s.current ≠ .nonsecure)
    (h : program apps s input = some (s', call)) : s'.tz.package = s.tz.package := by
  by_cases hmain : s.current = .main
  · unfold program at h
    rw [hmain] at h
    simp only [mainProgram] at h
    split_ifs at h <;> obtain ⟨rfl, -⟩ := Prod.mk.inj (Option.some.inj h) <;> rfl
  · exact (secureProgram_step hmain hs h).1.spaces.1

/-- One step. -/
theorem worldInv_step {input : Input} (hs : WorldInv apps s) (h : step apps s input = some t) :
    WorldInv apps t := by
  obtain ⟨s', call, hp, hsmc⟩ := step_eq_some h
  obtain hb | hout | hin := hs.world
  · by_cases hmain : s.current = .main
    · unfold program at hp
      rw [hmain] at hp
      exact main_step hs.toBootInv hb hp hsmc
    · obtain ⟨hframe, hcall⟩ := secureProgram_step hmain hb.secure hp
      exact booting_step hs.toBootInv hb hmain hframe hcall hsmc
  · unfold program at hp
    rw [hout.nonsecure] at hp
    exact outside_step hs.toBootInv hout hp hsmc
  · have hmain := hs.mainLeft hin.made
    obtain ⟨hframe, hcall⟩ := secureProgram_step hmain hin.secure hp
    exact (inside_step hs.toBootInv hin hmain hframe hcall hsmc).1

/-- Every run. -/
theorem worldInv_run {k : Kernel} {tee : TeeSpace} {ctrl : Service.TzCtlrSpace}
    {inputs : List Input} (hk : Mapable k)
    (hrun : Run (stepOf (step apps)) (System.init k tee ctrl) inputs s) : WorldInv apps s :=
  hrun.invariant (fun _ _ _ hs h => worldInv_step hs h) (worldInv_init hk tee ctrl)

/-- **The way back to the non-secure world.**  In every run, once an SMC was accepted: the thread of
the non-secure world becomes the current one only by `SSC_NONS_SERVICE`, with `package->result`
written and the three structures unmapped and `NULL`; and while a package is mapped, no switch and no
scheduling selects it. -/
theorem nonsecure_returns {k : Kernel} {tee : TeeSpace} {ctrl : Service.TzCtlrSpace}
    {inputs : List Input} {input : Input} (hk : Mapable k)
    (hrun : Run (stepOf (step apps)) (System.init k tee ctrl) inputs s)
    (hstep : step apps s input = some t) :
    (s.entered → s.current ≠ .nonsecure → t.current = .nonsecure →
      ∃ s' call, program apps s input = some (s', call) ∧ GivesBack s' call t) ∧
    ∀ s' call, program apps s input = some (s', some call) → s'.tz.package ≠ 0 →
      (call = .taskSchedule ∨ ∃ u, call = .taskSwitch u) → t.current ≠ .nonsecure := by
  have hs := worldInv_run hk hrun
  obtain ⟨s', call, hp, hsmc⟩ := step_eq_some hstep
  -- a secure thread's step while a package is mapped
  have hinside (hin : Inside s) : t.current = .nonsecure → GivesBack s' call t := by
    have hmain := hs.mainLeft hin.made
    obtain ⟨hframe, hcall⟩ := secureProgram_step hmain hin.secure hp
    exact (inside_step hs.toBootInv hin hmain hframe hcall hsmc).2
  refine ⟨fun hentered hsecure hback => ?_, fun s1 call1 hp1 hpkg hcall hback => ?_⟩
  · obtain hb | hout | hin := hs.world
    · exact absurd hentered hb.fresh
    · exact absurd hout.nonsecure hsecure
    · exact ⟨s', call, hp, hinside hin hback⟩
  · obtain ⟨rfl, rfl⟩ := Prod.mk.inj (Option.some.inj (hp.symm.trans hp1))
    obtain hb | hout | hin := hs.world
    · exact hpkg ((program_package hb.secure hp).trans hb.unmapped.1)
    · unfold program at hp
      rw [hout.nonsecure] at hp
      obtain ⟨-, p, heq⟩ := nonsecureProgram_call hp
      obtain rfl | ⟨u, rfl⟩ := hcall <;> exact heq.elim nofun nofun
    · obtain ⟨r, heq, -⟩ := hinside hin hback
      obtain rfl | ⟨u, rfl⟩ := hcall <;> exact nomatch heq

end

/-! ## 6. Inputs of a run -/

/-- A request that no trustlet serves, and an empty control space. -/
def someRequest : TeeSpace := ⟨0, 0⟩
def someCtrl : Service.TzCtlrSpace := ⟨0, 0, Bytes.zero _⟩

/-- Three structures on pages of their own. -/
def somePackage : NsPackage := ⟨0xB0001000, 0xB0002000, 0xB0003000, someRequest, someCtrl⟩

def noEffect : MmEffect := ⟨[], bootKernel.pmm, bootKernel.proc⟩

/-- The main thread, the service thread, the TEE thread and the trustlets, each of which goes to
`swi_get_secure_request`, up to the first step of the non-secure world. -/
def bootInputs (apps : Nat) : List Input :=
  List.replicate 4 .go ++ (List.replicate apps [.go, .secureRequest 0 noEffect, .go]).flatten ++
    [.go]

/-- A request that is for a trustlet. -/
def trustletRequest : NsPackage := { somePackage with tee := ⟨tzTeeOpInvokeCmd, 0⟩ }

/-- Trustlet `i` is given a request, and makes a file request. -/
def fileRequestInputs (i : Nat) : List Input :=
  [.tmem trustletRequest, .dispatch (some i) 0, .receive true 0 noEffect, .fileRequest someCtrl true,
    .go]

/-- A trustlet's file request, the answer `p` to it, and the end of the operation. -/
def servedInputs (p : NsPackage) : List Input :=
  bootInputs 1 ++ fileRequestInputs 0 ++ [.cmem p, .go, .go, .secureRequest 0 noEffect, .go]

/-- A request of the non-secure world, and the answer of the TEE thread. -/
theorem nonsecure_returns_answered :
    ∃ inputs s t, Run (stepOf (step 0)) (System.init bootKernel someRequest someCtrl) inputs s ∧
      s.entered ∧ s.current = .tee ∧ step 0 s (.dispatch none 0) = some t ∧
      t.current = .nonsecure ∧
      ∃ s' call, program 0 s (.dispatch none 0) = some (s', call) ∧ GivesBack s' call t := by
  have hcomputed : (execOk (step 0) (fun _ _ => true) (System.init bootKernel someRequest someCtrl)
      (bootInputs 0 ++ [.tmem somePackage])).any (fun s => s.log.any Event.isEntry &&
        decide (s.current = .tee) &&
        (step 0 s (.dispatch none 0)).any fun t => decide (t.current = .nonsecure)) = true := by
    decide +kernel
  obtain ⟨s, hrun, hs⟩ := exists_run_of_execOk hcomputed
  simp only [Bool.and_eq_true, decide_eq_true_eq, Option.any_eq_true] at hs
  obtain ⟨⟨hentered, htee⟩, t, hstep, hback⟩ := hs
  have hent : s.entered := List.any_eq_true.mp hentered
  have hsecure : s.current ≠ .nonsecure := by rw [htee]; exact nofun
  exact ⟨_, s, t, hrun.of_guarded, hent, htee, hstep, hback,
    (nonsecure_returns bootKernel_mapable hrun.of_guarded hstep).1 hent hsecure hback⟩

end AndixOs.Monitor
