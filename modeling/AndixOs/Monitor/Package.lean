/-
# The package of an SMC

With every SMC the monitor maps three structures of the non-secure world: the package, and the two
spaces its addresses lead to.  `set_tz_package` frees the old ones first, and a return to the
non-secure world frees them.

How much of the mapable area a structure costs for good depends on where the non-secure world puts
it: a structure inside one page costs nothing, over any number of rounds
(`mapable_area_restored`); the second page of one that reaches the next page is never given back.
-/
import AndixOs.Mm.Unmap

namespace AndixOs.Monitor

open AndixOs.Mm

/-! ## 1. The three structures -/

/-- `sizeof(TZ_PACKAGE)`, `sizeof(TZ_TEE_SPACE)` and `sizeof(TZ_CTLR_SPACE)`. -/
def sizeofTzPackage : Nat := 12
def sizeofTzTeeSpace : Nat := 108
def sizeofTzCtlrSpace : Nat := 1040

/-- The kernel and the addresses the monitor keeps, 0 for `NULL`. -/
structure TzState where
  k : Kernel
  package : Nat
  teeMem : Nat
  comMem : Nat

/-- `free_tz_communication_memory`; `none` if `unmap_memory` does not return. -/
def freeTzCommunicationMemory (s : TzState) : Option TzState :=
  if s.comMem ≠ 0 then
    (unmapMemory s.k s.comMem sizeofTzCtlrSpace).map fun k => { s with k := k, comMem := 0 }
  else some s

/-- `free_tz_tee_memory`. -/
def freeTzTeeMemory (s : TzState) : Option TzState :=
  if s.teeMem ≠ 0 then
    (unmapMemory s.k s.teeMem sizeofTzTeeSpace).map fun k => { s with k := k, teeMem := 0 }
  else some s

/-- The part of `free_tz_package` that is about the package. -/
def freeTzPackageOnly (s : TzState) : Option TzState :=
  if s.package ≠ 0 then
    (unmapMemory s.k s.package sizeofTzPackage).map fun k => { s with k := k, package := 0 }
  else some s

/-- `free_tz_package`. -/
def freeTzPackage (s : TzState) : Option TzState := do
  let s ← freeTzPackageOnly s
  let s ← freeTzTeeMemory s
  freeTzCommunicationMemory s

/-- The call of `map_phys_mem` for a structure of the non-secure world. -/
def mapNonsecure (k : Kernel) (paddr size : Nat) : Nat × Kernel :=
  mapPhysMem k paddr size apSvcRwUsrNo 0 0 1

/-- `set_tz_tee_memory`. -/
def setTzTeeMemory (s : TzState) (ptr : Nat) : Option (Int × TzState) := do
  let s ← freeTzTeeMemory s
  let r := mapNonsecure s.k ptr sizeofTzTeeSpace
  return (if r.1 = 0 then -1 else 0, { s with k := r.2, teeMem := r.1 })

/-- `set_tz_communication_memory`. -/
def setTzCommunicationMemory (s : TzState) (ptr : Nat) : Option (Int × TzState) := do
  let s ← freeTzCommunicationMemory s
  let r := mapNonsecure s.k ptr sizeofTzCtlrSpace
  return (if r.1 = 0 then -1 else 0, { s with k := r.2, comMem := r.1 })

/-- `set_tz_package`.  The three addresses are what `virt_ns_to_phys` makes of the argument and of
the two fields of the package, which the non-secure world writes. -/
def setTzPackage (s : TzState) (paddr teePaddr ctrlPaddr : Nat) : Option (Int × TzState) :=
  if paddr = 0 then some (-1, s)
  else do
    let s ← freeTzPackage s
    let r := mapNonsecure s.k paddr sizeofTzPackage
    let s := { s with k := r.2, package := r.1 }
    if r.1 = 0 then return (-1, s)
    if teePaddr = 0 then return (-1, ← freeTzPackage s)
    let (res, s) ← setTzTeeMemory s teePaddr
    if res ≠ 0 then return (-1, ← freeTzPackage s)
    if ctrlPaddr = 0 then return (-1, ← freeTzPackage s)
    let (res, s) ← setTzCommunicationMemory s ctrlPaddr
    if res ≠ 0 then return (-1, ← freeTzPackage s)
    return (0, s)

/-- The calls of an SMC handler. -/
inductive TzCall where
  | setTzPackage (paddr teePaddr ctrlPaddr : Nat)
  | freeTzPackage

def tzStep (s : TzState) : TzCall → Option TzState
  | .setTzPackage paddr teePaddr ctrlPaddr =>
    (setTzPackage s paddr teePaddr ctrlPaddr).map Prod.snd
  | .freeTzPackage => freeTzPackage s

/-! ## 2. What the monitor holds -/

/-- A structure that lies, with its end, inside one page; the last page of the address space is
left out, where the mapping loop wraps. -/
def PageLocal (paddr size : Nat) : Prop := paddr < 4294963200 ∧ paddr % 4096 + size < 4096

instance (paddr size : Nat) : Decidable (PageLocal paddr size) :=
  inferInstanceAs (Decidable (_ ∧ _))

/-- The structures of a call lie inside one page each. -/
def TzCall.PageLocal : TzCall → Prop
  | .setTzPackage paddr teePaddr ctrlPaddr =>
    Monitor.PageLocal paddr sizeofTzPackage ∧ Monitor.PageLocal teePaddr sizeofTzTeeSpace ∧
      Monitor.PageLocal ctrlPaddr sizeofTzCtlrSpace
  | .freeTzPackage => True

/-- The addresses that are mapped. -/
def TzState.live (s : TzState) : List Nat := [s.package, s.teeMem, s.comMem].filter (· ≠ 0)

/-- The monitor holds a page for each address it keeps, and nothing else. -/
structure TzHolding (k0 : Kernel) (s : TzState) : Prop where
  held : Holding k0 s.k s.live
  packageEnd : s.package % 4096 + sizeofTzPackage < 4096
  teeMemEnd : s.teeMem % 4096 + sizeofTzTeeSpace < 4096
  comMemEnd : s.comMem % 4096 + sizeofTzCtlrSpace < 4096

variable {k0 k : Kernel} {s : TzState} {live : List Nat}

/-- `NULL` counts as a structure inside a page. -/
theorem null_end {size : Nat} (h : size < 4096) : 0 % 4096 + size < 4096 := by
  rw [Nat.zero_mod, Nat.zero_add]
  exact h

theorem TzHolding.start (h : MapableOk k0) : TzHolding k0 ⟨k0, 0, 0, 0⟩ where
  held := Holding.start h.words
  packageEnd := null_end (by decide)
  teeMemEnd := null_end (by decide)
  comMemEnd := null_end (by decide)

theorem perm_live_package {v t c : Nat} (hv : v ≠ 0) :
    (TzState.live ⟨k, v, t, c⟩).Perm (v :: TzState.live ⟨k, 0, t, c⟩) := by
  unfold TzState.live
  simp [List.filter_cons, hv]

theorem perm_live_teeMem {p v c : Nat} (hv : v ≠ 0) :
    (TzState.live ⟨k, p, v, c⟩).Perm (v :: TzState.live ⟨k, p, 0, c⟩) := by
  unfold TzState.live
  by_cases hp : p = 0
  · simp [List.filter_cons, hv, hp]
  · simp only [List.filter_cons, hv, hp, ne_eq, not_false_eq_true, decide_true, if_true]
    exact List.Perm.swap ..

theorem perm_live_comMem {p t v : Nat} (hv : v ≠ 0) :
    (TzState.live ⟨k, p, t, v⟩).Perm (v :: TzState.live ⟨k, p, t, 0⟩) := by
  have happ : TzState.live ⟨k, p, t, v⟩ = TzState.live ⟨k, p, t, 0⟩ ++ [v] := by
    unfold TzState.live
    by_cases hp : p = 0 <;> by_cases ht : t = 0 <;> simp [hv, hp, ht]
  rw [happ]
  exact List.perm_append_singleton ..

/-- A structure inside one page is mapped on a page of its own, or not at all. -/
theorem mapNonsecure_holding {paddr size : Nat} (h0 : MapableOk k0) (h : Holding k0 k live)
    (hl : PageLocal paddr size) :
    mapNonsecure k paddr size = (0, k) ∨
      (mapNonsecure k paddr size).1 ≠ 0 ∧
        Holding k0 (mapNonsecure k paddr size).2 ((mapNonsecure k paddr size).1 :: live) ∧
        (mapNonsecure k paddr size).1 % 4096 + size < 4096 := by
  obtain ⟨hp, hone⟩ := hl
  rcases mapPhysMem_onePage (h.mapableOk h0) 0 0 1 hp hone with hr | hr
  · exact Or.inl hr
  · right
    refine ⟨hr, ?_⟩
    rcases mapPhysMem_spec h.words apSvcRwUsrNo 0 0 1 (show paddr < 4294967296 by omega)
      (show size < 4294967296 by omega) with hz | ⟨q, hm⟩
    · exact absurd hz hr
    · refine ⟨h.map rfl hm (by omega), ?_⟩
      have haddr := hm.addr
      unfold mmmStart at haddr
      unfold mapNonsecure
      omega

/-- A structure inside one page is given back. -/
theorem unmapMemory_holding {v size : Nat} (h0 : MapableOk k0) (h : Holding k0 k (v :: live))
    (hl : v % 4096 + size < 4096) :
    ∃ k', unmapMemory k v size = some k' ∧ Holding k0 k' live := by
  have hhigh := (h.addrs v (List.mem_cons_self ..)).2.1
  refine h.unmap h0 ?_
  unfold mmmEnd at hhigh
  omega

/-! ## 3. Freeing -/

theorem freeTzPackageOnly_holding (h0 : MapableOk k0) (h : TzHolding k0 s) :
    ∃ k', freeTzPackageOnly s = some ⟨k', 0, s.teeMem, s.comMem⟩ ∧
      TzHolding k0 ⟨k', 0, s.teeMem, s.comMem⟩ := by
  obtain ⟨k, p, t, c⟩ := s
  obtain ⟨hh, hp, ht, hc⟩ := h
  unfold freeTzPackageOnly
  by_cases hv : p = 0
  · subst hv
    exact ⟨k, rfl, hh, hp, ht, hc⟩
  · obtain ⟨k', hun, hh'⟩ := unmapMemory_holding h0 (hh.perm (perm_live_package hv)) hp
    refine ⟨k', ?_, hh', null_end (by decide), ht, hc⟩
    rw [if_pos hv, hun]
    rfl

theorem freeTzTeeMemory_holding (h0 : MapableOk k0) (h : TzHolding k0 s) :
    ∃ k', freeTzTeeMemory s = some ⟨k', s.package, 0, s.comMem⟩ ∧
      TzHolding k0 ⟨k', s.package, 0, s.comMem⟩ := by
  obtain ⟨k, p, t, c⟩ := s
  obtain ⟨hh, hp, ht, hc⟩ := h
  unfold freeTzTeeMemory
  by_cases hv : t = 0
  · subst hv
    exact ⟨k, rfl, hh, hp, ht, hc⟩
  · obtain ⟨k', hun, hh'⟩ := unmapMemory_holding h0 (hh.perm (perm_live_teeMem hv)) ht
    refine ⟨k', ?_, hh', hp, null_end (by decide), hc⟩
    rw [if_pos hv, hun]
    rfl

theorem freeTzCommunicationMemory_holding (h0 : MapableOk k0) (h : TzHolding k0 s) :
    ∃ k', freeTzCommunicationMemory s = some ⟨k', s.package, s.teeMem, 0⟩ ∧
      TzHolding k0 ⟨k', s.package, s.teeMem, 0⟩ := by
  obtain ⟨k, p, t, c⟩ := s
  obtain ⟨hh, hp, ht, hc⟩ := h
  unfold freeTzCommunicationMemory
  by_cases hv : c = 0
  · subst hv
    exact ⟨k, rfl, hh, hp, ht, hc⟩
  · obtain ⟨k', hun, hh'⟩ := unmapMemory_holding h0 (hh.perm (perm_live_comMem hv)) hc
    refine ⟨k', ?_, hh', hp, ht, null_end (by decide)⟩
    rw [if_pos hv, hun]
    rfl

/-- **`free_tz_package`** leaves nothing held. -/
theorem freeTzPackage_holding (h0 : MapableOk k0) (h : TzHolding k0 s) :
    ∃ k', freeTzPackage s = some ⟨k', 0, 0, 0⟩ ∧ TzHolding k0 ⟨k', 0, 0, 0⟩ := by
  obtain ⟨k1, hf1, h1⟩ := freeTzPackageOnly_holding h0 h
  obtain ⟨k2, hf2, h2⟩ := freeTzTeeMemory_holding h0 h1
  obtain ⟨k3, hf3, h3⟩ := freeTzCommunicationMemory_holding h0 h2
  refine ⟨k3, ?_, h3⟩
  unfold freeTzPackage
  rw [hf1, Option.bind_eq_bind, Option.bind_some, hf2, Option.bind_some]
  exact hf3

/-! ## 4. Setting -/

theorem setTzTeeMemory_holding {ptr : Nat} (h0 : MapableOk k0) (h : TzHolding k0 s)
    (hl : PageLocal ptr sizeofTzTeeSpace) :
    ∃ r s', setTzTeeMemory s ptr = some (r, s') ∧ TzHolding k0 s' := by
  obtain ⟨k', hf, h'⟩ := freeTzTeeMemory_holding h0 h
  unfold setTzTeeMemory
  rw [hf]
  refine ⟨_, _, rfl, ?_⟩
  simp only
  rcases mapNonsecure_holding h0 h'.held hl with hr | ⟨hne, hh, hend⟩
  · rw [hr]
    exact h'
  · exact ⟨hh.perm (perm_live_teeMem hne).symm, h'.packageEnd, hend, h'.comMemEnd⟩

theorem setTzCommunicationMemory_holding {ptr : Nat} (h0 : MapableOk k0) (h : TzHolding k0 s)
    (hl : PageLocal ptr sizeofTzCtlrSpace) :
    ∃ r s', setTzCommunicationMemory s ptr = some (r, s') ∧ TzHolding k0 s' := by
  obtain ⟨k', hf, h'⟩ := freeTzCommunicationMemory_holding h0 h
  unfold setTzCommunicationMemory
  rw [hf]
  refine ⟨_, _, rfl, ?_⟩
  simp only
  rcases mapNonsecure_holding h0 h'.held hl with hr | ⟨hne, hh, hend⟩
  · rw [hr]
    exact h'
  · exact ⟨hh.perm (perm_live_comMem hne).symm, h'.packageEnd, h'.teeMemEnd, hend⟩

/-- **`set_tz_package`** returns, and holds what it keeps the addresses of. -/
theorem setTzPackage_holding {paddr teePaddr ctrlPaddr : Nat} (h0 : MapableOk k0)
    (h : TzHolding k0 s) (hp : PageLocal paddr sizeofTzPackage)
    (ht : PageLocal teePaddr sizeofTzTeeSpace) (hc : PageLocal ctrlPaddr sizeofTzCtlrSpace) :
    ∃ r s', setTzPackage s paddr teePaddr ctrlPaddr = some (r, s') ∧ TzHolding k0 s' := by
  have hfail : ∀ s, TzHolding k0 s →
      ∃ r s', (freeTzPackage s).bind (fun s => some ((-1 : Int), s)) = some (r, s') ∧
        TzHolding k0 s' := by
    intro s hs
    obtain ⟨k', hf, hs'⟩ := freeTzPackage_holding h0 hs
    exact ⟨-1, _, by rw [hf]; rfl, hs'⟩
  unfold setTzPackage
  by_cases hz : paddr = 0
  · rw [if_pos hz]
    exact ⟨_, _, rfl, h⟩
  · rw [if_neg hz]
    obtain ⟨k1, hf, h1⟩ := freeTzPackage_holding h0 h
    rw [hf, Option.bind_eq_bind, Option.bind_some]
    simp only
    rcases mapNonsecure_holding h0 h1.held hp with hr | ⟨hne, hh, hend⟩
    · rw [hr]
      exact ⟨-1, _, rfl, h1⟩
    · rw [if_neg hne]
      have h2 : TzHolding k0 ⟨_, _, 0, 0⟩ :=
        ⟨hh.perm (perm_live_package hne).symm, hend, h1.teeMemEnd, h1.comMemEnd⟩
      by_cases htz : teePaddr = 0
      · rw [if_pos htz]
        exact hfail _ h2
      · rw [if_neg htz]
        obtain ⟨r, s3, hset, h3⟩ := setTzTeeMemory_holding h0 h2 ht
        rw [hset, Option.bind_eq_bind, Option.bind_some]
        simp only
        by_cases hr3 : r ≠ 0
        · rw [if_pos hr3]
          exact hfail _ h3
        · rw [if_neg hr3]
          by_cases hcz : ctrlPaddr = 0
          · rw [if_pos hcz]
            exact hfail _ h3
          · rw [if_neg hcz]
            obtain ⟨r, s4, hset, h4⟩ := setTzCommunicationMemory_holding h0 h3 hc
            rw [hset, Option.bind_some]
            simp only
            by_cases hr4 : r ≠ 0
            · rw [if_pos hr4]
              exact hfail _ h4
            · rw [if_neg hr4]
              exact ⟨0, s4, rfl, h4⟩

/-! ## 5. Rounds -/

/-- One call with structures inside one page each returns, and keeps what is held. -/
theorem tzStep_holding {c : TzCall} (h0 : MapableOk k0) (h : TzHolding k0 s) (hc : c.PageLocal) :
    ∃ s', tzStep s c = some s' ∧ TzHolding k0 s' := by
  cases c with
  | setTzPackage paddr teePaddr ctrlPaddr =>
    obtain ⟨hp, ht, hc⟩ := hc
    obtain ⟨r, s', hset, h'⟩ := setTzPackage_holding h0 h hp ht hc
    exact ⟨s', by rw [tzStep, hset]; rfl, h'⟩
  | freeTzPackage =>
    obtain ⟨k', hf, h'⟩ := freeTzPackage_holding h0 h
    exact ⟨_, hf, h'⟩

/-- Any number of such calls. -/
theorem tzRun_holding (h0 : MapableOk k0) :
    ∀ {calls : List TzCall} {s : TzState}, TzHolding k0 s → (∀ c ∈ calls, c.PageLocal) →
      ∃ s', Run (stepOf tzStep) s calls s' ∧ TzHolding k0 s'
  | [], s, h, _ => ⟨s, Run.nil s, h⟩
  | c :: calls, s, h, hc => by
    obtain ⟨s1, hstep, h1⟩ := tzStep_holding h0 h (hc c (List.mem_cons_self ..))
    obtain ⟨s', hrun, h'⟩ := tzRun_holding h0 h1 fun c hmem => hc c (List.mem_cons_of_mem _ hmem)
    exact ⟨s', Run.cons hstep hrun, h'⟩

/-- **Where a map and an unmap restore the area.**  In every state that mapping and unmapping can
reach, a mapping is undone exactly when the range and its end lie in one page; and any number of
rounds with structures that do returns, and leaves, once they are freed, the area as it was. -/
theorem mapable_area_restored {ops : List MmOp} (h0 : Mapable k0)
    (hreach : Run (stepOf mmStep) k0 ops k) :
    (∀ paddr size access cache buffer nonsecure, paddr < 4294967296 → size < 4294967296 →
      (mapPhysMem k paddr size access cache buffer nonsecure).1 ≠ 0 →
      ((∃ k', unmapMemory (mapPhysMem k paddr size access cache buffer nonsecure).2
          (mapPhysMem k paddr size access cache buffer nonsecure).1 size = some k' ∧
          Restored k k') ↔
        (paddr + size) / 4096 = paddr / 4096)) ∧
    ∀ calls : List TzCall, (∀ c ∈ calls, c.PageLocal) →
      ∃ s s', Run (stepOf tzStep) ⟨k, 0, 0, 0⟩ calls s ∧ freeTzPackage s = some s' ∧
        Restored k s'.k := by
  have hk := (mapable_of_run h0 hreach).toMapableOk
  constructor
  · intro paddr size access cache buffer nonsecure hp hs hv
    exact unmapMemory_restores hk hp hs hv
  · intro calls hcalls
    obtain ⟨s, hrun, h⟩ := tzRun_holding hk (TzHolding.start hk) hcalls
    obtain ⟨k', hf, h'⟩ := freeTzPackage_holding hk h
    exact ⟨s, _, hrun, hf, h'.held.restored⟩

/-- From a state with a mapping: a mapping inside a page is undone, and so are two rounds. -/
theorem mapable_area_restored_boot :
    ∃ k, Run (stepOf mmStep) bootKernel [.mapPhysMem 0xB0000010 100 1 0 0 1] k ∧
      (∃ k', unmapMemory (mapPhysMem k 0xB0000F00 80 1 0 0 1).2
        (mapPhysMem k 0xB0000F00 80 1 0 0 1).1 80 = some k' ∧ Restored k k') ∧
      ∃ s s', Run (stepOf tzStep) ⟨k, 0, 0, 0⟩
          [.setTzPackage 0xB0001000 0xB0002000 0xB0003000, .freeTzPackage,
            .setTzPackage 0xB0004F00 0xB0002000 0] s ∧
        freeTzPackage s = some s' ∧ Restored k s'.k := by
  have hreach : Run (stepOf mmStep) bootKernel [.mapPhysMem 0xB0000010 100 1 0 0 1] _ :=
    Run.cons rfl (Run.nil _)
  obtain ⟨hpair, hrounds⟩ := mapable_area_restored bootKernel_mapable hreach
  refine ⟨_, hreach, ?_, hrounds _ ?_⟩
  · exact (hpair 0xB0000F00 80 1 0 0 1 (by decide) (by decide) (by decide +kernel)).mpr (by decide)
  · intro c hc
    simp only [List.mem_cons, List.not_mem_nil, or_false] at hc
    rcases hc with rfl | rfl | rfl
    · exact ⟨by decide, by decide, by decide⟩
    · trivial
    · exact ⟨by decide, by decide, by decide⟩

/-- The last byte of a page and the first of the next: the second page is not given back.  Nor is
that of a package whose last eight bytes are on the next page, after a round of its own. -/
theorem mapable_area_not_restored :
    (mapPhysMem bootKernel 0xB0000FFF 2 1 0 0 1).1 = 0x80000FFF ∧
      ¬ (∃ k', unmapMemory (mapPhysMem bootKernel 0xB0000FFF 2 1 0 0 1).2 0x80000FFF 2 = some k' ∧
        Restored bootKernel k') ∧
      ∃ s', Run (stepOf tzStep) ⟨bootKernel, 0, 0, 0⟩
          [.setTzPackage 0xB0000FFC 0xB0002000 0xB0003000, .freeTzPackage] s' ∧
        ¬ Restored bootKernel s'.k := by
  refine ⟨by decide +kernel, ?_, ?_⟩
  · rintro ⟨k', hun, hfree, -⟩
    have hleft : (unmapMemory (mapPhysMem bootKernel 0xB0000FFF 2 1 0 0 1).2 0x80000FFF 2).map
        (fun k => k.mmm.isFree 1) = some false := by
      decide +kernel
    rw [hun] at hleft
    have h1 := (hfree 1).symm.trans (Option.some.inj hleft)
    exact absurd h1 (by decide)
  · refine ⟨_, Run.cons (Option.some_get ?_).symm (Run.cons (Option.some_get ?_).symm (Run.nil _)), ?_⟩
    · decide +kernel
    · decide +kernel
    · rintro ⟨hfree, -⟩
      have h1 := hfree 1
      revert h1
      decide +kernel

end AndixOs.Monitor
