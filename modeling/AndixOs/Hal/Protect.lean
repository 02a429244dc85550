/-
# Protected memory

The secure world keeps its memory to itself in two ways.  At the start `pmm_protect_secure_mem` has
the memory controller lock each secure area (`imx_m4if.c`), and when the non-secure world still gets
to one, the abort handler is to stop the system (`pmm_stop_on_protected_mem`).

The controller has two chip selects, each with a watermark and a record of the area it guards.
Unlocking switches the watermark off and leaves the record, so nothing that was locked is ever
unlocked in full: records and watermarks are in step on the runs that unlock nothing, and on no
others (`m4if_run_iff`).  The abort handler compares the wrong way round (`pmmStop_right_iff`).
-/
import AndixOs.Lib.Run
import Mathlib.Logic.Function.Basic
import Mathlib.Tactic.SplitIfs

namespace AndixOs.Hal

open AndixOs

/-! ## 1. `imx_m4if.c` -/

/-- The chip selects of the controller. -/
inductive ChipSelect where
  | cs0
  | cs1
  deriving DecidableEq

/-- `imx_m4if_protected_area_t`. -/
structure ProtectedArea where
  physicalStart : UInt32
  physicalEnd : UInt32
  deriving DecidableEq

/-- The registers `wm0_start_cs0`, `wm0_start_cs1`, `wm0_end_cs0`, `wm0_end_cs1` and `wm0_status`, and
the records `cs0` and `cs1`, `none` for `NULL`. -/
structure M4if where
  wm0Start : ChipSelect → UInt32
  wm0End : ChipSelect → UInt32
  wm0Status : UInt32
  record : ChipSelect → Option ProtectedArea

/-- `HAL_*`. -/
inductive HalResult where
  | success
  | outOfMemory
  | outOfResources
  | ioctlParaInvalid
  deriving DecidableEq

/-- The bit that switches a watermark on, in its start register and in the status. -/
def wmEnable : UInt32 := 0x80000000

/-- `imx_m4if_get_cs`, `none` for -1. -/
def imxM4ifGetCs (physicalStart size : UInt32) : Option ChipSelect :=
  let physicalEnd := physicalStart + size
  if 0xC0000000 ≤ physicalStart ∧ physicalEnd < 0xD0000000 then some .cs1
  else if 0xB0000000 ≤ physicalStart ∧ physicalEnd < 0xC0000000 then some .cs1
  else if 0x80000000 ≤ physicalStart ∧ physicalEnd < 0x90000000 then some .cs0
  else if 0x70000000 ≤ physicalStart ∧ physicalEnd < 0x80000000 then some .cs0
  else none

/-- `imx_m4if_protect_mem`, the same for both chip selects; `allocOk` says whether `kmalloc` has
memory for the record. -/
def imxM4ifProtectMem (m : M4if) (physicalStart size : UInt32) (allocOk : Bool) :
    HalResult × M4if :=
  let physicalEnd := physicalStart + size
  match imxM4ifGetCs physicalStart size with
  | none => (.ioctlParaInvalid, m)
  | some cs =>
    if (m.record cs).isSome then (.outOfResources, m)
    else if allocOk = false then (.outOfMemory, m)
    else
      (.success,
        { wm0Start := Function.update m.wm0Start cs (wmEnable ||| physicalStart >>> 12)
          wm0End := Function.update m.wm0End cs (physicalEnd >>> 12)
          wm0Status := wmEnable
          record := Function.update m.record cs (some ⟨physicalStart, physicalEnd⟩) })

/-- The writes that switch a watermark off: the record is not touched. -/
def M4if.switchOff (m : M4if) (cs : ChipSelect) : M4if :=
  { m with wm0Start := Function.update m.wm0Start cs 0, wm0Status := wmEnable }

/-- `imx_m4if_unprotect_mem`: the record of chip select 1 is looked at when there is none of chip
select 0. -/
def imxM4ifUnprotectMem (m : M4if) (physicalStart size : UInt32) : HalResult × M4if :=
  let area : ProtectedArea := ⟨physicalStart, physicalStart + size⟩
  match m.record .cs0 with
  | some a => if a = area then (.success, m.switchOff .cs0) else (.ioctlParaInvalid, m)
  | none =>
    match m.record .cs1 with
    | some a => if a = area then (.success, m.switchOff .cs1) else (.ioctlParaInvalid, m)
    | none => (.ioctlParaInvalid, m)

/-- `TZ_MEM_IOCTL_LOCK_MEMORY` and `TZ_MEM_IOCTL_UNLOCK_MEMORY`. -/
inductive M4ifRequest where
  | lock (physicalAddr size : UInt32) (allocOk : Bool)
  | unlock (physicalAddr size : UInt32)

/-- `imx_m4if_ioctl`. -/
def imxM4ifIoctl (m : M4if) : M4ifRequest → HalResult × M4if
  | .lock physicalAddr size allocOk => imxM4ifProtectMem m physicalAddr size allocOk
  | .unlock physicalAddr size => imxM4ifUnprotectMem m physicalAddr size

/-! ## 2. Records and watermarks -/

/-- The enable bit is set. -/
def isEnabled (reg : UInt32) : Bool := reg.toNat.testBit 31

/-- The watermark of a chip select is on. -/
def M4if.enabled (m : M4if) (cs : ChipSelect) : Bool :=
  isEnabled m.wm0Status && isEnabled (m.wm0Start cs)

/-- The watermark is on with the pages of this area. -/
structure M4if.Guards (m : M4if) (cs : ChipSelect) (a : ProtectedArea) : Prop where
  enabled : m.enabled cs = true
  start : m.wm0Start cs = wmEnable ||| a.physicalStart >>> 12
  end_ : m.wm0End cs = a.physicalEnd >>> 12

/-- A record is there exactly when the watermark is on, and with that area. -/
def M4if.InStep (m : M4if) : Prop :=
  ∀ cs, match m.record cs with
    | some a => m.Guards cs a
    | none => m.enabled cs = false

/-- The controller after `imx_m4if_probe`: there is no record, and the hardware has come out of its
reset with the watermarks off. -/
structure M4if.Probed (m : M4if) : Prop where
  records : ∀ cs, m.record cs = none
  off : ∀ cs, isEnabled (m.wm0Start cs) = false

/-- The request unlocks the area that is locked for this chip select. -/
def M4ifRequest.Unlocks (q : M4ifRequest) (m : M4if) (cs : ChipSelect) : Prop :=
  match q with
  | .lock _ _ _ => False
  | .unlock physicalAddr size => m.record cs = some ⟨physicalAddr, physicalAddr + size⟩

/-- What unlocking it should do: succeed, switch that watermark off and nothing else, and leave the
chip select free for any area of its own. -/
structure UnlockRight (m : M4if) (cs : ChipSelect) (r : HalResult) (m' : M4if) : Prop where
  success : r = .success
  off : m'.enabled cs = false
  others : ∀ cs', cs' ≠ cs → m'.enabled cs' = m.enabled cs' ∧ m'.wm0Start cs' = m.wm0Start cs' ∧
    m'.wm0End cs' = m.wm0End cs' ∧ m'.record cs' = m.record cs'
  again : ∀ start size, imxM4ifGetCs start size = some cs →
    (imxM4ifProtectMem m' start size true).1 = .success

/-- A request after which records and watermarks are in step, and which unlocks right if it unlocks
something. -/
def GoodRequest (m : M4if) (q : M4ifRequest) (m' : M4if) : Prop :=
  m'.InStep ∧ ∀ cs, q.Unlocks m cs → UnlockRight m cs (imxM4ifIoctl m q).1 m'

/-! ## 3. Locking -/

variable {m m' : M4if} {cs : ChipSelect} {start size : UInt32} {q : M4ifRequest}

theorem isEnabled_or (x : UInt32) : isEnabled (wmEnable ||| x) = true := by
  unfold isEnabled wmEnable
  rw [UInt32.toNat_or, Nat.testBit_or]
  rfl

/-- A lock request is refused and changes nothing, or records the area and guards it. -/
theorem imxM4ifProtectMem_cases (m : M4if) (start size : UInt32) (allocOk : Bool) :
    ((imxM4ifProtectMem m start size allocOk).1 ≠ .success ∧
        (imxM4ifProtectMem m start size allocOk).2 = m) ∨
      ∃ cs, imxM4ifGetCs start size = some cs ∧ m.record cs = none ∧
        imxM4ifProtectMem m start size allocOk = (.success,
          { wm0Start := Function.update m.wm0Start cs (wmEnable ||| start >>> 12)
            wm0End := Function.update m.wm0End cs ((start + size) >>> 12)
            wm0Status := wmEnable
            record := Function.update m.record cs (some ⟨start, start + size⟩) }) := by
  unfold imxM4ifProtectMem
  cases hcs : imxM4ifGetCs start size with
  | none => exact Or.inl ⟨by simp, rfl⟩
  | some cs =>
    simp only
    split_ifs with hrec halloc
    · exact Or.inl ⟨by simp, rfl⟩
    · exact Or.inl ⟨by simp, rfl⟩
    · exact Or.inr ⟨cs, rfl, by simpa using hrec, rfl⟩

/-- The watermarks that are off stay off when the status is switched on. -/
def M4if.Ready (m : M4if) : Prop := ∀ cs, m.record cs = none → isEnabled (m.wm0Start cs) = false

theorem M4if.Probed.ready (h : m.Probed) : m.Ready := fun cs _ => h.off cs

theorem M4if.Probed.inStep (h : m.Probed) : m.InStep := by
  intro cs
  rw [h.records cs]
  simp only [M4if.enabled, h.off cs, Bool.and_false]

/-- **Locking** keeps records and watermarks in step. -/
theorem inStep_protect (h : m.InStep) (hr : m.Ready) (start size : UInt32) (allocOk : Bool) :
    (imxM4ifProtectMem m start size allocOk).2.InStep ∧
      (imxM4ifProtectMem m start size allocOk).2.Ready := by
  obtain ⟨-, hsame⟩ | ⟨cs, -, hfree, heq⟩ := imxM4ifProtectMem_cases m start size allocOk
  · rw [hsame]
    exact ⟨h, hr⟩
  · rw [heq]
    have hstatus : isEnabled wmEnable = true := rfl
    constructor
    · intro cs'
      by_cases hcs : cs' = cs
      · subst hcs
        simp only [Function.update_self]
        refine ⟨?_, Function.update_self .., Function.update_self ..⟩
        simp only [M4if.enabled, Function.update_self, isEnabled_or, hstatus, Bool.and_true]
      · have hother := h cs'
        simp only [Function.update_of_ne hcs]
        cases hrec : m.record cs' with
        | none =>
          simp only [M4if.enabled, Function.update_of_ne hcs, hr cs' hrec, Bool.and_false]
        | some a =>
          rw [hrec] at hother
          have hon := hother.enabled
          rw [M4if.enabled, Bool.and_eq_true] at hon
          refine ⟨?_, (Function.update_of_ne hcs ..).trans hother.start,
            (Function.update_of_ne hcs ..).trans hother.end_⟩
          simp only [M4if.enabled, Function.update_of_ne hcs, hon.2, hstatus, Bool.and_true]
    · intro cs' hnone
      simp only at hnone ⊢
      by_cases hcs : cs' = cs
      · subst hcs
        rw [Function.update_self] at hnone
        exact absurd hnone (Option.some_ne_none _)
      · rw [Function.update_of_ne hcs] at hnone ⊢
        exact hr cs' hnone

/-! ## 4. Unlocking -/

/-- No record ever goes. -/
theorem record_unprotect (m : M4if) (start size : UInt32) :
    (imxM4ifUnprotectMem m start size).2.record = m.record := by
  unfold imxM4ifUnprotectMem
  simp only
  split
  · split <;> rfl
  · split
    · split <;> rfl
    · rfl

/-- A request to unlock what is not locked is refused. -/
theorem unprotect_other (h : ∀ cs, ¬ (M4ifRequest.unlock start size).Unlocks m cs) :
    imxM4ifUnprotectMem m start size = (.ioctlParaInvalid, m) := by
  have hne : ∀ cs a, m.record cs = some a → a ≠ ⟨start, start + size⟩ :=
    fun cs a hrec heq => h cs (hrec.trans (congrArg some heq))
  unfold imxM4ifUnprotectMem
  simp only
  split
  · rename_i a hrec
    rw [if_neg (hne .cs0 a hrec)]
  · split
    · rename_i a hrec
      rw [if_neg (hne .cs1 a hrec)]
    · rfl

/-- **What is locked is never unlocked**: its record stays, so it would have to stay guarded. -/
theorem not_good_unlock (hun : q.Unlocks m cs) (hgood : GoodRequest m q (imxM4ifIoctl m q).2) :
    False := by
  cases q with
  | lock start size allocOk => exact hun
  | unlock start size =>
    obtain ⟨hstep, hright⟩ := hgood
    have hrec : (imxM4ifIoctl m (.unlock start size)).2.record cs = some ⟨start, start + size⟩ :=
      (congrFun (record_unprotect m start size) cs).trans hun
    have hguards := hstep cs
    rw [hrec] at hguards
    exact absurd (hguards.enabled.symm.trans (hright cs hun).off) (by decide)

/-! ## 5. Runs -/

/-- A request is served. -/
def m4ifStep (m : M4if) (q : M4ifRequest) (m' : M4if) : Prop := (imxM4ifIoctl m q).2 = m'

/-- **Every run of requests.**  Every request leaves the records in step with the watermarks, and
those that unlock a locked area do so in full, exactly when no request names an area that is
locked. -/
theorem m4if_run_iff {m m' : M4if} (hm : m.Probed) (qs : List M4ifRequest) :
    Run (fun m q m' => m4ifStep m q m' ∧ GoodRequest m q m') m qs m' ↔
      Run (Guarded (fun m q => ∀ cs, ¬ q.Unlocks m cs) m4ifStep) m qs m' := by
  refine Run.decided_iff (fun m => m.InStep ∧ m.Ready) ?_ ?_ ⟨hm.inStep, hm.ready⟩
  · rintro m q _ ⟨hstep, hready⟩ rfl hok
    cases q with
    | lock start size allocOk =>
      have hkeep := inStep_protect hstep hready start size allocOk
      exact ⟨hkeep, hkeep.1, fun cs hun => absurd hun (hok cs)⟩
    | unlock start size =>
      have hsame : (imxM4ifIoctl m (.unlock start size)).2 = m :=
        congrArg Prod.snd (unprotect_other hok)
      rw [hsame]
      exact ⟨⟨hstep, hready⟩, hstep, fun cs hun => absurd hun (hok cs)⟩
  · rintro m q _ - rfl hbad hgood
    obtain ⟨cs, hun⟩ := not_forall.mp hbad
    exact not_good_unlock (not_not.mp hun) hgood

/-- The controller out of its reset. -/
def resetM4if : M4if := ⟨fun _ => 0, fun _ => 0, 0, fun _ => none⟩

theorem resetM4if_probed : resetM4if.Probed where
  records := fun _ => rfl
  off := fun _ => Nat.zero_testBit 31

/-- Two areas of 1 MB, one for each chip select; a third finds its chip select taken. -/
def lockRequests : List M4ifRequest :=
  [.lock 0x70000000 0x100000 true, .lock 0xB0000000 0x100000 true, .lock 0x80000000 0x1000 true]

theorem m4if_run_locks : ∃ m, Run (fun m q m' => m4ifStep m q m' ∧ GoodRequest m q m')
    resetM4if lockRequests m ∧ m.record .cs1 = some ⟨0xB0000000, 0xB0100000⟩ := by
  have hrun : Run (Guarded (fun m q => ∀ cs, ¬ q.Unlocks m cs) m4ifStep) resetM4if lockRequests
      (exec (fun m q => (imxM4ifIoctl m q).2) resetM4if lockRequests) :=
    Run.cons ⟨fun _ => id, rfl⟩ (Run.cons ⟨fun _ => id, rfl⟩ (Run.cons ⟨fun _ => id, rfl⟩
      (Run.nil _)))
  exact ⟨_, (m4if_run_iff resetM4if_probed lockRequests).mpr hrun, rfl⟩

/-- An area is locked and unlocked: the watermark is off, the record stays, and the area cannot be
locked again. -/
theorem m4if_unlock_leaves_record :
    ∃ m m', Run m4ifStep resetM4if [.lock 0x70000000 0x100000 true] m ∧
      imxM4ifIoctl m (.unlock 0x70000000 0x100000) = (.success, m') ∧ m'.enabled .cs0 = false ∧
      m'.record .cs0 = some ⟨0x70000000, 0x70100000⟩ ∧ ¬ m'.InStep ∧
      (imxM4ifProtectMem m' 0x70000000 0x100000 true).1 = .outOfResources := by
  refine ⟨_, _, Run.cons rfl (Run.nil _), rfl, by decide, rfl, fun hstep => ?_, rfl⟩
  exact absurd (hstep .cs0).enabled (by decide)

/-! ## 6. `pmm.c` -/

/-- `phys_mem_area`. -/
structure PhysMemArea where
  pstart : UInt32
  pend : UInt32
  type : UInt32

def memTypeSecure : UInt32 := 1

def PhysMemArea.secure (a : PhysMemArea) : Bool := a.type == memTypeSecure

/-- `pmm_protect_secure_mem`; each area comes with whether `kmalloc` has memory for its record. -/
def pmmProtectSecureMem (m : M4if) : List (PhysMemArea × Bool) → Int × M4if
  | [] => (0, m)
  | (area, allocOk) :: l =>
    if area.secure then
      match imxM4ifProtectMem m area.pstart (area.pend - area.pstart) allocOk with
      | (.success, m) => pmmProtectSecureMem m l
      | (_, m) => (-1, m)
    else pmmProtectSecureMem m l

/-- `pmm_stop_on_protected_mem`: whether it comes to `kpanic`. -/
def pmmStopOnProtectedMem (physicalMemList : List PhysMemArea) (addr : UInt32) : Bool :=
  physicalMemList.any fun area => area.secure && (area.pstart ≥ addr && area.pend ≤ addr)

/-! ## 7. Locking the secure areas -/

/-- Locking keeps the records that are there. -/
theorem record_protect {a : ProtectedArea} (h : m.record cs = some a) (start size : UInt32)
    (allocOk : Bool) : (imxM4ifProtectMem m start size allocOk).2.record cs = some a := by
  obtain ⟨-, hsame⟩ | ⟨cs', -, hfree, heq⟩ := imxM4ifProtectMem_cases m start size allocOk
  · rw [hsame]
    exact h
  · rw [heq]
    have hne : cs ≠ cs' := by
      rintro rfl
      exact absurd (hfree.symm.trans h) nofun
    exact (Function.update_of_ne hne ..).trans h

theorem record_pmmProtectSecureMem {a : ProtectedArea} :
    ∀ {l : List (PhysMemArea × Bool)} {m : M4if}, m.record cs = some a →
      (pmmProtectSecureMem m l).2.record cs = some a
  | [], _, h => h
  | (area, allocOk) :: l, m, h => by
    have hkeep := record_protect h area.pstart (area.pend - area.pstart) allocOk
    rw [pmmProtectSecureMem]
    split
    · split
      · rename_i heq
        rw [heq] at hkeep
        exact record_pmmProtectSecureMem hkeep
      · rename_i heq
        rw [heq] at hkeep
        exact hkeep
    · exact record_pmmProtectSecureMem h

theorem inStep_pmmProtectSecureMem :
    ∀ {l : List (PhysMemArea × Bool)} {m : M4if}, m.InStep → m.Ready →
      (pmmProtectSecureMem m l).2.InStep
  | [], _, h, _ => h
  | (area, allocOk) :: l, m, h, hr => by
    have hkeep := inStep_protect h hr area.pstart (area.pend - area.pstart) allocOk
    rw [pmmProtectSecureMem]
    split
    · split
      · rename_i heq
        rw [heq] at hkeep
        exact inStep_pmmProtectSecureMem hkeep.1 hkeep.2
      · rename_i heq
        rw [heq] at hkeep
        exact hkeep.1
    · exact inStep_pmmProtectSecureMem h hr

/-- If it returns 0, each secure area has been recorded. -/
theorem exists_record :
    ∀ {l : List (PhysMemArea × Bool)} {m : M4if}, (pmmProtectSecureMem m l).1 = 0 →
      ∀ p ∈ l, p.1.secure = true →
        ∃ cs, (pmmProtectSecureMem m l).2.record cs = some ⟨p.1.pstart, p.1.pend⟩
  | [], _, _, _, hp, _ => absurd hp List.not_mem_nil
  | (area, allocOk) :: l, m, hzero, p, hp, hsec => by
    rw [pmmProtectSecureMem] at hzero ⊢
    by_cases harea : area.secure = true
    · rw [if_pos harea] at hzero ⊢
      obtain ⟨hno, -⟩ | ⟨cs, -, -, heq⟩ := imxM4ifProtectMem_cases m area.pstart
        (area.pend - area.pstart) allocOk
      · split at hzero
        · rename_i heq
          exact absurd (congrArg Prod.fst heq) hno
        · exact absurd hzero (by simp)
      · rw [heq] at hzero ⊢
        obtain rfl | hp := List.mem_cons.mp hp
        · have hend : area.pstart + (area.pend - area.pstart) = area.pend := by grind
          refine ⟨cs, record_pmmProtectSecureMem ?_⟩
          simp only [Function.update_self, hend]
        · exact exists_record hzero p hp hsec
    · rw [if_neg harea] at hzero ⊢
      obtain rfl | hp := List.mem_cons.mp hp
      · exact absurd hsec harea
      · exact exists_record hzero p hp hsec

/-- **When it returns 0**, each secure area is recorded for a chip select whose watermark guards
it. -/
theorem pmmProtectSecureMem_guards {l : List (PhysMemArea × Bool)} (h : m.InStep) (hr : m.Ready)
    (hzero : (pmmProtectSecureMem m l).1 = 0) :
    ∀ p ∈ l, p.1.secure = true →
      ∃ cs, (pmmProtectSecureMem m l).2.record cs = some ⟨p.1.pstart, p.1.pend⟩ ∧
        (pmmProtectSecureMem m l).2.Guards cs ⟨p.1.pstart, p.1.pend⟩ := by
  intro p hp hsec
  obtain ⟨cs, hcs⟩ := exists_record hzero p hp hsec
  have hguards := inStep_pmmProtectSecureMem (l := l) h hr cs
  rw [hcs] at hguards
  exact ⟨cs, hcs, hguards⟩

/-! ## 8. Stopping the system -/

/-- The address is in the area. -/
def PhysMemArea.Holds (a : PhysMemArea) (addr : UInt32) : Prop := a.pstart ≤ addr ∧ addr ≤ a.pend

/-- The system stops exactly when a secure area holds the address. -/
def StopsRight (l : List PhysMemArea) (addr : UInt32) : Prop :=
  pmmStopOnProtectedMem l addr = true ↔ ∃ a ∈ l, a.secure = true ∧ a.Holds addr

/-- Some secure area is just this address; or, where a secure area of more than one address holds
it, another one is written backwards around it, and the other way round. -/
def DegenerateWhereHeld (l : List PhysMemArea) (addr : UInt32) : Prop :=
  (∃ a ∈ l, a.secure = true ∧ a.pstart = addr ∧ a.pend = addr) ∨
    ((∃ a ∈ l, a.secure = true ∧ a.pstart < a.pend ∧ a.Holds addr) ↔
      ∃ a ∈ l, a.secure = true ∧ a.pend < a.pstart ∧ a.pend ≤ addr ∧ addr ≤ a.pstart)

/-- The comparison: the end is at or before the address, and the start at or behind it. -/
theorem pmmStop_eq_true {l : List PhysMemArea} {addr : UInt32} :
    pmmStopOnProtectedMem l addr = true ↔
      ∃ a ∈ l, a.secure = true ∧ a.pend ≤ addr ∧ addr ≤ a.pstart := by
  unfold pmmStopOnProtectedMem
  rw [List.any_eq_true]
  refine exists_congr fun a => and_congr_right fun _ => ?_
  simp only [Bool.and_eq_true, decide_eq_true_eq, ge_iff_le, and_comm]

/-- **When the abort handler is right**, for every list of areas and every address. -/
theorem pmmStop_right_iff (l : List PhysMemArea) (addr : UInt32) :
    StopsRight l addr ↔ DegenerateWhereHeld l addr := by
  unfold StopsRight DegenerateWhereHeld
  rw [pmmStop_eq_true]
  by_cases hone : ∃ a ∈ l, a.secure = true ∧ a.pstart = addr ∧ a.pend = addr
  · -- this area holds the address, and stops the system
    obtain ⟨a, ha, hsec, hstart, hend⟩ := hone
    refine iff_of_true (iff_of_true ⟨a, ha, hsec, ?_, ?_⟩ ⟨a, ha, hsec, ?_, ?_⟩)
      (Or.inl ⟨a, ha, hsec, hstart, hend⟩)
    · exact hend ▸ UInt32.le_refl _
    · exact hstart ▸ UInt32.le_refl _
    · exact hstart ▸ UInt32.le_refl _
    · exact hend ▸ UInt32.le_refl _
  · have hback : (∃ a ∈ l, a.secure = true ∧ a.pend ≤ addr ∧ addr ≤ a.pstart) ↔
        ∃ a ∈ l, a.secure = true ∧ a.pend < a.pstart ∧ a.pend ≤ addr ∧ addr ≤ a.pstart := by
      refine exists_congr fun a => and_congr_right fun ha => and_congr_right fun hsec => ?_
      refine ⟨fun h => ⟨?_, h⟩, fun h => h.2⟩
      by_contra hle
      exact hone ⟨a, ha, hsec, by grind, by grind⟩
    have hhold : (∃ a ∈ l, a.secure = true ∧ a.Holds addr) ↔
        ∃ a ∈ l, a.secure = true ∧ a.pstart < a.pend ∧ a.Holds addr := by
      refine exists_congr fun a => and_congr_right fun ha => and_congr_right fun hsec => ?_
      unfold PhysMemArea.Holds
      refine ⟨fun h => ⟨?_, h⟩, fun h => h.2⟩
      by_contra hle
      exact hone ⟨a, ha, hsec, by grind, by grind⟩
    rw [hback, hhold, or_iff_right hone]
    exact ⟨Iff.symm, Iff.symm⟩

/-- Areas as `init_vmm` makes them begin before they end: none of them ever stops the system. -/
theorem pmmStop_of_proper {l : List PhysMemArea} (hl : ∀ a ∈ l, a.pstart < a.pend)
    (addr : UInt32) : pmmStopOnProtectedMem l addr = false := by
  rw [← Bool.not_eq_true, pmmStop_eq_true]
  rintro ⟨a, ha, -, h1, h2⟩
  have hlt := hl a ha
  grind

/-- The secure memory and the memory behind it. -/
def memAreas : List PhysMemArea :=
  [⟨0x7A000000, 0x80000000, 0⟩, ⟨0x70000000, 0x79FFFFFF, memTypeSecure⟩]

/-- An access to the middle of the secure memory does not stop the system. -/
theorem pmmStop_misses : pmmStopOnProtectedMem memAreas 0x75000000 = false ∧
    ¬ StopsRight memAreas 0x75000000 := by
  refine ⟨by decide, fun h => ?_⟩
  have hstop := h.mpr ⟨⟨0x70000000, 0x79FFFFFF, memTypeSecure⟩, by simp [memAreas], rfl,
    by decide, by decide⟩
  exact absurd hstop (by decide)

end AndixOs.Hal
