/-
# The control slot of the driver

A trustlet that needs the file system of the normal world sends a control request through the process
that it works for.  `tz_process_ctrl_mem` of that process hands it to the service daemon and waits for
the answer.  Between the two stands `ctrl_mem.c`: one pointer to a request, and `pending`, which goes
round in four states.

All processes share the one slot, and nothing in it says whose request it holds.  A process that finds
the slot in use does not notice: it waits with the others, and the next answer is taken by whoever asks
first.

Processes and contents are of any type.  A step is one call of a function of `ctrl_mem.c`, which is one
critical section, or what happens between two of them.  `ctrl_run_iff` says which runs serve every
process.
-/
import AndixOs.Lib.Run
import Mathlib.Logic.Function.Basic

namespace AndixOs.Driver

open AndixOs

variable {ι C : Type}

/-! ## 1. `ctrl_mem.c` -/

/-- `pending`. -/
inductive Pending where
  | idle
  | pendingFromS
  | pendingInNs
  | responseFromNs
  deriving DecidableEq

/-- The variables of `ctrl_mem.c`.  `ctrlspace` points to the request of a process. -/
structure CtrlMem (ι : Type) where
  ctrlInit : Bool
  locked : Bool
  pending : Pending
  ctrlspace : Option ι

/-- What the functions share: nothing happens before `initialize_ctrl`, and `none` stands for a call
that waits for the mutex. -/
def CtrlMem.critical (s : CtrlMem ι) (body : Int × CtrlMem ι) : Option (Int × CtrlMem ι) :=
  if s.ctrlInit then
    if s.locked then none else some body
  else some (0, s)

/-- `poll_ctrl_task_to_ns`.  Where the copy fails, the mutex is kept. -/
def pollCtrlTaskToNs (copied : Bool) (s : CtrlMem ι) : Option (Int × CtrlMem ι) :=
  s.critical <|
    if s.pending = .pendingFromS then
      if copied then (1, { s with pending := .pendingInNs }) else (-1, { s with locked := true })
    else (0, s)

/-- `push_ctrl_task_from_ns`.  Where the copy fails, the mutex is kept. -/
def pushCtrlTaskFromNs (copied : Bool) (s : CtrlMem ι) : Option (Int × CtrlMem ι) :=
  s.critical <|
    if s.pending = .pendingInNs then
      if copied then (1, { s with pending := .responseFromNs }) else (-1, { s with locked := true })
    else (0, s)

/-- `push_ctrl_task_from_s`. -/
def pushCtrlTaskFromS (space : ι) (s : CtrlMem ι) : Option (Int × CtrlMem ι) :=
  s.critical <|
    if s.pending = .idle then (1, { s with pending := .pendingFromS, ctrlspace := some space })
    else (0, s)

/-- `poll_ctrl_task_to_s`. -/
def pollCtrlTaskToS (s : CtrlMem ι) : Option (Int × CtrlMem ι) :=
  s.critical <| if s.pending = .responseFromNs then (1, { s with pending := .idle }) else (0, s)

/-! ## 2. Processes and the daemon -/

/-- Where a process is: outside `tz_process_ctrl_mem`, before `push_ctrl_task_from_s`, in the loop around
`poll_ctrl_task_to_s`, or behind it. -/
inductive Phase where
  | out
  | push
  | wait
  | left
  deriving DecidableEq

/-- The slot, the processes with their `ctrlspace_1`, and the `TZ_CTLR_SPACE` of the daemon between a
poll and the push.  On record are, for each process, the request that it has from the secure world, what
was delivered to the daemon since, and the daemon's answer to it. -/
structure CtrlState (ι C : Type) where
  ctrl : CtrlMem ι
  phase : ι → Phase
  mem : ι → C
  comm : Option (ι × C)
  asked : ι → C
  delivered : ι → List C
  answered : ι → Option C

/-- The steps.  The secure world answers a process with a request (`ask`) or with the end of its
operation (`done`); `v` is what `dispatch_ctrl` makes of a request. -/
inductive CtrlStep (ι C : Type) where
  | ask (i : ι) (c : C)
  | done (i : ι)
  | pushS (i : ι)
  | pollS (i : ι)
  | pollNs (copied : Bool)
  | pushNs (copied : Bool) (v : C)

/-- The daemon gets what `ctrlspace` points to. -/
def CtrlState.deliver [DecidableEq ι] (s : CtrlState ι C) (ctrl : CtrlMem ι) : Option (CtrlState ι C) :=
  match s.ctrl.ctrlspace with
  | none => none
  | some i => some { s with
      ctrl := ctrl
      comm := some (i, s.mem i)
      delivered := Function.update s.delivered i (s.mem i :: s.delivered i) }

/-- The daemon's memory goes where `ctrlspace` points to; it was the answer to a request of `j`. -/
def CtrlState.answer [DecidableEq ι] (s : CtrlState ι C) (ctrl : CtrlMem ι) (j : ι) (v : C) (copied : Bool) :
    Option (CtrlState ι C) :=
  match s.ctrl.ctrlspace with
  | none => none
  | some i => some { s with
      ctrl := ctrl
      comm := none
      mem := Function.update s.mem i v
      answered := if copied then Function.update s.answered j (some v) else s.answered }

/-- One step, or `none` where it is not possible.  `tz_process_ctrl_mem` does not look at what
`push_ctrl_task_from_s` returns. -/
def ctrlStep [DecidableEq ι] (s : CtrlState ι C) : CtrlStep ι C → Option (CtrlState ι C)
  | .ask i c =>
    if s.phase i = .out ∨ s.phase i = .left then
      some { s with
        phase := Function.update s.phase i .push
        mem := Function.update s.mem i c
        asked := Function.update s.asked i c
        delivered := Function.update s.delivered i []
        answered := Function.update s.answered i none }
    else none
  | .done i =>
    if s.phase i = .left then some { s with phase := Function.update s.phase i .out } else none
  | .pushS i =>
    if s.phase i = .push then
      (pushCtrlTaskFromS i s.ctrl).map fun r =>
        { s with ctrl := r.2, phase := Function.update s.phase i .wait }
    else none
  | .pollS i =>
    if s.phase i = .wait then
      (pollCtrlTaskToS s.ctrl).map fun r =>
        { s with
          ctrl := r.2
          phase := if r.1 = (0 : Int) then s.phase else Function.update s.phase i .left }
    else none
  | .pollNs copied =>
    match s.comm, pollCtrlTaskToNs copied s.ctrl with
    | none, some (r, ctrl) => if r = 1 then s.deliver ctrl else some { s with ctrl := ctrl }
    | _, _ => none
  | .pushNs copied v =>
    match s.comm, pushCtrlTaskFromNs copied s.ctrl with
    | some (j, _), some (r, ctrl) =>
      if r = 0 then some { s with ctrl := ctrl, comm := none } else s.answer ctrl j v copied
    | _, _ => none

/-- The module has been loaded, and no process is in `tz_process_ctrl_mem`. -/
def ctrlStart (m : ι → C) : CtrlState ι C :=
  ⟨⟨true, false, .idle, none⟩, fun _ => .out, m, none, m, fun _ => [], fun _ => none⟩

/-! ## 3. What is asked of a state, and of a step -/

/-- Every process is served: a request is delivered no more than once; one that waits and is not
delivered yet is what the daemon polls next, and the daemon can get at it; and whoever has left the loop
had its request delivered, and has the answer to it. -/
structure CtrlServed (s : CtrlState ι C) : Prop where
  free : s.ctrl.locked = false
  once : ∀ i, s.delivered i = [] ∨ s.delivered i = [s.asked i]
  next : ∀ i, s.phase i = .wait → s.delivered i = [] →
    s.ctrl.pending = .pendingFromS ∧ s.ctrl.ctrlspace = some i
  left : ∀ i, s.phase i = .left → s.delivered i = [s.asked i] ∧ s.answered i = some (s.mem i)

/-- The condition on a step: a request comes to an empty slot, and what the daemon asks to be copied is
copied. -/
def CtrlQuiet (s : CtrlState ι C) : CtrlStep ι C → Prop
  | .pushS _ => s.ctrl.pending = .idle
  | .pollNs copied => s.ctrl.pending = .pendingFromS → copied = true
  | .pushNs copied _ => copied = true
  | _ => True

/-- The process `i` waits, and no other one. -/
def OnlyWaits (s : CtrlState ι C) (i : ι) : Prop := ∀ j, s.phase j = .wait ↔ j = i

/-- What the slot and the daemon have, by the state of the slot. -/
def SlotInv (s : CtrlState ι C) : Pending → Prop
  | .idle => s.comm = none ∧ ∀ j, s.phase j ≠ .wait
  | .pendingFromS => ∃ i, s.ctrl.ctrlspace = some i ∧ OnlyWaits s i ∧ s.comm = none ∧
      s.delivered i = [] ∧ s.mem i = s.asked i
  | .pendingInNs => ∃ i, s.ctrl.ctrlspace = some i ∧ OnlyWaits s i ∧
      s.comm = some (i, s.asked i) ∧ s.delivered i = [s.asked i]
  | .responseFromNs => ∃ i, s.ctrl.ctrlspace = some i ∧ OnlyWaits s i ∧ s.comm = none ∧
      s.delivered i = [s.asked i] ∧ s.answered i = some (s.mem i)

/-- The invariant of a run without a request to a slot in use. -/
structure CtrlInv (s : CtrlState ι C) : Prop where
  init : s.ctrl.ctrlInit = true
  free : s.ctrl.locked = false
  slot : SlotInv s s.ctrl.pending
  push : ∀ i, s.phase i = .push → s.delivered i = [] ∧ s.mem i = s.asked i
  once : ∀ i, s.delivered i = [] ∨ s.delivered i = [s.asked i]
  left : ∀ i, s.phase i = .left → s.delivered i = [s.asked i] ∧ s.answered i = some (s.mem i)

variable {s t : CtrlState ι C}

theorem ctrlInv_start (m : ι → C) : CtrlInv (ctrlStart m) where
  init := rfl
  free := rfl
  slot := ⟨rfl, fun _ => nofun⟩
  push := fun _ => nofun
  once := fun _ => Or.inl rfl
  left := fun _ => nofun

theorem CtrlInv.served (h : CtrlInv s) : CtrlServed s where
  free := h.free
  once := h.once
  next := by
    intro i hwait hnew
    have hslot := h.slot
    cases hp : s.ctrl.pending with
    | idle =>
      rw [hp] at hslot
      exact absurd hwait (hslot.2 i)
    | pendingFromS =>
      rw [hp] at hslot
      obtain ⟨j, hspace, honly, _⟩ := hslot
      exact ⟨rfl, (honly i).mp hwait ▸ hspace⟩
    | pendingInNs =>
      rw [hp] at hslot
      obtain ⟨j, _, honly, _, hdel⟩ := hslot
      obtain rfl := (honly i).mp hwait
      rw [hnew] at hdel
      exact absurd hdel nofun
    | responseFromNs =>
      rw [hp] at hslot
      obtain ⟨j, _, honly, _, hdel, _⟩ := hslot
      obtain rfl := (honly i).mp hwait
      rw [hnew] at hdel
      exact absurd hdel nofun
  left := h.left

/-! ## 4. What a step keeps -/

theorem critical_eq {c : CtrlMem ι} (hinit : c.ctrlInit = true) (hfree : c.locked = false)
    (body : Int × CtrlMem ι) : c.critical body = some body := by
  simp [CtrlMem.critical, hinit, hfree]

/-- What is said of the slot depends on the processes that wait only. -/
theorem SlotInv.congr {p : Pending} (h : SlotInv s p) (hspace : t.ctrl.ctrlspace = s.ctrl.ctrlspace)
    (hcomm : t.comm = s.comm) (hwait : ∀ j, t.phase j = .wait ↔ s.phase j = .wait)
    (hsame : ∀ j, s.phase j = .wait → t.mem j = s.mem j ∧ t.asked j = s.asked j ∧
      t.delivered j = s.delivered j ∧ t.answered j = s.answered j) : SlotInv t p := by
  have honly : ∀ {i}, OnlyWaits s i → OnlyWaits t i := fun h j => (hwait j).trans (h j)
  cases p with
  | idle => exact ⟨hcomm.trans h.1, fun j hj => h.2 j ((hwait j).mp hj)⟩
  | pendingFromS =>
    obtain ⟨i, hi, hw, hc, hd, hm⟩ := h
    obtain ⟨h1, h2, h3, _⟩ := hsame i ((hw i).mpr rfl)
    exact ⟨i, hspace.trans hi, honly hw, hcomm.trans hc, h3.trans hd, h1.trans (hm.trans h2.symm)⟩
  | pendingInNs =>
    obtain ⟨i, hi, hw, hc, hd⟩ := h
    obtain ⟨_, h2, h3, _⟩ := hsame i ((hw i).mpr rfl)
    exact ⟨i, hspace.trans hi, honly hw, by rw [hcomm, hc, h2], by rw [h3, hd, h2]⟩
  | responseFromNs =>
    obtain ⟨i, hi, hw, hc, hd, ha⟩ := h
    obtain ⟨h1, h2, h3, h4⟩ := hsame i ((hw i).mpr rfl)
    exact ⟨i, hspace.trans hi, honly hw, hcomm.trans hc, by rw [h3, hd, h2], by rw [h4, ha, h1]⟩

/-- Only in `pendingInNs` has the daemon a request. -/
theorem CtrlInv.inNs {x : ι × C} (h : CtrlInv s) (hcomm : s.comm = some x) :
    s.ctrl.pending = .pendingInNs := by
  have hslot := h.slot
  cases hp : s.ctrl.pending with
  | pendingInNs => rfl
  | idle =>
    rw [hp] at hslot
    exact absurd (hcomm.symm.trans hslot.1) nofun
  | pendingFromS =>
    rw [hp] at hslot
    obtain ⟨_, _, _, hnone, _⟩ := hslot
    exact absurd (hcomm.symm.trans hnone) nofun
  | responseFromNs =>
    rw [hp] at hslot
    obtain ⟨_, _, _, hnone, _⟩ := hslot
    exact absurd (hcomm.symm.trans hnone) nofun

variable [DecidableEq ι]

/-- A value that is not the new one was there before. -/
theorem eq_of_update {β : Type} {f : ι → β} {i j : ι} {p q : β} (hne : p ≠ q)
    (h : Function.update f i q j = p) : f j = p := by
  rcases eq_or_ne j i with rfl | hji
  · rw [Function.update_self] at h
    exact absurd h.symm hne
  · rwa [Function.update_of_ne hji] at h

theorem CtrlInv.ask (h : CtrlInv s) {i : ι} {c : C} (hstep : ctrlStep s (.ask i c) = some t) :
    CtrlInv t := by
  rw [ctrlStep] at hstep
  split at hstep
  case isFalse => exact absurd hstep nofun
  case isTrue hphase =>
  obtain rfl := Option.some.inj hstep
  have hnot : s.phase i ≠ .wait := by
    rcases hphase with hp | hp <;> rw [hp] <;> decide
  have hoff : ∀ j, s.phase j = .wait → j ≠ i := fun j hj hji => hnot (hji ▸ hj)
  refine ⟨h.init, h.free, h.slot.congr rfl rfl (fun j => ?_) (fun j hj => ?_), fun j hj => ?_,
    fun j => ?_, fun j hj => ?_⟩
  · rcases eq_or_ne j i with rfl | hji
    · simp [hnot]
    · simp [hji]
  · simp [hoff j hj]
  · rcases eq_or_ne j i with rfl | hji
    · simp
    · simpa [hji] using h.push j (by simpa [hji] using hj)
  · rcases eq_or_ne j i with rfl | hji
    · simp
    · simpa [hji] using h.once j
  · rcases eq_or_ne j i with rfl | hji
    · simp at hj
    · simpa [hji] using h.left j (by simpa [hji] using hj)

theorem CtrlInv.done (h : CtrlInv s) {i : ι} (hstep : ctrlStep s (.done i) = some t) :
    CtrlInv t := by
  rw [ctrlStep] at hstep
  split at hstep
  case isFalse => exact absurd hstep nofun
  case isTrue hphase =>
  obtain rfl := Option.some.inj hstep
  refine ⟨h.init, h.free, h.slot.congr rfl rfl (fun j => ⟨eq_of_update (q := Phase.out) nofun, fun hj => ?_⟩)
    (fun _ _ => ⟨rfl, rfl, rfl, rfl⟩), fun j hj => h.push j (eq_of_update (q := Phase.out) nofun hj), h.once,
    fun j hj => h.left j (eq_of_update (q := Phase.out) nofun hj)⟩
  have hji : j ≠ i := by
    rintro rfl
    exact absurd (hphase.symm.trans hj) nofun
  exact (Function.update_of_ne hji _ _).trans hj

/-- A request comes to an empty slot. -/
theorem CtrlInv.pushS (h : CtrlInv s) {i : ι} (hstep : ctrlStep s (.pushS i) = some t)
    (hidle : s.ctrl.pending = .idle) : CtrlInv t := by
  have hslot := h.slot
  rw [hidle] at hslot
  obtain ⟨hcomm, hnone⟩ := hslot
  rw [ctrlStep, pushCtrlTaskFromS, critical_eq h.init h.free, if_pos hidle] at hstep
  split at hstep
  case isFalse => exact absurd hstep nofun
  case isTrue hphase =>
  obtain rfl := Option.some.inj hstep
  obtain ⟨hnew, hmem⟩ := h.push i hphase
  refine ⟨h.init, h.free, ⟨i, rfl, fun j => ?_, hcomm, hnew, hmem⟩,
    fun j hj => h.push j (eq_of_update (q := .wait) nofun hj), h.once, fun j hj => h.left j (eq_of_update (q := .wait) nofun hj)⟩
  rcases eq_or_ne j i with rfl | hji
  · simp
  · simp [hji, hnone j]

/-- A process asks for an answer. -/
theorem CtrlInv.pollS (h : CtrlInv s) {i : ι} (hstep : ctrlStep s (.pollS i) = some t) :
    CtrlInv t := by
  rw [ctrlStep, pollCtrlTaskToS, critical_eq h.init h.free] at hstep
  split at hstep
  case isFalse => exact absurd hstep nofun
  case isTrue hphase =>
  have h10 : ¬ (1 : Int) = 0 := by decide
  by_cases hresp : s.ctrl.pending = .responseFromNs
  · have hslot := h.slot
    rw [hresp] at hslot
    obtain ⟨j, _, honly, hcomm, hdel, hans⟩ := hslot
    obtain rfl := (honly i).mp hphase
    simp only [if_pos hresp, Option.map_some, h10, if_false] at hstep
    obtain rfl := Option.some.inj hstep
    refine ⟨h.init, h.free, ⟨hcomm, fun j hj => ?_⟩, fun j hj => h.push j (eq_of_update (q := .left) nofun hj),
      h.once, fun j hj => ?_⟩
    · obtain rfl := (honly j).mp (eq_of_update (q := .left) nofun hj)
      exact absurd ((Function.update_self j Phase.left s.phase).symm.trans hj) nofun
    · rcases eq_or_ne j i with rfl | hji
      · exact ⟨hdel, hans⟩
      · exact h.left j ((Function.update_of_ne hji _ _).symm.trans hj)
  · simp only [if_neg hresp, Option.map_some, if_true] at hstep
    obtain rfl := Option.some.inj hstep
    exact ⟨h.init, h.free, h.slot, h.push, h.once, h.left⟩

/-- The daemon asks for a request. -/
theorem CtrlInv.pollNs (h : CtrlInv s) {copied : Bool} (hstep : ctrlStep s (.pollNs copied) = some t)
    (hcopied : s.ctrl.pending = .pendingFromS → copied = true) : CtrlInv t := by
  rw [ctrlStep, pollCtrlTaskToNs, critical_eq h.init h.free] at hstep
  by_cases hp : s.ctrl.pending = .pendingFromS
  · have hslot := h.slot
    rw [hp] at hslot
    obtain ⟨i, hspace, honly, hcomm, hnew, hmem⟩ := hslot
    simp only [if_pos hp, hcopied hp, if_true, hcomm, CtrlState.deliver, hspace] at hstep
    obtain rfl := Option.some.inj hstep
    have hwait : s.phase i = .wait := (honly i).mpr rfl
    have hdel : Function.update s.delivered i (s.mem i :: s.delivered i) i = [s.asked i] := by
      rw [Function.update_self, hnew, hmem]
    -- the records of every other process stay
    have hoff : ∀ {j : ι} {p : Phase}, p ≠ .wait → s.phase j = p →
        Function.update s.delivered i (s.mem i :: s.delivered i) j = s.delivered j := by
      intro j p hp hj
      refine Function.update_of_ne ?_ _ _
      rintro rfl
      exact hp (hj.symm.trans hwait)
    refine ⟨h.init, h.free, ⟨i, rfl, honly, by rw [hmem], hdel⟩, fun j hj => ?_, fun j => ?_,
      fun j hj => ?_⟩
    · simpa only [hoff (p := .push) nofun hj] using h.push j hj
    · rcases eq_or_ne j i with rfl | hji
      · exact Or.inr hdel
      · simpa only [Function.update_of_ne hji] using h.once j
    · simpa only [hoff (p := .left) nofun hj] using h.left j hj
  · have h01 : ¬ (0 : Int) = 1 := by decide
    cases hcomm : s.comm with
    | some x =>
      rw [hcomm] at hstep
      exact absurd hstep nofun
    | none =>
      simp only [if_neg hp, hcomm, h01, if_false] at hstep
      obtain rfl := Option.some.inj hstep
      exact ⟨h.init, h.free, h.slot.congr rfl hcomm.symm (fun _ => Iff.rfl) (fun _ _ => ⟨rfl, rfl, rfl, rfl⟩),
        h.push, h.once, h.left⟩

/-- The daemon has an answer. -/
theorem CtrlInv.pushNs (h : CtrlInv s) {v : C} (hstep : ctrlStep s (.pushNs true v) = some t) :
    CtrlInv t := by
  rw [ctrlStep, pushCtrlTaskFromNs, critical_eq h.init h.free] at hstep
  cases hcomm : s.comm with
  | none =>
    rw [hcomm] at hstep
    exact absurd hstep nofun
  | some x =>
    have h10 : ¬ (1 : Int) = 0 := by decide
    have hp := h.inNs hcomm
    have hslot := h.slot
    rw [hp] at hslot
    obtain ⟨i, hspace, honly, hx, hdel⟩ := hslot
    simp only [hx, if_pos hp, if_true, h10, if_false, CtrlState.answer, hspace] at hstep
    obtain rfl := Option.some.inj hstep
    have hwait : s.phase i = .wait := (honly i).mpr rfl
    refine ⟨h.init, h.free, ⟨i, rfl, honly, rfl, hdel, ?_⟩, fun j hj => ?_, h.once, fun j hj => ?_⟩
    · simp
    · have hji : j ≠ i := by
        rintro rfl
        exact absurd (hwait.symm.trans hj) nofun
      simpa [hji] using h.push j hj
    · have hji : j ≠ i := by
        rintro rfl
        exact absurd (hwait.symm.trans hj) nofun
      simpa [hji] using h.left j hj

/-! ## 5. Runs -/

/-- A step that meets the condition keeps the invariant. -/
theorem CtrlInv.step {a : CtrlStep ι C} (h : CtrlInv s) (hstep : ctrlStep s a = some t)
    (hquiet : CtrlQuiet s a) : CtrlInv t := by
  cases a with
  | ask i c => exact h.ask hstep
  | done i => exact h.done hstep
  | pushS i => exact h.pushS hstep hquiet
  | pollS i => exact h.pollS hstep
  | pollNs copied => exact h.pollNs hstep hquiet
  | pushNs copied v =>
    obtain rfl : copied = true := hquiet
    exact h.pushNs hstep

/-- A request to a slot in use is not delivered next. -/
theorem CtrlInv.pushS_inUse (h : CtrlInv s) {i : ι} (hstep : ctrlStep s (.pushS i) = some t)
    (hbusy : s.ctrl.pending ≠ .idle) : ¬ CtrlServed t := by
  rw [ctrlStep, pushCtrlTaskFromS, critical_eq h.init h.free, if_neg hbusy] at hstep
  split at hstep
  case isFalse => exact absurd hstep nofun
  case isTrue hphase =>
  obtain rfl := Option.some.inj hstep
  intro hserved
  obtain ⟨hp, hspace⟩ := hserved.next i (Function.update_self i _ _) (h.push i hphase).1
  -- the slot holds the request of a process that waits, and `i` did not wait
  have hslot := h.slot
  rw [(hp : s.ctrl.pending = .pendingFromS)] at hslot
  obtain ⟨j, hj, honly, _⟩ := hslot
  obtain rfl : i = j := Option.some.inj (hspace.symm.trans hj)
  exact absurd (hphase.symm.trans ((honly i).mpr rfl)) nofun

/-- A copy that fails leaves the mutex locked. -/
theorem CtrlInv.pollNs_fails (h : CtrlInv s) {copied : Bool}
    (hstep : ctrlStep s (.pollNs copied) = some t)
    (hfails : ¬ (s.ctrl.pending = .pendingFromS → copied = true)) : ¬ CtrlServed t := by
  obtain ⟨hp, hcopied⟩ := Classical.not_imp.mp hfails
  have hslot := h.slot
  rw [hp] at hslot
  obtain ⟨i, _, _, hcomm, _⟩ := hslot
  rw [ctrlStep, pollCtrlTaskToNs, critical_eq h.init h.free] at hstep
  simp only [if_pos hp, hcopied, hcomm] at hstep
  obtain rfl := Option.some.inj hstep
  exact fun hserved => absurd hserved.free nofun

theorem CtrlInv.pushNs_fails (h : CtrlInv s) {v : C}
    (hstep : ctrlStep s (.pushNs false v) = some t) : ¬ CtrlServed t := by
  rw [ctrlStep, pushCtrlTaskFromNs, critical_eq h.init h.free] at hstep
  cases hcomm : s.comm with
  | none =>
    rw [hcomm] at hstep
    exact absurd hstep nofun
  | some x =>
    have hp := h.inNs hcomm
    have hslot := h.slot
    rw [hp] at hslot
    obtain ⟨i, hspace, _⟩ := hslot
    simp only [hcomm, if_pos hp, CtrlState.answer, hspace] at hstep
    obtain rfl := Option.some.inj hstep
    exact fun hserved => absurd hserved.free nofun

theorem CtrlInv.step_bad {a : CtrlStep ι C} (h : CtrlInv s) (hstep : ctrlStep s a = some t)
    (hbad : ¬ CtrlQuiet s a) : ¬ CtrlServed t := by
  cases a with
  | ask i c => exact absurd trivial hbad
  | done i => exact absurd trivial hbad
  | pushS i => exact h.pushS_inUse hstep hbad
  | pollS i => exact absurd trivial hbad
  | pollNs copied => exact h.pollNs_fails hstep hbad
  | pushNs copied v =>
    obtain rfl : copied = false := Bool.eq_false_iff.mpr hbad
    exact h.pushNs_fails hstep

/-- **The runs that serve every process** are those in which a request comes to an empty slot and no copy
fails. -/
theorem ctrl_run_iff (m : ι → C) (as : List (CtrlStep ι C)) (t : CtrlState ι C) :
    Run (fun s a t => stepOf ctrlStep s a t ∧ CtrlServed t) (ctrlStart m) as t ↔
      Run (Guarded CtrlQuiet (stepOf ctrlStep)) (ctrlStart m) as t :=
  Run.good_iff (fun _ h => h.served) (fun _ _ _ h hstep hquiet => h.step hstep hquiet)
    (fun _ _ _ h hstep hbad => h.step_bad hstep hbad) (ctrlInv_start m)

/-! ## 6. Two processes -/

/-- Both processes have a request, the second comes to the slot of the first, the daemon answers, and
the second process asks first. -/
def twoProcesses : List (CtrlStep Nat Nat) :=
  [.ask 0 10, .ask 1 20, .pushS 0, .pushS 1, .pollNs true, .pushNs true 11, .pollS 1]

/-- **The second process leaves with the answer to the first**: its own request was not delivered, and
its own memory holds no answer. -/
theorem answer_is_stolen :
    ∃ t, Run (stepOf ctrlStep) (ctrlStart fun _ => 0) twoProcesses t ∧ t.phase 1 = .left ∧
      t.delivered 1 = [] ∧ t.answered 1 = none ∧ ¬ CtrlServed t := by
  have hcomputed : (execOk ctrlStep (fun _ _ => true) (ctrlStart fun _ => 0) twoProcesses).any
      (fun t => t.phase 1 == .left && t.delivered 1 == [] && t.answered 1 == none) = true := by
    decide +kernel
  obtain ⟨t, hrun, ht⟩ := exists_run_of_execOk hcomputed
  simp only [Bool.and_eq_true, beq_iff_eq] at ht
  obtain ⟨⟨hleft, hdel⟩, hans⟩ := ht
  refine ⟨t, hrun.of_guarded, hleft, hdel, hans, fun hserved => ?_⟩
  have hown := (hserved.left 1 hleft).2
  rw [hans] at hown
  exact absurd hown nofun

end AndixOs.Driver
