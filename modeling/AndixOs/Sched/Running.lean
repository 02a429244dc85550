/-
# Which thread is running

The states of threads are written all over the kernel, but only `sched_thread_switched` makes a
thread `RUNNING`: it takes the state from the current thread first, and notes the new one.  All
other writes make threads `READY` or `BLOCKED`.  So at most one thread is `RUNNING`, it is
`current_thread`, and the scheduler never picks it (`scheduled_of_run`).
-/
import AndixOs.Lib.Run
import AndixOs.Sched.Switch

namespace AndixOs.Sched

open AndixOs.Task AndixOs.Monitor

variable {s s' s1 : SecureWorld} {t c : Nat} {a : PackageAddrs}

/-! ## 1. Steps that mark threads -/

/-- States of threads are written, none of them `RUNNING`, and packages come and go. -/
structure Marks (s s' : SecureWorld) : Prop where
  same : { s' with threads := s.threads, tz := s.tz } = s
  fields : ∀ t, { s'.threads t with state := (s.threads t).state } = s.threads t
  running : ∀ t, (s'.threads t).state = .running → (s.threads t).state = .running

theorem Marks.refl (s : SecureWorld) : Marks s s := ⟨rfl, fun _ => rfl, fun _ => id⟩

theorem Marks.trans (h : Marks s s1) (h' : Marks s1 s') : Marks s s' where
  same := by
    have hs : { s' with threads := s.threads, tz := s.tz } =
        { ({ s' with threads := s1.threads, tz := s1.tz } : SecureWorld) with
          threads := s.threads, tz := s.tz } := rfl
    rw [hs, h'.same]
    exact h.same
  fields t := by
    have ht : { s'.threads t with state := (s.threads t).state } =
        { ({ s'.threads t with state := (s1.threads t).state } : ThreadT) with
          state := (s.threads t).state } := rfl
    rw [ht, h'.fields]
    exact h.fields t
  running t ht := h.running t (h'.running t ht)

theorem Marks.current (h : Marks s s') : s'.current = s.current := by
  have hsame := congrArg (fun x : SecureWorld => x.current) h.same
  exact hsame

theorem Marks.made (h : Marks s s') : s'.made = s.made := by
  have hsame := congrArg (fun x : SecureWorld => x.made) h.same
  exact hsame

theorem setState_self (s : SecureWorld) (t : Nat) (x : ThreadState) :
    ((s.setState t x).threads t) = { s.threads t with state := x } := by
  simp [SecureWorld.setState, SecureWorld.setThread]

theorem setState_of_ne {x : ThreadState} {u : Nat} (h : u ≠ t) :
    (s.setState t x).threads u = s.threads u := by
  simp [SecureWorld.setState, SecureWorld.setThread, h]

theorem marks_setState {x : ThreadState} (hx : x ≠ .running) : Marks s (s.setState t x) where
  same := rfl
  fields u := by
    by_cases hu : u = t
    · subst hu
      rw [setState_self]
    · rw [setState_of_ne hu]
  running u hrun := by
    by_cases hu : u = t
    · subst hu
      rw [setState_self] at hrun
      exact absurd hrun hx
    · rwa [setState_of_ne hu] at hrun

theorem marks_tz {tz : TzState} : Marks s { s with tz := tz } := ⟨rfl, fun _ => rfl, fun _ => id⟩

/-- The caller, the list or a pointer leads to the thread. -/
def LeadsTo (s : SecureWorld) (t : Nat) : Prop :=
  (s.regs.r 12 = sscTaskSwitch ∧ s.regs.r 0 ≠ 0 ∧ t = (s.regs.r 0).toNat ∧ s.regs.scr &&& 1 = 0) ∨
    schedGetNextReadyThread s = some (some t) ∨ s.nonsecure = some t ∨ s.service = some t ∨
    s.tee = some t

/-- **What an SMC does** when it comes back: marks, and then an error or a switch. -/
inductive SmcEffect (s : SecureWorld) : SecureWorld → Prop where
  | marked {s1 : SecureWorld} : Marks s s1 → SmcEffect s s1
  | failed {s1 : SecureWorld} : Marks s s1 → SmcEffect s s1.fail
  | switched {s1 : SecureWorld} {t : Nat} : Marks s s1 → LeadsTo s t →
      SmcEffect s (monSecureSwitchContext s1 t)

theorem handlerSetTzPackage_marks (h : handlerSetTzPackage s a = .ok s1) :
    Marks s s1 ∧ s1.current = s.current ∧ s1.service = s.service ∧ s1.tee = s.tee := by
  unfold handlerSetTzPackage at h
  split at h
  · exact nomatch h
  · obtain rfl := Except.ok.inj h
    exact ⟨marks_tz, rfl, rfl, rfl⟩

/-- Both requests end in an error or with a switch. -/
theorem dispatchTo_effect {target : Option Nat} (hm : Marks s s1)
    (htarget : ∀ t, target = some t → s.service = some t ∨ s.tee = some t) :
    SmcEffect s (dispatchTo s1 target) := by
  cases target with
  | none => exact .failed hm
  | some t =>
    have hready : Marks s (s1.setState t .ready) := hm.trans (marks_setState (by decide))
    exact .switched hready (Or.inr (Or.inr (Or.inr (htarget t rfl))))

theorem processCmem_effect (h : processCmem s a = .ok s') : SmcEffect s s' := by
  unfold processCmem at h
  split at h
  · exact nomatch h
  rename_i s1 htz
  obtain ⟨hm, -, hservice, -⟩ := handlerSetTzPackage_marks htz
  split at h
  · exact nomatch h
  split at h
  · exact nomatch h
  rename_i c hc
  obtain rfl := Except.ok.inj h
  refine dispatchTo_effect (hm.trans (marks_setState (by decide))) fun t ht => Or.inl ?_
  exact hservice ▸ ht

theorem processTmem_effect (h : processTmem s a = .ok s') : SmcEffect s s' := by
  unfold processTmem at h
  split at h
  · exact nomatch h
  rename_i s1 htz
  obtain ⟨hm, -, -, htee⟩ := handlerSetTzPackage_marks htz
  obtain rfl := Except.ok.inj h
  split
  · exact .failed hm
  · exact dispatchTo_effect hm fun t ht => Or.inr (htee ▸ ht)

theorem nonsService_effect (h : nonsService s = .ok s') : SmcEffect s s' := by
  unfold nonsService at h
  split at h
  · exact nomatch h
  split at h
  · exact nomatch h
  split at h
  · exact nomatch h
  rename_i t ht
  obtain rfl := Except.ok.inj h
  exact .switched marks_tz (Or.inr (Or.inr (Or.inl ht)))

theorem taskSchedule_effect (h : taskSchedule s = .ok s') : SmcEffect s s' := by
  unfold taskSchedule at h
  split at h
  · exact nomatch h
  · obtain rfl := Except.ok.inj h
    exact .marked (.refl s)
  · rename_i t ht
    obtain rfl := Except.ok.inj h
    exact .switched (.refl s) (Or.inr (Or.inl ht))

theorem monSmcHandler_effect (h : monSmcHandler s a = .ok s') : SmcEffect s s' := by
  have hnone : ∀ {s1 : SecureWorld}, Except.ok s = Except.ok (ε := Abort) s1 → SmcEffect s s1 := by
    intro s1 heq
    obtain rfl := Except.ok.inj heq
    exact .marked (.refl s)
  unfold monSmcHandler monSmcNonSecureHandler monSmcSecureHandler at h
  split at h
  · split at h
    · exact processCmem_effect h
    split at h
    · exact processTmem_effect h
    · exact hnone h
  · rename_i hworld
    split at h
    · rename_i hswitch
      split at h
      · exact hnone h
      · rename_i hr0
        obtain rfl := Except.ok.inj h
        exact .switched (.refl s) (Or.inl ⟨hswitch, hr0, rfl, not_not.mp hworld⟩)
    split at h
    · exact taskSchedule_effect h
    split at h
    · exact nonsService_effect h
    · exact hnone h

/-! ## 2. The scheduler's choice -/

/-- The list is walked to its first ready thread. -/
theorem readyLoop_of_iter {fuel : Nat} {iter : ListIterator} {ths : List Nat}
    (h : iterHandles s.list fuel iter = some ths) (h0 : ∀ th ∈ ths, th ≠ 0) :
    readyLoop s fuel iter = some (ths.find? fun th => (s.threads th).state = .ready) := by
  induction fuel generalizing iter ths with
  | zero => simp [iterHandles] at h
  | succ fuel ih =>
    rw [iterHandles] at h
    rw [readyLoop]
    rcases hnext : lockedListIterNext s.list iter with ⟨_ | th, iter⟩
    · rw [hnext] at h
      obtain rfl := Option.some.inj h
      rfl
    · rw [hnext] at h
      obtain ⟨rest, hrest, rfl⟩ := Option.map_eq_some_iff.mp h
      have hth : th ≠ 0 := h0 th List.mem_cons_self
      by_cases hready : (s.threads th).state = .ready
      · simp [hth, hready]
      · simp [hth, hready, ih hrest fun x hx => h0 x (List.mem_cons_of_mem _ hx)]

/-- **`sched_get_next_ready_thread`** returns the first ready thread of the list. -/
theorem schedGetNextReadyThread_eq (hlist : Listing s.list s.listed)
    (h0 : ∀ e ∈ s.listed, e.data ≠ 0) :
    schedGetNextReadyThread s =
      some ((s.listed.map (·.data)).find? fun t => (s.threads t).state = .ready) := by
  have hlen : (s.listed.map (·.node)).length ≤ s.list.live.length := by
    rw [List.length_map]
    exact hlist.length_le
  have hiter := hlist.ring.listed hlen
  rw [hlist.map_data] at hiter
  refine readyLoop_of_iter hiter fun th hth => ?_
  obtain ⟨e, he, rfl⟩ := List.mem_map.mp hth
  exact h0 e he

/-! ## 3. The switch -/

/-- What the switch does not touch. -/
theorem monSecureSwitchContext_frame (s : SecureWorld) (t : Nat) :
    { monSecureSwitchContext s t with
      threads := s.threads, current := s.current, regs := s.regs, banked := s.banked,
      userTable := s.userTable, userThreadReg := s.userThreadReg, log := s.log } = s := by
  unfold monSecureSwitchContext schedThreadSwitched
  cases hc : s.current with
  | none =>
    have hload : (loadContext s t).current = none := hc
    simp only [hload]
    simp [loadContext, SecureWorld.setState, SecureWorld.setThread, ← hc]
  | some c =>
    have hload : (loadContext (saveContext s c) t).current = some c := hc
    simp only [hload]
    split
    · simp [loadContext, saveContext, SecureWorld.setState, SecureWorld.setThread, ← hc]
    · simp [loadContext, saveContext, SecureWorld.setState, SecureWorld.setThread, ← hc]

/-- Saving registers leaves the states alone. -/
theorem saveContext_state (s : SecureWorld) (c u : Nat) :
    ((saveContext s c).threads u).state = (s.threads u).state := by
  by_cases hu : u = c
  · subst hu
    simp [saveContext, SecureWorld.setThread]
  · simp [saveContext, SecureWorld.setThread, hu]

/-- After `sched_thread_switched` no other thread is running that was not noted. -/
theorem schedThreadSwitched_running {u : Nat}
    (hu : (s.threads u).state = .running → s.current = some u)
    (hrun : ((schedThreadSwitched s t).threads u).state = .running) : u = t := by
  by_contra hne
  unfold schedThreadSwitched at hrun
  rw [setState_of_ne hne] at hrun
  cases hc : s.current with
  | none =>
    rw [hc] at hrun
    exact nomatch hc.symm.trans (hu hrun)
  | some c =>
    simp only [hc] at hrun
    by_cases huc : u = c
    · subst huc
      split at hrun
      · have hready := congrArg ThreadT.state (setState_self s u .ready)
        exact nomatch hready.symm.trans hrun
      · rename_i hnot
        exact hnot hrun
    · have hold : (s.threads u).state = .running := by
        split at hrun
        · rwa [setState_of_ne huc] at hrun
        · exact hrun
      exact huc (Option.some.inj ((hu hold).symm.trans hc))

/-- **After a switch** only the new thread is running. -/
theorem monSecureSwitchContext_running {u : Nat}
    (hu : (s.threads u).state = .running → s.current = some u)
    (hrun : ((monSecureSwitchContext s t).threads u).state = .running) : u = t := by
  unfold monSecureSwitchContext at hrun
  cases hc : s.current with
  | none =>
    simp only [hc] at hrun
    exact schedThreadSwitched_running (s := loadContext s t) hu hrun
  | some c =>
    simp only [hc] at hrun
    refine schedThreadSwitched_running (s := loadContext (saveContext s c) t) (fun hr => ?_) hrun
    exact hu ((saveContext_state s c u).symm.trans hr)

/-! ## 4. The invariant -/

/-- The pointers lead to threads, and a thread that is running is the current one. -/
structure RunningInv (s : SecureWorld) : Prop where
  pointers : ∀ t, s.current = some t ∨ s.nonsecure = some t ∨ s.service = some t ∨ s.tee = some t →
    t ∈ s.made
  nonzero : ∀ t ∈ s.made, t ≠ 0
  listing : Listing s.list s.listed
  listed : ∀ e ∈ s.listed, e.data ∈ s.made
  running : ∀ t ∈ s.made, (s.threads t).state = .running → s.current = some t

theorem RunningInv.start (mem : SecureWorld) : RunningInv (SecureWorld.init mem) where
  pointers t h := by simp [SecureWorld.init] at h
  nonzero := nofun
  listing := ⟨rfl, nofun, nofun⟩
  listed := nofun
  running := nofun

theorem RunningInv.next (h : RunningInv s) : schedGetNextReadyThread s =
    some ((s.listed.map (·.data)).find? fun t => (s.threads t).state = .ready) :=
  schedGetNextReadyThread_eq h.listing fun e he => h.nonzero _ (h.listed e he)

/-- A thread is added to the list. -/
theorem RunningInv.schedAddThread {block : Option Nat} (h : RunningInv s) (ht : t ∈ s.made)
    (hblock : ∀ node ∈ block, node ∉ s.list.live) : RunningInv (schedAddThread s t block) := by
  unfold Sched.schedAddThread
  split
  · rename_i list node hadd
    refine { h with listing := h.listing.add (hblock node rfl) hadd, listed := ?_ }
    intro e he
    rcases List.mem_append.mp he with he | he
    · exact h.listed e he
    · obtain rfl := List.mem_singleton.mp he
      exact ht
  · exact h

/-- What threads there are and what leads to them. -/
def SecureWorld.registry (s : SecureWorld) :
    List Nat × Option Nat × Option Nat × Option Nat × Files × List ListEntry :=
  (s.made, s.nonsecure, s.service, s.tee, s.list, s.listed)

theorem RunningInv.same (h : RunningInv s) (hsame : s'.registry = s.registry)
    (hcurrent : ∀ t, s'.current = some t → t ∈ s.made)
    (hrun : ∀ t ∈ s.made, (s'.threads t).state = .running → s'.current = some t) :
    RunningInv s' := by
  simp only [SecureWorld.registry, Prod.mk.injEq] at hsame
  obtain ⟨hmade, hnonsecure, hservice, htee, hlist, hlisted⟩ := hsame
  constructor
  · rw [hnonsecure, hservice, htee, hmade]
    rintro t (ht | ht)
    · exact hcurrent t ht
    · exact h.pointers t (Or.inr ht)
  · rw [hmade]
    exact h.nonzero
  · rw [hlist, hlisted]
    exact h.listing
  · rw [hlisted, hmade]
    exact h.listed
  · rw [hmade]
    exact hrun

/-- Marks make no thread run. -/
theorem RunningInv.marks (h : RunningInv s) (hm : Marks s s') : RunningInv s' := by
  have hregistry := congrArg SecureWorld.registry hm.same
  have hcurrent := hm.current
  refine h.same hregistry ?_ ?_
  · exact fun t ht => h.pointers t (Or.inl (hcurrent ▸ ht))
  · rw [hcurrent]
    exact fun t ht hr => h.running t ht (hm.running t hr)

/-- A switch to a thread. -/
theorem RunningInv.switch (h : RunningInv s) (ht : t ∈ s.made) :
    RunningInv (monSecureSwitchContext s t) := by
  have hregistry := congrArg SecureWorld.registry (monSecureSwitchContext_frame s t)
  refine h.same hregistry ?_ ?_
  · exact fun u hu => Option.some.inj hu ▸ ht
  · exact fun u hu hr => congrArg some (monSecureSwitchContext_running (h.running u hu) hr).symm

/-- What an SMC leads to is a thread. -/
theorem RunningInv.target_mem (h : RunningInv s) (hnames : s.namesThread s.regs = true)
    (ht : LeadsTo s t) : t ∈ s.made := by
  rcases ht with ⟨hr12, hr0, rfl, hscr⟩ | hnext | hpointer
  · simpa [SecureWorld.namesThread, hr12, hr0, hscr] using hnames
  · rw [h.next, Option.some_inj] at hnext
    obtain ⟨e, he, rfl⟩ := List.mem_map.mp (List.mem_of_find?_eq_some hnext)
    exact h.listed e he
  · exact h.pointers t (Or.inr hpointer)

theorem RunningInv.effect (h : RunningInv s) (he : SmcEffect s s')
    (hnames : s.namesThread s.regs = true) : RunningInv s' := by
  cases he with
  | marked hm => exact h.marks hm
  | failed hm =>
    have hmarks := h.marks hm
    exact hmarks.same rfl (fun t ht => hmarks.pointers t (Or.inl ht)) hmarks.running
  | @switched s1 t hm htarget =>
    exact (h.marks hm).switch (hm.made ▸ h.target_mem hnames htarget)

theorem RunningInv.enter {regs : MonContext} {banked : Banked} {userTable : UInt32}
    (h : RunningInv s) : RunningInv (s.enter regs banked userTable) :=
  h.same rfl (fun t ht => h.pointers t (Or.inl ht)) h.running

/-- The step of an SMC. -/
theorem smc_effect {regs : MonContext} {banked : Banked} {userTable : UInt32}
    (hstep : stepOf switchStep s (.smc regs banked userTable a) s') :
    s.namesThread regs = true ∧ SmcEffect (s.enter regs banked userTable) s' := by
  simp only [stepOf, switchStep] at hstep
  split at hstep
  · rename_i hnames
    refine ⟨hnames, ?_⟩
    cases hsmc : monSmcHandler (s.enter regs banked userTable) a with
    | error e =>
      rw [hsmc] at hstep
      cases hstep
    | ok s1 =>
      rw [hsmc] at hstep
      obtain rfl := Option.some.inj hstep
      exact monSmcHandler_effect hsmc
  · cases hstep

/-- A new thread is not running. -/
theorem RunningInv.createThread {th : ThreadT} (h : RunningInv s) (hzero : t ≠ 0)
    (hstate : th.state ≠ .running) : RunningInv (createThread s t th) := by
  constructor
  · exact fun u hu => List.mem_append_left _ (h.pointers u hu)
  · intro u hu
    rcases List.mem_append.mp hu with hu | hu
    · exact h.nonzero u hu
    · exact List.mem_singleton.mp hu ▸ hzero
  · exact h.listing
  · exact fun e he => List.mem_append_left _ (h.listed e he)
  · intro u hu hr
    by_cases hut : u = t
    · subst hut
      refine absurd ?_ hstate
      simpa [Sched.createThread, SecureWorld.setThread] using hr
    · have hold : u ∈ s.made := by simpa [Sched.createThread, hut] using hu
      refine h.running u hold ?_
      simpa [Sched.createThread, SecureWorld.setThread, hut] using hr

/-- **One step** keeps the invariant. -/
theorem RunningInv.step {call : SwitchCall} (h : RunningInv s)
    (hstep : stepOf switchStep s call s') : RunningInv s' := by
  cases call with
  | smc regs banked userTable a =>
    obtain ⟨hnames, heffect⟩ := smc_effect hstep
    exact h.enter.effect heffect hnames
  | createThread t mode world stack abtSp setup =>
    obtain ⟨hnew, heq⟩ := Option.ite_none_left_eq_some.mp hstep
    obtain rfl := Option.some.inj heq
    exact h.createThread (not_or.mp hnew).2 (nomatch ·)
  | schedAddThread t block =>
    obtain ⟨hok, heq⟩ := Option.ite_none_right_eq_some.mp hstep
    obtain rfl := Option.some.inj heq
    exact h.schedAddThread hok.1 hok.2
  | setNonsecureThread t =>
    obtain ⟨ht, heq⟩ := Option.ite_none_right_eq_some.mp hstep
    obtain rfl := Option.some.inj heq
    refine { h with pointers := ?_ }
    rintro u (hu | hu | hu | hu)
    · exact h.pointers u (Or.inl hu)
    · exact Option.some.inj hu ▸ ht
    · exact h.pointers u (Or.inr (Or.inr (Or.inl hu)))
    · exact h.pointers u (Or.inr (Or.inr (Or.inr hu)))
  | servicePre t =>
    obtain ⟨ht, heq⟩ := Option.ite_none_right_eq_some.mp hstep
    obtain rfl := Option.some.inj heq
    refine { h with pointers := ?_ }
    rintro u (hu | hu | hu | hu)
    · exact h.pointers u (Or.inl hu)
    · exact h.pointers u (Or.inr (Or.inl hu))
    · exact Option.some.inj hu ▸ ht
    · exact h.pointers u (Or.inr (Or.inr (Or.inr hu)))
  | teeTaskEntry =>
    obtain ⟨-, heq⟩ := Option.ite_none_right_eq_some.mp hstep
    obtain rfl := Option.some.inj heq
    refine { h with pointers := ?_ }
    rintro u (hu | hu | hu | hu)
    · exact h.pointers u (Or.inl hu)
    · exact h.pointers u (Or.inr (Or.inl hu))
    · exact h.pointers u (Or.inr (Or.inr (Or.inl hu)))
    · exact h.pointers u (Or.inl hu)
  | blockCurrent =>
    obtain ⟨c, -, rfl⟩ := Option.map_eq_some_iff.mp hstep
    exact h.marks (marks_setState (by decide))
  | markReady t =>
    obtain ⟨-, heq⟩ := Option.ite_none_right_eq_some.mp hstep
    obtain rfl := Option.some.inj heq
    exact h.marks (marks_setState (by decide))

/-! ## 5. Every run -/

/-- At most one thread is `RUNNING`, it is `current_thread`, and the scheduler returns the first
`READY` thread of its list, or `NULL`, and no other. -/
structure Scheduled (s : SecureWorld) : Prop where
  one : ∀ t ∈ s.made, ∀ u ∈ s.made, (s.threads t).state = .running →
    (s.threads u).state = .running → t = u
  current : ∀ t ∈ s.made, (s.threads t).state = .running → s.current = some t
  next : schedGetNextReadyThread s =
    some ((s.listed.map (·.data)).find? fun t => (s.threads t).state = .ready)
  ready : ∀ t, schedGetNextReadyThread s = some (some t) → (s.threads t).state = .ready

/-- **In every reachable state** at most one thread runs, it is the current one, and the scheduler
picks the first ready thread. -/
theorem scheduled_of_run {mem : SecureWorld} {calls : List SwitchCall}
    (hrun : Run (stepOf switchStep) (SecureWorld.init mem) calls s) : Scheduled s := by
  have h : RunningInv s := hrun.invariant (fun _ _ _ h => h.step) (RunningInv.start mem)
  constructor
  · intro t ht u hu hrt hru
    exact Option.some.inj ((h.running t ht hrt).symm.trans (h.running u hu hru))
  · exact h.running
  · exact h.next
  · intro t ht
    rw [h.next, Option.some_inj] at ht
    have hready := List.find?_some ht
    exact of_decide_eq_true hready

/-- An SMC of the secure world. -/
def secureCall (number arg : UInt32) : SwitchCall :=
  .smc ⟨0, fun i => if i = 12 then number else if i = 0 then arg else 0, 0, 0⟩
    (monitorRestoreSysRegs .zero) 0 ⟨0, 0, 0⟩

/-- The boot of the kernel up to the service thread. -/
def bootCalls : List SwitchCall :=
  [.createThread 0x100 svcMode .secure 0x9000 0 ⟨0x8000, 0, 0, ⟨0, 0, 0⟩, none, 0⟩,
    .schedAddThread 0x100 (some 1), secureCall sscTaskSwitch 0x100,
    .createThread 0x200 svcMode .secure 0xD000 0 ⟨0x8400, 0, 0, ⟨0, 0, 0⟩, none, 0⟩,
    .schedAddThread 0x200 (some 2), .servicePre 0x200, secureCall sscTaskSchedule 0]

/-- A memory of zeros. -/
def blankWorld : SecureWorld where
  threads _ := createKernelThread 0 .secure 0 0 0
  made := []
  currentTid := 1
  list := .init
  listed := []
  current := none
  nonsecure := none
  service := none
  tee := none
  tz := ⟨Mm.bootKernel, 0, 0, 0⟩
  regs := .zero
  banked := monitorRestoreSysRegs .zero
  userTable := 0
  userThreadReg := 0
  log := []

/-- The boot leads to the service thread, and maps no package. -/
theorem boot_run : ∃ s, Run (stepOf switchStep) (SecureWorld.init blankWorld) bootCalls s ∧
    s.current = some 0x200 ∧ (s.threads 0x100).state = .ready ∧ s.tz.package = 0 ∧
      s.tz.comMem = 0 := by
  have hrun : ∃ s, Run (Guarded (fun _ _ => true = true) (stepOf switchStep))
      (SecureWorld.init blankWorld) bootCalls s ∧
      (s.current == some 0x200 && (s.threads 0x100).state == .ready &&
        (s.tz.package == 0 && s.tz.comMem == 0)) = true :=
    exists_run_of_execOk (by decide +kernel)
  obtain ⟨s, hrun, hend⟩ := hrun
  simp only [Bool.and_eq_true, beq_iff_eq] at hend
  exact ⟨s, hrun.of_guarded, hend.1.1, hend.1.2, hend.2.1, hend.2.2⟩

/-- The main thread makes the service thread and yields to it. -/
theorem scheduled_of_run_boot : ∃ s,
    Run (stepOf switchStep) (SecureWorld.init blankWorld) bootCalls s ∧ s.current = some 0x200 ∧
      (s.threads 0x100).state = .ready ∧ Scheduled s := by
  obtain ⟨s, hrun, hcurrent, hready, -, -⟩ := boot_run
  exact ⟨s, hrun, hcurrent, hready, scheduled_of_run hrun⟩

end AndixOs.Sched
