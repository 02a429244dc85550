/-
# The mutexes of the channels

`ctrl_mem.c` and `tee_mem.c` each keep one piece of memory under a mutex: the control slot with its
`pending`, and the `TZ_TEE_SPACE` that is shared with the secure world.  Eight functions work on them, for
any process.  Four copy from or to the memory of a process while they have the mutex, and where that
fails they return.

`Driver.CtrlMem` has the functions of the control slot.  Here they are put under the mutexes of
`Lib.Mutex`, with those of `tee_mem.c` beside them, so that calls of several processes are under way at
the same time.

* `channelBody_spec`: what one call does to `pending`, and when it gives its mutex back;
* `channels_kept_iff`: the runs on which every mutex comes back.
-/
import AndixOs.Driver.CtrlMem
import AndixOs.Lib.Mutex

namespace AndixOs.Driver

open AndixOs

variable {ι P C : Type}

/-! ## 1. `tee_mem.c` -/

/-- The variables of `tee_mem.c`. -/
structure TeeMem (C : Type) where
  teeInitState : Bool
  locked : Bool
  sharedTeeMem : C

/-- What a call returns, what it writes to the memory it was given, and the variables after it. -/
abbrev TeeReturn (C : Type) : Type := Int × Option C × TeeMem C

/-- What the functions share; `none` stands for a call that waits for the mutex. -/
def TeeMem.critical (s : TeeMem C) (body : TeeReturn C) : Option (TeeReturn C) :=
  if s.teeInitState then
    if s.locked then none else some body
  else some (0, none, s)

/-- `push_tee_to_userspace`.  Where the copy fails, the mutex is kept. -/
def pushTeeToUserspace (copied : Bool) (s : TeeMem C) : Option (TeeReturn C) :=
  s.critical <|
    if copied then (1, some s.sharedTeeMem, s) else (-1, none, { s with locked := true })

/-- `push_tee_to_com`.  Where the copy fails, it has left `torn`, and the mutex is kept. -/
def pushTeeToCom (copied : Bool) (user torn : C) (s : TeeMem C) : Option (TeeReturn C) :=
  s.critical <|
    if copied then (1, none, { s with sharedTeeMem := user })
    else (-1, none, { s with locked := true, sharedTeeMem := torn })

/-- `push_tee`. -/
def pushTee (kspace : C) (s : TeeMem C) : Option (TeeReturn C) :=
  s.critical (1, none, { s with sharedTeeMem := kspace })

/-- `poll_tee`. -/
def pollTee (s : TeeMem C) : Option (TeeReturn C) := s.critical (1, some s.sharedTeeMem, s)

/-! ## 2. The functions under their mutexes -/

inductive ChannelMutex where
  | ctrlMutex
  | teeMutex
  deriving DecidableEq

/-- The variables of both files.  Their mutexes are kept apart. -/
structure Channels (P C : Type) where
  ctrl : CtrlMem P
  tee : TeeMem C

/-- A call.  `P` are the addresses of control requests. -/
inductive ChannelCall (P C : Type) where
  | pollCtrlTaskToNs
  | pushCtrlTaskFromNs
  | pushCtrlTaskFromS (space : P)
  | pollCtrlTaskToS
  | pushTeeToUserspace
  | pushTeeToCom
  | pushTee (kspace : C)
  | pollTee

/-- What a call meets in the memory of its process: whether the copy is made, what is there to copy, and
what a copy that fails leaves. -/
structure UserMem (C : Type) where
  copied : Bool
  user : C
  torn : C

def ChannelCall.mutex : ChannelCall P C → ChannelMutex
  | .pollCtrlTaskToNs | .pushCtrlTaskFromNs | .pushCtrlTaskFromS _ | .pollCtrlTaskToS => .ctrlMutex
  | .pushTeeToUserspace | .pushTeeToCom | .pushTee _ | .pollTee => .teeMutex

/-- The test before the mutex. -/
def ChannelCall.enters (a : ChannelCall P C) (s : Channels P C) : Bool :=
  match a.mutex with
  | .ctrlMutex => s.ctrl.ctrlInit
  | .teeMutex => s.tee.teeInitState

/-- What a function of `ctrl_mem.c` leaves, and whether its mutex is free then. -/
def Channels.withCtrl (s : Channels P C) (f : CtrlMem P → Option (Int × CtrlMem P)) :
    Option (Channels P C × Bool) :=
  (f { s.ctrl with locked := false }).map fun r =>
    ({ s with ctrl := { r.2 with locked := false } }, !r.2.locked)

/-- What a function of `tee_mem.c` leaves. -/
def Channels.withTee (s : Channels P C) (f : TeeMem C → Option (TeeReturn C)) :
    Option (Channels P C × Bool) :=
  (f { s.tee with locked := false }).map fun r =>
    ({ s with tee := { r.2.2 with locked := false } }, !r.2.2.locked)

/-- A call that has its mutex. -/
def channelBody (a : ChannelCall P C) (e : UserMem C) (s : Channels P C) : Option (Channels P C × Bool) :=
  match a with
  | .pollCtrlTaskToNs => s.withCtrl (pollCtrlTaskToNs e.copied)
  | .pushCtrlTaskFromNs => s.withCtrl (pushCtrlTaskFromNs e.copied)
  | .pushCtrlTaskFromS space => s.withCtrl (pushCtrlTaskFromS space)
  | .pollCtrlTaskToS => s.withCtrl pollCtrlTaskToS
  | .pushTeeToUserspace => s.withTee (pushTeeToUserspace e.copied)
  | .pushTeeToCom => s.withTee (pushTeeToCom e.copied e.user e.torn)
  | .pushTee kspace => s.withTee (pushTee kspace)
  | .pollTee => s.withTee pollTee

def channelCalls (P C : Type) : LockedCalls ChannelMutex (ChannelCall P C) (UserMem C) (Channels P C) where
  lockOf := ChannelCall.mutex
  enters := ChannelCall.enters
  body := channelBody

/-- Processes of any kind, and the calls they are in. -/
abbrev ChannelState (ι P C : Type) : Type := LockState ι ChannelMutex (ChannelCall P C) (Channels P C)

abbrev ChannelLabel (ι P C : Type) : Type := LockLabel ι (ChannelCall P C) (UserMem C)

/-! ## 3. What is asked of a step -/

/-- The state that comes next. -/
def Pending.next : Pending → Pending
  | .idle => .pendingFromS
  | .pendingFromS => .pendingInNs
  | .pendingInNs => .responseFromNs
  | .responseFromNs => .idle

/-- The call copies from or to the memory of its process. -/
def ChannelCall.copies (a : ChannelCall P C) (s : Channels P C) : Bool :=
  match a with
  | .pollCtrlTaskToNs => s.ctrl.ctrlInit && s.ctrl.pending = .pendingFromS
  | .pushCtrlTaskFromNs => s.ctrl.ctrlInit && s.ctrl.pending = .pendingInNs
  | .pushTeeToUserspace | .pushTeeToCom => s.tee.teeInitState
  | _ => false

/-- The step is the end of a call whose copy fails. -/
def CopyFails (s : ChannelState ι P C) (l : ChannelLabel ι P C) : Prop :=
  ∃ i e a, l = .ret i e ∧ s.place i = .inside a ∧ a.copies s.shared = true ∧ e.copied = false

/-- After the step every mutex that is taken is in the hands of a call; `pending` has stayed or gone one
state on, and stayed if a copy failed. -/
structure ChannelKept (s : ChannelState ι P C) (l : ChannelLabel ι P C) (t : ChannelState ι P C) :
    Prop where
  held : Held (channelCalls P C) t
  moves : t.shared.ctrl.pending = s.shared.ctrl.pending ∨
    t.shared.ctrl.pending = s.shared.ctrl.pending.next
  retry : CopyFails s l → t.shared.ctrl.pending = s.shared.ctrl.pending

/-! ## 4. One call -/

variable {a : ChannelCall P C} {e : UserMem C} {s t : Channels P C} {released : Bool}

/-- A call of `ctrl_mem.c` that has its mutex. -/
theorem withCtrl_critical {body : Int × CtrlMem P} {f : CtrlMem P → Option (Int × CtrlMem P)}
    (hf : f { s.ctrl with locked := false } = ({ s.ctrl with locked := false } : CtrlMem P).critical body)
    (h : s.withCtrl f = some (t, released)) :
    (s.ctrl.ctrlInit = true ∧ t.ctrl.pending = body.2.pending ∧ released = !body.2.locked) ∨
      (s.ctrl.ctrlInit = false ∧ t.ctrl.pending = s.ctrl.pending ∧ released = true) := by
  rw [Channels.withCtrl, hf, CtrlMem.critical] at h
  cases hinit : s.ctrl.ctrlInit with
  | true =>
    simp only [hinit, if_true, Bool.false_eq_true, if_false, Option.map_some, Option.some.injEq,
      Prod.mk.injEq] at h
    obtain ⟨rfl, rfl⟩ := h
    exact Or.inl ⟨rfl, rfl, rfl⟩
  | false =>
    simp only [hinit, Bool.false_eq_true, if_false, Option.map_some, Option.some.injEq,
      Prod.mk.injEq] at h
    obtain ⟨rfl, rfl⟩ := h
    exact Or.inr ⟨rfl, rfl, rfl⟩

/-- A call of `tee_mem.c` leaves the control slot. -/
theorem withTee_critical {body : TeeReturn C} {f : TeeMem C → Option (TeeReturn C)}
    (hf : f { s.tee with locked := false } = ({ s.tee with locked := false } : TeeMem C).critical body)
    (h : s.withTee f = some (t, released)) :
    t.ctrl = s.ctrl ∧ ((s.tee.teeInitState = true ∧ released = !body.2.2.locked) ∨
      (s.tee.teeInitState = false ∧ released = true)) := by
  rw [Channels.withTee, hf, TeeMem.critical] at h
  cases hinit : s.tee.teeInitState with
  | true =>
    simp only [hinit, if_true, Bool.false_eq_true, if_false, Option.map_some, Option.some.injEq,
      Prod.mk.injEq] at h
    obtain ⟨rfl, rfl⟩ := h
    exact ⟨rfl, Or.inl ⟨rfl, rfl⟩⟩
  | false =>
    simp only [hinit, Bool.false_eq_true, if_false, Option.map_some, Option.some.injEq,
      Prod.mk.injEq] at h
    obtain ⟨rfl, rfl⟩ := h
    exact ⟨rfl, Or.inr ⟨rfl, rfl⟩⟩

/-- **One call**: it keeps its mutex exactly when it makes a copy that fails, `pending` stays or goes one
state on, and it stays if the copy fails. -/
theorem channelBody_spec (h : channelBody a e s = some (t, released)) :
    released = (!a.copies s || e.copied) ∧
      (t.ctrl.pending = s.ctrl.pending ∨ t.ctrl.pending = s.ctrl.pending.next) ∧
      (a.copies s = true → e.copied = false → t.ctrl.pending = s.ctrl.pending) := by
  cases a with
  | pollCtrlTaskToNs =>
    obtain ⟨hinit, hp, rfl⟩ | ⟨hinit, hp, rfl⟩ := withCtrl_critical rfl h
    · by_cases hpend : s.ctrl.pending = .pendingFromS <;> cases hcopied : e.copied <;>
        simp [ChannelCall.copies, Pending.next, hinit, hp, hpend, hcopied]
    · simp [ChannelCall.copies, hinit, hp]
  | pushCtrlTaskFromNs =>
    obtain ⟨hinit, hp, rfl⟩ | ⟨hinit, hp, rfl⟩ := withCtrl_critical rfl h
    · by_cases hpend : s.ctrl.pending = .pendingInNs <;> cases hcopied : e.copied <;>
        simp [ChannelCall.copies, Pending.next, hinit, hp, hpend, hcopied]
    · simp [ChannelCall.copies, hinit, hp]
  | pushCtrlTaskFromS space =>
    obtain ⟨hinit, hp, rfl⟩ | ⟨hinit, hp, rfl⟩ := withCtrl_critical rfl h
    · by_cases hpend : s.ctrl.pending = .idle <;> simp [ChannelCall.copies, Pending.next, hp, hpend]
    · simp [ChannelCall.copies, hp]
  | pollCtrlTaskToS =>
    obtain ⟨hinit, hp, rfl⟩ | ⟨hinit, hp, rfl⟩ := withCtrl_critical rfl h
    · by_cases hpend : s.ctrl.pending = .responseFromNs <;>
        simp [ChannelCall.copies, Pending.next, hp, hpend]
    · simp [ChannelCall.copies, hp]
  | pushTeeToUserspace =>
    obtain ⟨hctrl, ⟨hinit, rfl⟩ | ⟨hinit, rfl⟩⟩ := withTee_critical rfl h
    · cases e.copied <;> simp [ChannelCall.copies, hinit, hctrl]
    · simp [ChannelCall.copies, hinit, hctrl]
  | pushTeeToCom =>
    obtain ⟨hctrl, ⟨hinit, rfl⟩ | ⟨hinit, rfl⟩⟩ := withTee_critical rfl h
    · cases e.copied <;> simp [ChannelCall.copies, hinit, hctrl]
    · simp [ChannelCall.copies, hinit, hctrl]
  | pushTee kspace =>
    obtain ⟨hctrl, ⟨hinit, rfl⟩ | ⟨hinit, rfl⟩⟩ := withTee_critical rfl h
    · simp [ChannelCall.copies, hctrl]
    · simp [ChannelCall.copies, hctrl]
  | pollTee =>
    obtain ⟨hctrl, ⟨hinit, rfl⟩ | ⟨hinit, rfl⟩⟩ := withTee_critical rfl h
    · simp [ChannelCall.copies, hctrl]
    · simp [ChannelCall.copies, hctrl]

/-- Every call that has its mutex comes to its end, and gives the mutex back if its copy is made. -/
theorem channelBody_ends (a : ChannelCall P C) (e : UserMem C) (s : Channels P C)
    (hcopied : e.copied = true) : ∃ t, channelBody a e s = some (t, true) := by
  have hsome : ∃ r, channelBody a e s = some r := by
    cases a <;> simp only [channelBody, Channels.withCtrl, Channels.withTee, pollCtrlTaskToNs,
      pushCtrlTaskFromNs, pushCtrlTaskFromS, pollCtrlTaskToS, pushTeeToUserspace, pushTeeToCom, pushTee,
      pollTee, CtrlMem.critical, TeeMem.critical, Bool.false_eq_true, if_false]
    all_goals split <;> exact ⟨_, rfl⟩
  obtain ⟨⟨t, released⟩, hbody⟩ := hsome
  have hrel := (channelBody_spec hbody).1
  rw [hcopied, Bool.or_true] at hrel
  exact ⟨t, hrel ▸ hbody⟩

/-! ## 5. Every run -/

section Runs

variable [DecidableEq ι] {s t : ChannelState ι P C} {l : ChannelLabel ι P C}

/-- The condition on a step: if it is the end of a call that copies, the copy is made. -/
def CopyMade (s : ChannelState ι P C) (l : ChannelLabel ι P C) : Prop := ¬CopyFails s l

theorem releases_iff (hstep : (channelCalls P C).Step s l t) :
    Releases (channelCalls P C) s l ↔ CopyMade s l := by
  cases hstep with
  | skip => exact iff_of_true trivial fun ⟨_, _, _, hl, _⟩ => nomatch hl
  | call => exact iff_of_true trivial fun ⟨_, _, _, hl, _⟩ => nomatch hl
  | take => exact iff_of_true trivial fun ⟨_, _, _, hl, _⟩ => nomatch hl
  | @ret i a e shared released hin hbody =>
    have hrel := (channelBody_spec hbody).1
    constructor
    · rintro h ⟨i', e', a', hl, hin', hcopies, hfails⟩
      obtain ⟨rfl, rfl⟩ := LockLabel.ret.inj hl
      obtain rfl := Place.inside.inj (hin.symm.trans hin')
      rw [h a shared released hin hbody, hcopies, hfails] at hrel
      exact absurd hrel (by decide)
    · intro h a' shared' released' hin' hbody'
      obtain rfl := Place.inside.inj (hin.symm.trans hin')
      obtain ⟨-, rfl⟩ := Prod.mk.inj (Option.some.inj (hbody.symm.trans hbody'))
      cases hcopies : a.copies s.shared with
      | false => rw [hrel, hcopies, Bool.not_false, Bool.true_or]
      | true =>
        cases hcopied : e.copied with
        | true => rw [hrel, hcopied, Bool.or_true]
        | false => exact absurd ⟨i, e, a, rfl, hin, hcopies, hcopied⟩ h

/-- What holds of `pending` in every step. -/
theorem step_pending (hstep : (channelCalls P C).Step s l t) :
    (t.shared.ctrl.pending = s.shared.ctrl.pending ∨
      t.shared.ctrl.pending = s.shared.ctrl.pending.next) ∧
      (CopyFails s l → t.shared.ctrl.pending = s.shared.ctrl.pending) := by
  cases hstep with
  | skip => exact ⟨Or.inl rfl, fun _ => rfl⟩
  | call => exact ⟨Or.inl rfl, fun _ => rfl⟩
  | take => exact ⟨Or.inl rfl, fun _ => rfl⟩
  | @ret i a e shared released hin hbody =>
    obtain ⟨-, hmoves, hretry⟩ := channelBody_spec hbody
    refine ⟨hmoves, ?_⟩
    rintro ⟨i', e', a', hl, hin', hcopies, hfails⟩
    obtain ⟨rfl, rfl⟩ := LockLabel.ret.inj hl
    obtain rfl := Place.inside.inj (hin.symm.trans hin')
    exact hretry hcopies hfails

/-- **The runs on which every mutex comes back.**  Whatever state the channels are in at the start, and
whatever processes call: after every step each mutex that is taken is in the hands of a call, and
`pending` goes round as it should, exactly when no copy from or to the memory of a process fails. -/
theorem channels_kept_iff (channels : Channels P C) (ls : List (ChannelLabel ι P C))
    (t : ChannelState ι P C) :
    Run (fun s l t => (channelCalls P C).Step s l t ∧ ChannelKept s l t) (.start channels) ls t ↔
      Run (Guarded CopyMade (channelCalls P C).Step) (.start channels) ls t := by
  refine Run.decided_iff (fun s => Inside (channelCalls P C) s ∧ Held (channelCalls P C) s)
    (fun s l t hinv hstep hok => ?_) (fun s l t hinv hstep hbad hgood => ?_)
    ⟨inside_start _ _, held_start _ _⟩
  · have hheld := (held_iff hinv.1 hinv.2 hstep).mpr ((releases_iff hstep).mpr hok)
    obtain ⟨hmoves, hretry⟩ := step_pending hstep
    exact ⟨⟨hinv.1.step hstep, hheld⟩, hheld, hmoves, hretry⟩
  · exact hbad ((releases_iff hstep).mp ((held_iff hinv.1 hinv.2 hstep).mp hgood.held))

/-- In such a state every mutex is free while no call is under way, and a call that waits gets its
turn. -/
theorem ChannelKept.waiting {u : ChannelState ι P C} {i : ι} {a : ChannelCall P C} [Inhabited C]
    (h : ChannelKept s l u) (hwait : u.place i = .waiting a) :
    ∃ ls t, Run (channelCalls P C).Step u ls t ∧ t.place i = .inside a :=
  h.held.enter hwait fun _ b _ => ⟨⟨true, default, default⟩, channelBody_ends b _ _ rfl⟩

end Runs

/-- The control slot with a request, and its memory. -/
def pendingRequest : Channels Nat Nat := ⟨⟨true, false, .pendingFromS, some 0⟩, ⟨true, false, 0⟩⟩

/-- The daemon polls with an address that is not mapped. -/
def failingPoll : List (ChannelLabel Nat Nat Nat) :=
  [.call 0 .pollCtrlTaskToNs, .take 0, .ret 0 ⟨false, 0, 0⟩]

/-- **A failing copy keeps the mutex**: then no call is under way, `pending` is as it was, and the mutex
is not free. -/
theorem failing_copy_keeps_mutex :
    ∃ t, Run (channelCalls Nat Nat).Step (.start pendingRequest) failingPoll t ∧
      (∀ i, t.place i = .out) ∧ t.shared.ctrl.pending = .pendingFromS ∧
      t.owner .ctrlMutex = some 0 ∧ ¬Held (channelCalls Nat Nat) t := by
  let waits : ChannelState Nat Nat Nat :=
    ⟨fun _ => none, Function.update (fun _ => .out) 0 (.waiting .pollCtrlTaskToNs), pendingRequest⟩
  let works : ChannelState Nat Nat Nat :=
    ⟨Function.update (fun _ => none) .ctrlMutex (some 0),
      Function.update waits.place 0 (.inside .pollCtrlTaskToNs), pendingRequest⟩
  have hcall : (channelCalls Nat Nat).Step (.start pendingRequest) (.call 0 .pollCtrlTaskToNs) waits :=
    .call rfl rfl
  have htake : (channelCalls Nat Nat).Step waits (.take 0) works :=
    .take (a := ChannelCall.pollCtrlTaskToNs) rfl rfl
  have hbody : channelBody .pollCtrlTaskToNs ⟨false, 0, 0⟩ pendingRequest =
      some (pendingRequest, false) := rfl
  have hinside : works.place 0 = .inside .pollCtrlTaskToNs := rfl
  have hret := LockedCalls.Step.ret (f := channelCalls Nat Nat) hinside hbody
  refine ⟨_, .cons hcall (.cons htake (.cons hret (.nil _))), fun i => ?_, rfl, rfl, fun hheld => ?_⟩
  · rcases eq_or_ne i 0 with rfl | hi
    · rfl
    · simp [works, waits, hi]
  · obtain ⟨a, hinside, -⟩ := hheld .ctrlMutex 0 rfl
    exact absurd hinside nofun

end AndixOs.Driver
