/-
# The mutex of the client library

The threads of a client share one communication space, and each `TEEC_*` function that uses it does so
under `commMutex`.  Two of them return from the middle when the driver answers with an error, and do not
unlock it.

* `run_unlocked`: what the end of a call says about the mutex;
* `comm_kept_iff`: the sequences of calls after which the mutex is free.
-/
import AndixOs.Client.Api
import AndixOs.Lib.Mutex

namespace AndixOs.Client

open AndixOs AndixOs.Swi AndixOs.Tee

variable {ι : Type}

/-! ## 1. The functions under the mutex -/

/-- The functions of `main.c` under `commMutex`. -/
def commCalls : LockedCalls Unit ClientCall CommEnv ClientMem where
  lockOf _ := ()
  enters a _ := a.run.refuse.isNone
  body a e m := (a.run.body e m).map fun d => (d.mem, d.unlocked)

/-- Threads of any kind, and the calls they are in. -/
abbrev ClientState (ι : Type) : Type := LockState ι Unit ClientCall ClientMem

abbrev ClientLabel (ι : Type) : Type := LockLabel ι ClientCall CommEnv

/-- Every end of the call is one with the mutex unlocked. -/
def ClientCall.unlocksAlways : ClientCall → Bool
  | .initializeContext .. | .registerSharedMemory .. => false
  | _ => true

/-! ## 2. The end of a call -/

variable {a : ClientCall} {e : CommEnv} {m : ClientMem} {d : TeecDone}

/-- **The end of a call**: the mutex is unlocked, but by those two functions only if the driver answers
with `TEEC_SUCCESS`. -/
theorem run_unlocked (h : a.run.body e m = some d) :
    d.unlocked = (a.unlocksAlways || decide (e.reply.ret = teeSuccess)) := by
  cases a with
  | initializeContext name context =>
    obtain ⟨space, -, rfl⟩ := Option.map_eq_some_iff.mp h
    by_cases hret : e.reply.ret = teeSuccess
    · simp [ClientCall.unlocksAlways, hret]
    · simp [ClientCall.unlocksAlways, hret]
  | registerSharedMemory context sharedMem =>
    obtain ⟨space, -, rfl⟩ := Option.map_eq_some_iff.mp h
    by_cases hret : e.reply.ret = teeSuccess
    · simp [ClientCall.unlocksAlways, hret]
    · simp [ClientCall.unlocksAlways, hret]
  | finalizeContext context | releaseSharedMemory sharedMem | closeSession session =>
    obtain ⟨space, -, rfl⟩ := Option.map_eq_some_iff.mp h
    rfl
  | openSession context session destination method data operation returnOrigin =>
    obtain ⟨space, -, h⟩ := Option.bind_eq_some_iff.mp h
    obtain ⟨uuid, -, h⟩ := Option.bind_eq_some_iff.mp h
    split at h
    · obtain ⟨r, -, rfl⟩ := Option.map_eq_some_iff.mp h
      split
      · rfl
      · rfl
    · obtain rfl := Option.some.inj h
      rfl
  | invokeCommand session commandID operation returnOrigin =>
    obtain ⟨space, -, h⟩ := Option.bind_eq_some_iff.mp h
    split at h
    · exact absurd h nofun
    · obtain ⟨r, -, rfl⟩ := Option.map_eq_some_iff.mp h
      split
      · rfl
      · rw [invokeCommandExchange]
        split
        · rfl
        · rfl

/-! ## 3. Every run -/

/-- The call reads `NULL`, whatever it meets. -/
def Faults (a : ClientCall) (m : ClientMem) : Prop := ∀ e, a.run.body e m = none

/-- Whether a call faults depends on the memory that `malloc` gives, and not on the answer. -/
theorem isSome_body (e e' : CommEnv) (hfresh : e.fresh = e'.fresh) :
    (a.run.body e m).isSome = (a.run.body e' m).isSome := by
  have hspace : getCommSpace e m = getCommSpace e' m := by rw [getCommSpace, getCommSpace, hfresh]
  cases a with
  | initializeContext name context =>
    simp [ClientCall.run, teecInitializeContext, hspace]
  | finalizeContext context =>
    simp [ClientCall.run, teecFinalizeContext, hspace]
  | registerSharedMemory context sharedMem =>
    simp [ClientCall.run, teecRegisterSharedMemory, hspace]
  | releaseSharedMemory sharedMem =>
    simp [ClientCall.run, teecReleaseSharedMemory, hspace]
  | closeSession session =>
    simp [ClientCall.run, teecCloseSession, hspace]
  | openSession context session destination method data operation returnOrigin =>
    simp only [ClientCall.run, teecOpenSession, hspace]
    cases getCommSpace e' m with
    | none => rfl
    | some space =>
      cases destination with
      | none => rfl
      | some uuid =>
        rw [Option.bind_some, Option.bind_some, Option.bind_some, Option.bind_some]
        split
        · rw [Option.isSome_map, Option.isSome_map]
        · rfl
  | invokeCommand session commandID operation returnOrigin =>
    simp only [ClientCall.run, teecInvokeCommand, hspace]
    cases getCommSpace e' m with
    | none => rfl
    | some space =>
      rw [Option.bind_some, Option.bind_some]
      split
      · rfl
      · rw [Option.isSome_map, Option.isSome_map]

/-- A call that does not fault comes to an end that unlocks the mutex. -/
theorem ends_of_not_faults (h : ¬Faults a m) : ∃ e m', commCalls.body a e m = some (m', true) := by
  rw [Faults, not_forall] at h
  obtain ⟨e, he⟩ := h
  let answered : CommEnv := { e with reply := { e.reply with ret := teeSuccess } }
  have hsome : (a.run.body answered m).isSome :=
    (isSome_body answered e rfl).trans (Option.isSome_iff_ne_none.mpr he)
  obtain ⟨d, hd⟩ := Option.isSome_iff_exists.mp hsome
  have hunlocked : d.unlocked = true := by
    rw [run_unlocked hd, decide_eq_true rfl, Bool.or_true]
  refine ⟨answered, d.mem, Option.map_eq_some_iff.mpr ⟨d, hd, ?_⟩⟩
  rw [hunlocked]

section Runs

variable [DecidableEq ι] {s t : ClientState ι} {l : ClientLabel ι}

/-- The mutex is where it should be: taken only by a call under way, free if there is none, and a call
that waits for it gets it, unless another ends in a fault. -/
structure CommKept (t : ClientState ι) : Prop where
  held : Held commCalls t
  free : (∀ i, t.place i = .out) → t.owner () = none
  turn : ∀ i a, t.place i = .waiting a → (∀ j b, t.place j = .inside b → ¬Faults b t.shared) →
    ∃ ls u, Run commCalls.Step t ls u ∧ u.place i = .inside a

theorem commKept_iff : CommKept t ↔ Held commCalls t :=
  ⟨CommKept.held, fun h => ⟨h, fun hout => h.free hout (), fun _ _ hwait hends =>
    h.enter hwait fun j b hj => ends_of_not_faults (hends j b hj)⟩⟩

/-- The condition on a step: if it is the end of `TEEC_InitializeContext` or of
`TEEC_RegisterSharedMemory`, the driver has answered with `TEEC_SUCCESS`. -/
def Accepted (s : ClientState ι) (l : ClientLabel ι) : Prop :=
  ∀ i e a, l = .ret i e → s.place i = .inside a → a.unlocksAlways = false → e.reply.ret = teeSuccess

theorem releases_iff (hstep : commCalls.Step s l t) : Releases commCalls s l ↔ Accepted s l := by
  cases hstep with
  | skip => exact iff_of_true trivial fun _ _ _ hl => nomatch hl
  | call => exact iff_of_true trivial fun _ _ _ hl => nomatch hl
  | take => exact iff_of_true trivial fun _ _ _ hl => nomatch hl
  | @ret i a e shared released hin hbody =>
    obtain ⟨d, hd, hdone⟩ := Option.map_eq_some_iff.mp hbody
    obtain ⟨rfl, rfl⟩ := Prod.mk.inj hdone
    have hunlocked := run_unlocked hd
    constructor
    · intro h i' e' a' hl hin' halways
      obtain ⟨rfl, rfl⟩ := LockLabel.ret.inj hl
      obtain rfl := Place.inside.inj (hin.symm.trans hin')
      rw [h a d.mem d.unlocked hin hbody, halways, Bool.false_or] at hunlocked
      exact of_decide_eq_true hunlocked.symm
    · intro h a' shared' released' hin' hbody'
      obtain rfl := Place.inside.inj (hin.symm.trans hin')
      obtain ⟨-, rfl⟩ := Prod.mk.inj (Option.some.inj (hbody.symm.trans hbody'))
      rw [hunlocked]
      cases halways : a.unlocksAlways with
      | true => rfl
      | false => exact decide_eq_true (h i e a rfl hin halways)

/-- **The sequences of calls that leave the mutex free.**  Whatever the memory of the client, and whatever
its threads call: after every step the mutex is where it should be, exactly when no
`TEEC_InitializeContext` and no `TEEC_RegisterSharedMemory` is refused by the driver. -/
theorem comm_kept_iff (m : ClientMem) (ls : List (ClientLabel ι)) (t : ClientState ι) :
    Run (fun s l t => commCalls.Step s l t ∧ CommKept t) (.start m) ls t ↔
      Run (Guarded Accepted commCalls.Step) (.start m) ls t := by
  have hkeep : ∀ s l t, Inside commCalls s → commCalls.Step (ι := ι) s l t → Inside commCalls t :=
    fun s l t hin hstep => hin.step hstep
  have hiff : ∀ s l t, Inside commCalls s → CommKept s → commCalls.Step (ι := ι) s l t →
      (CommKept t ↔ Accepted s l) :=
    fun s l t hin hkept hstep =>
      commKept_iff.trans ((held_iff hin hkept.held hstep).trans (releases_iff hstep))
  exact Run.keeps_iff hkeep hiff (inside_start _ _) (commKept_iff.mpr (held_start _ _))

end Runs

/-! ## 4. A refused context -/

/-- A client that has not asked for anything yet. -/
def newClient : ClientMem := ⟨some ⟨0, 0, fun _ => 0⟩, fun _ => 0, fun _ => 0, fun _ => ⟨0, 0, 0, 0⟩,
  fun _ => ⟨0, 0, fun _ => ⟨0, 0, 0⟩⟩⟩

/-- The driver answers `TEEC_ERROR_GENERIC`. -/
def refusal : CommEnv := ⟨none, ⟨0x01, 0xFFFF0000, fun _ => 0⟩, 0⟩

/-- The context that a client asks for is refused. -/
def refusedContext : List (ClientLabel Nat) :=
  [.call 0 (.initializeContext none 8), .take 0, .ret 0 refusal]

/-- **A refusal keeps the mutex**: then no call is under way, and the mutex is not free. -/
theorem refusal_keeps_mutex :
    ∃ t, Run commCalls.Step (.start newClient) refusedContext t ∧ (∀ i, t.place i = .out) ∧
      t.owner () = some 0 ∧ ¬CommKept t := by
  let call : ClientCall := .initializeContext none 8
  let waits : ClientState Nat :=
    ⟨fun _ => none, Function.update (fun _ => .out) 0 (.waiting call), newClient⟩
  let works : ClientState Nat :=
    ⟨Function.update (fun _ => none) () (some 0),
      Function.update waits.place 0 (.inside call), newClient⟩
  have hcall : commCalls.Step (.start newClient) (.call 0 call) waits := .call rfl rfl
  have htake : commCalls.Step waits (.take 0) works := .take (a := call) rfl rfl
  have hbody : commCalls.body call refusal newClient =
      some ({ newClient with comm := some refusal.reply }, false) := rfl
  have hinside : works.place 0 = .inside call := rfl
  have hret := LockedCalls.Step.ret (f := commCalls) hinside hbody
  have hout : ∀ i, (Function.update works.place 0 .out) i = .out := by
    intro i
    rcases eq_or_ne i 0 with rfl | hi
    · rfl
    · simp [works, waits, hi]
  refine ⟨_, .cons hcall (.cons htake (.cons hret (.nil _))), hout, rfl, fun hkept => ?_⟩
  exact absurd (hkept.free hout) nofun

end AndixOs.Client
