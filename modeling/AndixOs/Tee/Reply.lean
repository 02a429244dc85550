/-
# The result that goes back to the normal world

`tee_task_entry` copies the request of the normal world, `ret` included, works on the copy and
writes the result of the operation to its `ret`.  The three operations on sessions take that result
from the copy itself: they switch to the trustlet and return `tee->ret`.  So each way through
`swi_get_secure_request` has to assign `ret` before the switch comes back.

Two do not.  There is no answer to a `TZ_TEE_OP_CLOSE_SESSION`, and a trustlet that does not come
back to `swi_get_secure_request` before the TEE thread goes on has answered nothing.  Then the
normal world gets what it sent (`ret_independent_iff`).
-/
import AndixOs.Tee.Memory
import AndixOs.Lib.Run

namespace AndixOs.Tee

open AndixOs

/-! ## 1. `swi_get_secure_request` -/

/-- What the trustlets do while the TEE thread is away.  `waits`: the handler thread is in the loop
of `swi_get_secure_request`, where it looks at the request.  `back`: a trustlet calls
`swi_get_secure_request` with the request before the TEE thread goes on. -/
structure TrustletRun where
  waits : Bool
  back : Bool

/-- One turn of the loop: `ret` of the request, and `procceed`. -/
def secureReceive (s : TeeState) (op : TaOperation) (session : UInt32) (ch : Choice)
    (ret : UInt32) : UInt32 × Bool :=
  match op with
  | .taOpenSession => if ch.toUser ≠ teeSuccess then (ch.toUser, false) else (ret, true)
  | .taCloseSession =>
    match teeSessionFind s session with
    | none => (teeErrorGeneric, false)
    | some _ => (ret, true)
  | .taInvoke =>
    match teeSessionFind s session with
    | none => (teeErrorGeneric, false)
    | some _ => if ch.toUser ≠ teeSuccess then (ch.toUser, false) else (ret, true)

/-- The answer: `ret` of the request.  The `switch` has no case for a session that is closed. -/
def secureAnswer (s : TeeState) (op : TaOperation) (session : UInt32) (ch : Choice)
    (ret : UInt32) : UInt32 :=
  match op with
  | .taOpenSession | .taInvoke =>
    match teeSessionFind s session with
    | none => teeErrorGeneric
    | some _ => if ch.fromUser ≠ teeSuccess then ch.fromUser else ch.result
  | .taCloseSession => ret

/-- `switch_to_thread` to the handler, until the TEE thread goes on: `ret` of the request. -/
def switchToHandler (s : TeeState) (op : TaOperation) (session : UInt32) (ch : Choice)
    (run : TrustletRun) (ret : UInt32) : UInt32 :=
  let (ret, procceed) := if run.waits then secureReceive s op session ch ret else (ret, true)
  if procceed && run.back then secureAnswer s op session ch ret else ret

/-! ## 2. `tee_task.c` -/

/-- `tee_open_session`. -/
def teeOpenSessionRet (processByUuid : Nat → Option Nat) (s : TeeState) (context : UInt32)
    (uuid : Nat) (ch : Choice) (run : TrustletRun) (ret : UInt32) : Option UInt32 :=
  match teeContextFind s context with
  | none => some teeErrorCommunication
  | some c =>
    (teeSessionCreate s c ch).map fun (x, s) =>
      match x with
      | none => teeErrorOutOfMemory
      | some x =>
        match processByUuid uuid with
        | none => teeErrorItemNotFound
        | some pid =>
          switchToHandler (updateSession s x.id fun z => { z with teeApplication := some pid })
            .taOpenSession x.id ch run ret

/-- An operation on a session that is there: the switch to its trustlet. -/
def teeSessionRet (s : TeeState) (op : TaOperation) (session : UInt32) (ch : Choice)
    (run : TrustletRun) (ret : UInt32) : UInt32 :=
  match teeSessionFind s session with
  | none => teeErrorOutOfMemory
  | some x =>
    match x.teeApplication with
    | none => teeErrorItemNotFound
    | some _ => switchToHandler s op session ch run ret

/-- `tee_close_session`. -/
def teeCloseSessionRet (s : TeeState) (session : UInt32) (ch : Choice) (run : TrustletRun)
    (ret : UInt32) : UInt32 :=
  teeSessionRet s .taCloseSession session ch run ret

/-- `tee_invoke`. -/
def teeInvokeRet (s : TeeState) (session : UInt32) (ch : Choice) (run : TrustletRun)
    (ret : UInt32) : UInt32 :=
  teeSessionRet s .taInvoke session ch run ret

/-- The result that a turn of `tee_task_entry` writes to `space.ret`, for a request that came with
`ret` in this field; `none` while an id is drawn.  The other operations return their result
without a look at the copy. -/
def teeTaskRet (processByUuid : Nat → Option Nat) (w : TeeWorld) (run : TrustletRun)
    (ret : UInt32) : TeeCall × Choice → Option UInt32
  | (.request (.openSession context uuid), ch) =>
    teeOpenSessionRet processByUuid w.tee context uuid ch run ret
  | (.request (.closeSession session _), ch) =>
    some (teeCloseSessionRet w.tee session ch run ret)
  | (.request (.invokeCmd session _), ch) =>
    some (teeInvokeRet w.tee session ch run ret)
  | (q, ch) => (teeTask processByUuid w (q, ch)).map fun r => r.1.ret

/-- The request with this `ret`. -/
def TeeCall.withRet (ret : UInt32) : TeeCall → TeeCall
  | .request (.closeSession session _) => .request (.closeSession session ret)
  | q => q

/-! ## 3. What should hold, and when it does -/

/-- Two requests that differ in `ret` only get the same result. -/
def RetIndependent (processByUuid : Nat → Option Nat) (w : TeeWorld) (run : TrustletRun)
    (q : TeeCall × Choice) : Prop :=
  ∀ ret ret', teeTaskRet processByUuid w run ret q = teeTaskRet processByUuid w run ret' q

/-- The request is not refused at the trustlet, and is not answered either. -/
def unanswered (op : TaOperation) (ch : Choice) (run : TrustletRun) : Bool :=
  match op with
  | .taCloseSession => true
  | .taOpenSession | .taInvoke => !run.back && (!run.waits || ch.toUser == teeSuccess)

/-- The session is there and has a trustlet. -/
def boundSession (s : TeeState) (session : UInt32) : Bool :=
  (teeSessionFind s session).any fun x => x.teeApplication.isSome

/-- The request gets to a trustlet, and nobody assigns `ret`. -/
def passesRet (processByUuid : Nat → Option Nat) (w : TeeWorld) (run : TrustletRun) :
    TeeCall × Choice → Bool
  | (.request (.openSession context uuid), ch) =>
    (teeContextFind w.tee context).isSome && ch.allocOk &&
      (drawId (fun id => (teeSessionFind w.tee id).isSome) ch.draws).isSome &&
      (processByUuid uuid).isSome && unanswered .taOpenSession ch run
  | (.request (.closeSession session _), ch) =>
    boundSession w.tee session && unanswered .taCloseSession ch run
  | (.request (.invokeCmd session _), ch) =>
    boundSession w.tee session && unanswered .taInvoke ch run
  | _ => false

variable {s : TeeState} {op : TaOperation} {session : UInt32} {ch : Choice} {run : TrustletRun}
  {processByUuid : Nat → Option Nat} {w : TeeWorld}

/-! ## 4. At the trustlet -/

/-- **The switch** gives back the `ret` of the request, or one that does not depend on it. -/
theorem switchToHandler_cases (op : TaOperation) (ch : Choice) (run : TrustletRun)
    {x : TeeSession} (hfind : teeSessionFind s session = some x) :
    (unanswered op ch run = true → ∀ ret, switchToHandler s op session ch run ret = ret) ∧
      (unanswered op ch run = false →
        ∃ r, ∀ ret, switchToHandler s op session ch run ret = r) := by
  obtain ⟨waits, back⟩ := run
  cases op with
  | taCloseSession =>
    refine ⟨fun _ ret => ?_, fun h => nomatch h⟩
    cases waits <;> cases back <;> simp [switchToHandler, secureReceive, secureAnswer, hfind]
  | taOpenSession | taInvoke =>
    by_cases hto : ch.toUser = teeSuccess <;> cases waits <;> cases back <;>
      simp [switchToHandler, secureReceive, secureAnswer, hfind, unanswered, hto]

/-- A value that is `ret` or does not depend on it. -/
theorem independent_iff {f : UInt32 → UInt32} {passed : Bool}
    (hpass : passed = true → ∀ ret, f ret = ret) (hconst : passed = false → ∃ r, ∀ ret, f ret = r) :
    (∀ ret ret', f ret = f ret') ↔ passed = false := by
  cases passed with
  | true =>
    have hid := hpass rfl
    refine ⟨fun h => ?_, fun h => nomatch h⟩
    have h01 := h 0 1
    rw [hid, hid] at h01
    exact absurd h01 (by decide)
  | false =>
    obtain ⟨r, hr⟩ := hconst rfl
    exact ⟨fun _ => rfl, fun _ ret ret' => (hr ret).trans (hr ret').symm⟩

/-! ## 5. The operations -/

/-- `tee_close_session` and `tee_invoke`. -/
theorem teeSessionRet_iff :
    (∀ ret ret', teeSessionRet s op session ch run ret = teeSessionRet s op session ch run ret') ↔
      (boundSession s session && unanswered op ch run) = false := by
  unfold teeSessionRet boundSession
  cases hfind : teeSessionFind s session with
  | none => simp
  | some x =>
    cases happ : x.teeApplication with
    | none => simp [happ]
    | some pid =>
      obtain ⟨hpass, hconst⟩ := switchToHandler_cases op ch run hfind
      simpa [happ] using independent_iff hpass hconst

/-- The session that `tee_open_session` made is found at the trustlet. -/
theorem find_created (c : TeeContext) (pid : Nat) {id : UInt32}
    (hid : drawId (fun id => (teeSessionFind s id).isSome) ch.draws = some id) :
    ∃ y, teeSessionFind (updateSession
      { s with sessions := s.sessions ++ [⟨id, ch.staleApp, c.ptr, ch.staleHandle⟩] } id
        fun z => { z with teeApplication := some pid }) id = some y := by
  have hfresh := drawId_fresh hid
  have hupd := updateSession_append s ⟨id, ch.staleApp, c.ptr, ch.staleHandle⟩
    (fun z => { z with teeApplication := some pid }) hfresh
  have hfind := teeSessionFind_append s ⟨id, some pid, c.ptr, ch.staleHandle⟩ hfresh
  rw [hupd]
  exact ⟨_, hfind⟩

/-- `tee_open_session`. -/
theorem teeOpenSessionRet_iff {context : UInt32} {uuid : Nat} :
    (∀ ret ret', teeOpenSessionRet processByUuid s context uuid ch run ret =
        teeOpenSessionRet processByUuid s context uuid ch run ret') ↔
      ((teeContextFind s context).isSome && ch.allocOk &&
        (drawId (fun id => (teeSessionFind s id).isSome) ch.draws).isSome &&
        (processByUuid uuid).isSome && unanswered .taOpenSession ch run) = false := by
  unfold teeOpenSessionRet teeSessionCreate
  cases hc : teeContextFind s context with
  | none => simp
  | some c =>
    cases halloc : ch.allocOk with
    | false => simp
    | true =>
      cases hid : drawId (fun id => (teeSessionFind s id).isSome) ch.draws with
      | none => simp
      | some id =>
        cases hproc : processByUuid uuid with
        | none => simp
        | some pid =>
          obtain ⟨y, hy⟩ := find_created c pid hid
          obtain ⟨hpass, hconst⟩ := switchToHandler_cases .taOpenSession ch run hy
          simpa using independent_iff hpass hconst

/-! ## 6. Every request -/

/-- **What the normal world finds in `ret`** does not depend on what it put there, for every
request in every state and whatever the trustlets do, exactly when the request does not get to a
trustlet with nobody to assign `ret`: a `TZ_TEE_OP_CLOSE_SESSION` of a session with a trustlet, or
another request that a trustlet takes and does not answer. -/
theorem ret_independent_iff (processByUuid : Nat → Option Nat) (w : TeeWorld) (run : TrustletRun)
    (q : TeeCall × Choice) :
    RetIndependent processByUuid w run q ↔ passesRet processByUuid w run q = false := by
  obtain ⟨q, ch⟩ := q
  cases q with
  | registerMem _ _ _ _ | releaseMem _ | unknown => exact ⟨fun _ => rfl, fun _ _ _ => rfl⟩
  | request q =>
    cases q with
    | initCtx _ | finCtx _ => exact ⟨fun _ => rfl, fun _ _ _ => rfl⟩
    | openSession context uuid => exact teeOpenSessionRet_iff
    | closeSession session _ =>
      refine Iff.trans ?_ teeSessionRet_iff
      exact forall₂_congr fun _ _ => Option.some_inj
    | invokeCmd session _ =>
      refine Iff.trans ?_ teeSessionRet_iff
      exact forall₂_congr fun _ _ => Option.some_inj

/-- There is memory, the id 5 is drawn, and the trustlet accepts. -/
def acceptAll : Choice := ⟨true, [5], none, 0, teeSuccess, teeSuccess, teeSuccess, 77⟩

/-- **A session is opened and closed**: the result of the close is the `ret` that came with it. -/
theorem close_returns_ret : ∃ w,
    execOk (teeTaskStep fun _ => some 3) (fun _ _ => true) .init
      [(.request (.initCtx 0xDEADC), acceptAll), (.request (.openSession 5 9), acceptAll)] =
        some w ∧
    teeTaskRet (fun _ => some 3) w ⟨true, true⟩ 1 (.request (.closeSession 5 1), acceptAll) =
      some 1 ∧
    teeTaskRet (fun _ => some 3) w ⟨true, true⟩ 2 (.request (.closeSession 5 2), acceptAll) =
      some 2 ∧
    ¬ RetIndependent (fun _ => some 3) w ⟨true, true⟩ (.request (.closeSession 5 0), acceptAll) :=
  ⟨_, rfl, by decide, by decide, fun h => absurd (h 1 2) (by decide)⟩

/-! ## 7. The requests from start to end

`serve` has the handler thread wait and come back.  For such a run `teeTaskRet` is the `ret` of its
response. -/

/-- Opening a session, at the trustlet. -/
theorem serveOpen_ret (s : TeeState) (pid : Nat) (x : TeeSession) (ch : Choice) (ret : UInt32) :
    (serveOpen s pid x ch).1.ret =
      switchToHandler s .taOpenSession x.id ch ⟨true, true⟩ ret := by
  have hsame : ∀ e, teeSessionFind (s.record e) x.id = teeSessionFind s x.id := fun _ => rfl
  by_cases hto : ch.toUser = teeSuccess
  · cases hfind : teeSessionFind s x.id with
    | none => simp [serveOpen, switchToHandler, secureReceive, secureAnswer, hto, hsame, hfind]
    | some y =>
      by_cases hfrom : ch.fromUser = teeSuccess <;>
        simp [serveOpen, switchToHandler, secureReceive, secureAnswer, hto, hfrom, hsame, hfind]
  · simp [serveOpen, switchToHandler, secureReceive, hto]

/-- Closing a session, at the trustlet. -/
theorem serveClose_ret (s : TeeState) (pid : Nat) (session ret : UInt32) (ch : Choice) :
    (serveClose s pid session ret ch).1.ret =
      switchToHandler s .taCloseSession session ch ⟨true, true⟩ ret := by
  cases hfind : teeSessionFind s session with
  | none => simp [serveClose, switchToHandler, secureReceive, hfind]
  | some y => simp [serveClose, switchToHandler, secureReceive, secureAnswer, hfind]

/-- A command, at the trustlet. -/
theorem serveInvoke_ret (s : TeeState) (pid : Nat) (session command : UInt32) (ch : Choice)
    (ret : UInt32) :
    (serveInvoke s pid session command ch).1.ret =
      switchToHandler s .taInvoke session ch ⟨true, true⟩ ret := by
  cases hfind : teeSessionFind s session with
  | none => simp [serveInvoke, switchToHandler, secureReceive, hfind]
  | some y =>
    by_cases hto : ch.toUser = teeSuccess
    · by_cases hfrom : ch.fromUser = teeSuccess <;>
        simp [serveInvoke, switchToHandler, secureReceive, secureAnswer, hto, hfrom, hfind]
    · simp [serveInvoke, switchToHandler, secureReceive, hto, hfind]

/-- `tee_open_session`. -/
theorem teeOpenSession_ret (processByUuid : Nat → Option Nat) (s : TeeState) (context : UInt32)
    (uuid : Nat) (ch : Choice) (ret : UInt32) :
    teeOpenSessionRet processByUuid s context uuid ch ⟨true, true⟩ ret =
      (teeOpenSession processByUuid s context uuid ch).map fun r => r.1.ret := by
  unfold teeOpenSessionRet teeOpenSession
  cases teeContextFind s context with
  | none => rfl
  | some c =>
    rw [Option.map_map]
    refine congrArg (fun f => Option.map f (teeSessionCreate s c ch)) (funext ?_)
    rintro ⟨x, u⟩
    cases x with
    | none => rfl
    | some x =>
      cases processByUuid uuid with
      | none => rfl
      | some pid => exact (serveOpen_ret _ pid x ch ret).symm

/-- `tee_close_session`. -/
theorem teeCloseSession_ret (s : TeeState) (session ret : UInt32) (ch : Choice) :
    teeCloseSessionRet s session ch ⟨true, true⟩ ret =
      (teeCloseSession s session ret ch).1.ret := by
  unfold teeCloseSessionRet teeSessionRet teeCloseSession
  cases teeSessionFind s session with
  | none => rfl
  | some x =>
    cases happ : x.teeApplication with
    | none => simp [happ]
    | some pid => simp [happ, serveClose_ret]

/-- `tee_invoke`. -/
theorem teeInvoke_ret (s : TeeState) (session command ret : UInt32) (ch : Choice) :
    teeInvokeRet s session ch ⟨true, true⟩ ret =
      (teeInvoke s session command ch).1.ret := by
  unfold teeInvokeRet teeSessionRet teeInvoke
  cases teeSessionFind s session with
  | none => rfl
  | some x =>
    cases happ : x.teeApplication with
    | none => simp [happ]
    | some pid => simpa [happ] using (serveInvoke_ret s pid session command ch ret).symm

/-- **The result of a request** that is served from start to end is the one of `teeTask`. -/
theorem teeTaskRet_eq (processByUuid : Nat → Option Nat) (w : TeeWorld) (ret : UInt32)
    (q : TeeCall) (ch : Choice) :
    teeTaskRet processByUuid w ⟨true, true⟩ ret (q, ch) =
      (teeTask processByUuid w (q.withRet ret, ch)).map fun r => r.1.ret := by
  cases q with
  | registerMem _ _ _ _ | releaseMem _ | unknown => rfl
  | request q =>
    cases q with
    | initCtx _ | finCtx _ => rfl
    | openSession context uuid =>
      have hret := teeOpenSession_ret processByUuid w.tee context uuid ch ret
      simpa [teeTaskRet, teeTask, serve, TeeCall.withRet, Function.comp_def] using hret
    | closeSession session _ => exact congrArg some (teeCloseSession_ret w.tee session ret ch)
    | invokeCmd session command =>
      exact congrArg some (teeInvoke_ret w.tee session command ret ch)

end AndixOs.Tee
