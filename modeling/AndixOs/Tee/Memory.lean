/-
# What a failed request leaves behind

`tee_task_entry` answers the normal world's requests.  A request that fails should leave the lists
of contexts, sessions and registered memories as they were (`KeepsLists`).

Registering memory checks before it creates, and the requests through a session change no list.
Two requests create first.  `tee_init_context` has its context in the list before it looks at the
magic value, and `tee_open_session` never takes its session out again, whatever fails afterwards.
`FailsClean` says exactly when this does not show (`error_keeps_lists_iff`).
-/
import AndixOs.Tee.SessionLife

namespace AndixOs.Tee

open AndixOs

/-! ## 1. Registered memories -/

/-- `tee_memory`, without the list of its mappings.  `ptr` is the address of the structure, and
`context` that of its context. -/
structure TeeMemory where
  ptr : Nat
  id : UInt32
  context : Nat
  flags : UInt32
  paddr : UInt32
  vaddr : UInt32
  size : UInt32
  deriving DecidableEq

/-- The three lists, and the next address `kmalloc` gives a memory. -/
structure TeeWorld where
  tee : TeeState
  memories : List TeeMemory
  nextMemory : Nat

def TeeWorld.init : TeeWorld := ⟨.init, [], 0⟩

/-- `TZ_TEE_OP_*`, with the fields the operation reads. -/
inductive TeeCall where
  | registerMem (context paddr size flags : UInt32)
  | releaseMem (memid : UInt32)
  | request (q : TeeRequest)
  | unknown

/-- `is_valid_nonsecure_ram_addr`: the check is still to be written. -/
def isValidNonsecureRamAddr (_ptr : UInt32) : Bool := true

def teeMemoryFind (w : TeeWorld) (id : UInt32) : Option TeeMemory :=
  w.memories.find? fun m => m.id == id

/-- `tee_memory_create`, and the fields `tee_register_mem` fills in.  The inner `none` is `NULL`:
`kmalloc` is asked twice, and `list_add` once. -/
def teeMemoryCreate (w : TeeWorld) (c : TeeContext) (paddr size flags : UInt32) (ch : Choice) :
    Option (Option TeeMemory × TeeWorld) :=
  if ch.allocOk then
    (drawId (fun id => (teeMemoryFind w id).isSome) ch.draws).map fun id =>
      let m : TeeMemory := ⟨w.nextMemory, id, c.ptr, flags, paddr, 0, size⟩
      (some m, { w with memories := w.memories ++ [m], nextMemory := w.nextMemory + 1 })
  else some (none, w)

/-- `tee_memory_destroy`. -/
def teeMemoryDestroy (w : TeeWorld) (m : TeeMemory) : TeeWorld :=
  { w with memories := w.memories.filter fun x => x.ptr != m.ptr }

/-! ## 2. `tee_task.c` -/

/-- `tee_register_mem`. -/
def teeRegisterMem (w : TeeWorld) (context paddr size flags : UInt32) (ch : Choice) :
    Option (TeeResponse × TeeWorld) :=
  if isValidNonsecureRamAddr paddr then
    match teeContextFind w.tee context with
    | none => some (⟨teeErrorBadState, none, none⟩, w)
    | some c =>
      (teeMemoryCreate w c paddr size flags ch).map fun (m, w) =>
        match m with
        | none => (⟨teeErrorOutOfMemory, none, none⟩, w)
        | some m => (⟨teeSuccess, some m.id, none⟩, w)
  else some (⟨teeErrorBadParameters, none, none⟩, w)

/-- `tee_release_mem`. -/
def teeReleaseMem (w : TeeWorld) (memid : UInt32) : TeeResponse × TeeWorld :=
  match teeMemoryFind w memid with
  | none => (⟨teeErrorBadState, none, none⟩, w)
  | some m => (⟨teeSuccess, none, none⟩, teeMemoryDestroy w m)

/-- One turn of the loop of `tee_task_entry`. -/
def teeTask (processByUuid : Nat → Option Nat) (w : TeeWorld) :
    TeeCall × Choice → Option (TeeResponse × TeeWorld)
  | (.registerMem context paddr size flags, ch) => teeRegisterMem w context paddr size flags ch
  | (.releaseMem memid, _) => some (teeReleaseMem w memid)
  | (.request q, ch) =>
    (serve processByUuid w.tee (q, ch)).map fun (r, s) => (r, { w with tee := s })
  | (.unknown, _) => some (⟨teeErrorCommunication, none, none⟩, w)

/-- The state after a turn. -/
def teeTaskStep (processByUuid : Nat → Option Nat) (w : TeeWorld) (q : TeeCall × Choice) :
    Option TeeWorld :=
  (teeTask processByUuid w q).map Prod.snd

/-! ## 3. What should hold, and when it does -/

/-- If the answer is an error, the three lists are as before. -/
def KeepsLists (w : TeeWorld) (r : TeeResponse) (u : TeeWorld) : Prop :=
  r.ret ≠ teeSuccess →
    u.tee.contexts = w.tee.contexts ∧ u.tee.sessions = w.tee.sessions ∧ u.memories = w.memories

/-- What opening a session needs to succeed, once it has been created. -/
def opensSession (processByUuid : Nat → Option Nat) (uuid : Nat) (ch : Choice) : Bool :=
  (processByUuid uuid).isSome && ch.toUser == teeSuccess && ch.fromUser == teeSuccess &&
    ch.result == teeSuccess

/-- The request creates nothing before an error: a context is asked for with the magic value or
there is no memory for one; a session is asked for in no context, or there is no memory for one,
or nothing fails after it was created. -/
def failsClean (processByUuid : Nat → Option Nat) (w : TeeWorld) : TeeCall × Choice → Bool
  | (.request (.initCtx context), ch) => context == 0xDEADC || !ch.allocOk
  | (.request (.openSession context uuid), ch) =>
    (teeContextFind w.tee context).isNone || !ch.allocOk || opensSession processByUuid uuid ch
  | _ => true

/-- A turn whose answer, if it is an error, left the lists alone. -/
def CleanTurn (processByUuid : Nat → Option Nat) (w : TeeWorld) (q : TeeCall × Choice)
    (u : TeeWorld) : Prop :=
  ∃ r, teeTask processByUuid w q = some (r, u) ∧ KeepsLists w r u

/-! ## 4. Requests that create first -/

variable {s t : TeeState} {r : TeeResponse} {processByUuid : Nat → Option Nat}

/-- `KeepsLists` for the two lists of `TeeState`. -/
def TeeKeeps (s : TeeState) (r : TeeResponse) (t : TeeState) : Prop :=
  r.ret ≠ teeSuccess → t.contexts = s.contexts ∧ t.sessions = s.sessions

theorem teeContextCreate_cases {ch : Choice} {c : Option TeeContext}
    (h : teeContextCreate s ch = some (c, t)) :
    (ch.allocOk = true ∧ t.contexts.length = s.contexts.length + 1 ∧ c.isSome = true) ∨
      (ch.allocOk = false ∧ t = s ∧ c = none) := by
  rw [teeContextCreate] at h
  split at h
  · rename_i halloc
    obtain ⟨id, -, hpair⟩ := Option.map_eq_some_iff.mp h
    obtain ⟨rfl, rfl⟩ := Prod.mk.inj hpair
    exact Or.inl ⟨halloc, by simp, rfl⟩
  · rename_i halloc
    obtain ⟨rfl, rfl⟩ := Prod.mk.inj (Option.some.inj h)
    exact Or.inr ⟨by simpa using halloc, rfl, rfl⟩

/-- **`tee_init_context`** leaves a context behind when the magic value is wrong. -/
theorem teeInitContext_keeps {context : UInt32} {ch : Choice}
    (h : teeInitContext s context ch = some (r, t)) :
    TeeKeeps s r t ↔ context = 0xDEADC ∨ ch.allocOk = false := by
  obtain ⟨⟨c, s'⟩, hcreate, hrest⟩ := Option.map_eq_some_iff.mp h
  simp only at hrest
  rcases teeContextCreate_cases hcreate with ⟨halloc, hlen, hsome⟩ | ⟨halloc, rfl, rfl⟩
  · split_ifs at hrest with hmagic
    · obtain ⟨rfl, rfl⟩ := Prod.mk.inj hrest
      constructor
      · intro hkeep
        have hlists := hkeep (by simp [teeErrorCommunication, teeSuccess])
        rw [hlists.1] at hlen
        omega
      · rintro (hctx | hno)
        · exact absurd hctx hmagic
        · exact absurd (halloc.symm.trans hno) (by simp)
    · obtain ⟨c', rfl⟩ := Option.isSome_iff_exists.mp hsome
      obtain ⟨rfl, rfl⟩ := Prod.mk.inj hrest
      constructor
      · intro _
        exact Or.inl (not_not.mp hmagic)
      · intro _ hret
        exact absurd rfl hret
  · have hsame : t = s' := by
      split_ifs at hrest <;>
      · obtain ⟨-, rfl⟩ := Prod.mk.inj hrest
        rfl
    subst hsame
    constructor
    · intro _
      exact Or.inr halloc
    · intro _ _
      exact ⟨rfl, rfl⟩

/-- The trustlet's part of opening a session takes nothing out of the list. -/
theorem serveOpen_cases (pid : Nat) {x y : TeeSession} (ch : Choice)
    (hfind : teeSessionFind s x.id = some y) :
    (serveOpen s pid x ch).2.sessions.length = s.sessions.length ∧
      ((serveOpen s pid x ch).1.ret = teeSuccess ↔
        ch.toUser = teeSuccess ∧ ch.fromUser = teeSuccess ∧ ch.result = teeSuccess) := by
  have hfind' : teeSessionFind (s.record (.opened pid x.id x.context ch.result ch.sessionContext
      (ch.fromUser == teeSuccess))) x.id = some y := hfind
  rw [serveOpen]
  split_ifs with hto hfrom
  · exact ⟨rfl, by simp [hto]⟩
  · simp only [hfind']
    exact ⟨rfl, by simp [hfrom]⟩
  · simp only [hfind']
    have hto' : ch.toUser = teeSuccess := not_not.mp hto
    have hfrom' : ch.fromUser = teeSuccess := not_not.mp hfrom
    exact ⟨by simp [updateSession, TeeState.record], by simp [hto', hfrom']⟩

/-- A session that `tee_open_session` created is in the list at the end. -/
theorem teeOpenSession_created {context : UInt32} {uuid : Nat} {ch : Choice} {c : TeeContext}
    (h : teeOpenSession processByUuid s context uuid ch = some (r, t))
    (hc : teeContextFind s context = some c) (halloc : ch.allocOk = true) :
    t.sessions.length = s.sessions.length + 1 ∧
      (r.ret = teeSuccess ↔ opensSession processByUuid uuid ch = true) := by
  simp only [teeOpenSession, hc, teeSessionCreate, halloc, if_true, Option.map_map] at h
  obtain ⟨id, hid, hrest⟩ := Option.map_eq_some_iff.mp h
  have hfresh := drawId_fresh hid
  simp only [Function.comp] at hrest
  cases hproc : processByUuid uuid with
  | none =>
    simp only [hproc] at hrest
    obtain ⟨rfl, rfl⟩ := Prod.mk.inj hrest
    exact ⟨by simp, by simp [opensSession, hproc, teeErrorItemNotFound, teeSuccess]⟩
  | some pid =>
    simp only [hproc] at hrest
    have hupd := updateSession_append s ⟨id, ch.staleApp, c.ptr, ch.staleHandle⟩
      (fun z => { z with teeApplication := some pid }) hfresh
    rw [hupd] at hrest
    -- the id is fresh, so the handler finds the session that was just added
    have hfind := teeSessionFind_append s ⟨id, some pid, c.ptr, ch.staleHandle⟩ hfresh
    have hserve := serveOpen_cases pid (x := ⟨id, ch.staleApp, c.ptr, ch.staleHandle⟩) ch hfind
    rw [hrest] at hserve
    exact ⟨hserve.1.trans (by simp), hserve.2.trans (by simp [opensSession, hproc, and_assoc])⟩

/-- **`tee_open_session`** leaves a session behind when anything fails after it was created. -/
theorem teeOpenSession_keeps {context : UInt32} {uuid : Nat} {ch : Choice}
    (h : teeOpenSession processByUuid s context uuid ch = some (r, t)) :
    TeeKeeps s r t ↔ teeContextFind s context = none ∨ ch.allocOk = false ∨
      opensSession processByUuid uuid ch = true := by
  cases hc : teeContextFind s context with
  | none =>
    simp only [teeOpenSession, hc] at h
    obtain ⟨-, rfl⟩ := Prod.mk.inj (Option.some.inj h)
    exact ⟨fun _ => Or.inl rfl, fun _ _ => ⟨rfl, rfl⟩⟩
  | some c =>
    cases halloc : ch.allocOk with
    | false =>
      simp only [teeOpenSession, hc, teeSessionCreate, halloc, Bool.false_eq_true, if_false,
        Option.map_some] at h
      obtain ⟨-, rfl⟩ := Prod.mk.inj (Option.some.inj h)
      exact ⟨fun _ => Or.inr (Or.inl rfl), fun _ _ => ⟨rfl, rfl⟩⟩
    | true =>
      obtain ⟨hlen, hret⟩ := teeOpenSession_created h hc halloc
      constructor
      · intro hkeep
        refine Or.inr (Or.inr (hret.mp ?_))
        by_contra hfail
        rw [(hkeep hfail).2] at hlen
        omega
      · rintro (hnone | hno | hopens)
        · exact absurd hnone (by simp)
        · exact absurd hno (by simp)
        · intro hfail
          exact absurd (hret.mpr hopens) hfail

/-! ## 5. The other requests -/

theorem teeFinalizeContext_keeps (s : TeeState) (context : UInt32) :
    TeeKeeps s (teeFinalizeContext s context).1 (teeFinalizeContext s context).2 := by
  intro hret
  cases hc : teeContextFind s context with
  | none => simp [teeFinalizeContext, hc]
  | some c => exact absurd (by simp [teeFinalizeContext, hc]) hret

/-- Closing a session only tells the trustlet. -/
theorem teeCloseSession_keeps (s : TeeState) (session ret : UInt32) (ch : Choice) :
    (teeCloseSession s session ret ch).2.contexts = s.contexts ∧
      (teeCloseSession s session ret ch).2.sessions = s.sessions := by
  unfold teeCloseSession serveClose
  split
  · exact ⟨rfl, rfl⟩
  · split
    · exact ⟨rfl, rfl⟩
    · split <;> exact ⟨rfl, rfl⟩

theorem teeInvoke_keeps (s : TeeState) (session command : UInt32) (ch : Choice) :
    (teeInvoke s session command ch).2.contexts = s.contexts ∧
      (teeInvoke s session command ch).2.sessions = s.sessions := by
  unfold teeInvoke serveInvoke
  split
  · exact ⟨rfl, rfl⟩
  · split
    · exact ⟨rfl, rfl⟩
    · split
      · exact ⟨rfl, rfl⟩
      · split_ifs <;> exact ⟨rfl, rfl⟩

/-- Registering a memory is its last step: an error comes before anything is in the list. -/
theorem teeRegisterMem_keeps {w u : TeeWorld} {context paddr size flags : UInt32} {ch : Choice}
    (h : teeRegisterMem w context paddr size flags ch = some (r, u)) : KeepsLists w r u := by
  intro hret
  rw [teeRegisterMem] at h
  split_ifs at h
  · split at h
    · obtain ⟨-, rfl⟩ := Prod.mk.inj (Option.some.inj h)
      exact ⟨rfl, rfl, rfl⟩
    · obtain ⟨⟨m, w'⟩, hcreate, hrest⟩ := Option.map_eq_some_iff.mp h
      cases m with
      | some m =>
        obtain ⟨rfl, -⟩ := Prod.mk.inj hrest
        exact absurd rfl hret
      | none =>
        obtain ⟨-, rfl⟩ := Prod.mk.inj hrest
        rw [teeMemoryCreate] at hcreate
        split at hcreate
        · obtain ⟨id, -, hpair⟩ := Option.map_eq_some_iff.mp hcreate
          cases hpair
        · obtain ⟨-, rfl⟩ := Prod.mk.inj (Option.some.inj hcreate)
          exact ⟨rfl, rfl, rfl⟩
  · obtain ⟨-, rfl⟩ := Prod.mk.inj (Option.some.inj h)
    exact ⟨rfl, rfl, rfl⟩

theorem teeReleaseMem_keeps (w : TeeWorld) (memid : UInt32) :
    KeepsLists w (teeReleaseMem w memid).1 (teeReleaseMem w memid).2 := by
  intro hret
  cases hm : teeMemoryFind w memid with
  | none => simp [teeReleaseMem, hm]
  | some m => exact absurd (by simp [teeReleaseMem, hm]) hret

/-! ## 6. Every request -/

theorem serve_keeps {q : TeeRequest} {ch : Choice} {w : TeeWorld}
    (h : serve processByUuid w.tee (q, ch) = some (r, t)) :
    TeeKeeps w.tee r t ↔ failsClean processByUuid w (.request q, ch) = true := by
  cases q with
  | initCtx context => exact (teeInitContext_keeps h).trans (by simp [failsClean])
  | finCtx context =>
    have hkeep := teeFinalizeContext_keeps w.tee context
    rw [Option.some.inj h] at hkeep
    exact iff_of_true hkeep rfl
  | openSession context uuid =>
    exact (teeOpenSession_keeps h).trans (by simp [failsClean, or_assoc])
  | closeSession session ret =>
    have hkeep := teeCloseSession_keeps w.tee session ret ch
    rw [Option.some.inj h] at hkeep
    exact iff_of_true (fun _ => hkeep) rfl
  | invokeCmd session command =>
    have hkeep := teeInvoke_keeps w.tee session command ch
    rw [Option.some.inj h] at hkeep
    exact iff_of_true (fun _ => hkeep) rfl

/-- One turn: an error leaves the lists alone exactly when the request creates nothing first. -/
theorem teeTask_keeps {q : TeeCall × Choice} {w u : TeeWorld}
    (h : teeTask processByUuid w q = some (r, u)) :
    KeepsLists w r u ↔ failsClean processByUuid w q = true := by
  obtain ⟨call, ch⟩ := q
  cases call with
  | registerMem context paddr size flags => exact iff_of_true (teeRegisterMem_keeps h) rfl
  | releaseMem memid =>
    have hkeep := teeReleaseMem_keeps w memid
    rw [Option.some.inj h] at hkeep
    exact iff_of_true hkeep rfl
  | unknown =>
    obtain ⟨-, rfl⟩ := Prod.mk.inj (Option.some.inj h)
    exact iff_of_true (fun _ => ⟨rfl, rfl, rfl⟩) rfl
  | request q =>
    obtain ⟨⟨r', t⟩, hserve, hpair⟩ := Option.map_eq_some_iff.mp h
    obtain ⟨rfl, rfl⟩ := Prod.mk.inj hpair
    refine Iff.trans ?_ (serve_keeps hserve)
    simp [KeepsLists, TeeKeeps]

/-- **Failed requests and the three lists.**  In every state and for every request, whatever
fails: if the answer is an error then the lists of contexts, sessions and memories are as before,
exactly when the request creates nothing before an error.  So on a run every failed request left
the lists alone exactly when every request of the run is such a request. -/
theorem error_keeps_lists_iff (processByUuid : Nat → Option Nat) :
    (∀ w q r u, teeTask processByUuid w q = some (r, u) →
      (KeepsLists w r u ↔ failsClean processByUuid w q = true)) ∧
    ∀ qs w, Run (CleanTurn processByUuid) .init qs w ↔
      Run (Guarded (fun w q => failsClean processByUuid w q = true)
        (stepOf (teeTaskStep processByUuid))) .init qs w := by
  refine ⟨fun w q r u h => teeTask_keeps h, fun qs w => Run.congr (fun w q u => ?_)⟩
  constructor
  · rintro ⟨r, htask, hkeep⟩
    exact ⟨(teeTask_keeps htask).mp hkeep, by simp [stepOf, teeTaskStep, htask]⟩
  · rintro ⟨hclean, hstep⟩
    obtain ⟨⟨r, u'⟩, htask, rfl⟩ := Option.map_eq_some_iff.mp hstep
    exact ⟨r, htask, (teeTask_keeps htask).mpr hclean⟩

/-- A context is opened and a memory registered in it. -/
def contextOps : List (TeeCall × Choice) :=
  [(.request (.initCtx 0xDEADC), answering teeSuccess),
    (.registerMem 5 0x70000000 64 0, answering teeSuccess)]

/-- What these two requests lead to. -/
def contextWorld : TeeWorld :=
  ⟨⟨[⟨0, 5⟩], [], 1, []⟩, [⟨0, 5, 0, 0, 0x70000000, 0, 64⟩], 1⟩

/-- A session that the trustlet refuses stays in the list. -/
theorem error_keeps_lists_iff_refused :
    Run (stepOf (teeTaskStep some)) .init contextOps contextWorld ∧
      ∃ r u, teeTask some contextWorld (.request (.openSession 5 1), answering teeErrorGeneric) =
        some (r, u) ∧ ¬ KeepsLists contextWorld r u := by
  have hrun : execOk (teeTaskStep some) (fun _ _ => true) .init contextOps =
    some contextWorld := rfl
  refine ⟨(run_of_execOk hrun).of_guarded, _, _, rfl, fun hkeep => ?_⟩
  have hclean := ((error_keeps_lists_iff some).1 _
    (.request (.openSession 5 1), answering teeErrorGeneric) _ _ rfl).mp hkeep
  exact absurd hclean (by decide)

/-- **A wrong magic value leaves a context behind.** -/
theorem init_context_error_grows :
    ∃ r w, teeTask some .init (.request (.initCtx 0), answering teeSuccess) = some (r, w) ∧
      ¬ KeepsLists .init r w := by
  refine ⟨_, _, rfl, fun hkeep => ?_⟩
  have hlists := hkeep (by decide)
  exact absurd hlists.1 (by decide)

end AndixOs.Tee
