/-
# Which sessions a trustlet is asked for

A trustlet should see a `TA_INVOKE` or a `TA_CLOSE_SESSION` only for a session that it accepted,
that is still open, and with the session context it returned when it accepted it (`HandedOk`).

The code never takes a session out of the list: `tee_session_destroy` has no caller.  A session
whose open failed, that was closed or whose context was finalised can still be named in a request,
and the request reaches the trustlet (`invoke_after_failed_open`).  This is the only way it goes
wrong: on a run in which no request names such a session, every request handed to a trustlet is in
order (`handed_ok_of_live`).
-/
import AndixOs.Lib.Run
import AndixOs.Tee.Session
import Mathlib.Data.List.Nodup

namespace AndixOs.Tee

open AndixOs

variable {s t : TeeState} {l : List TeeEvent} {processByUuid : Nat → Option Nat}

/-! ## 1. What the log says about a session -/

/-- At the end of the log, the session is open for the process: the process accepted it and
returned `sessionContext`, and since then it was not closed with success and its context was not
finalised. -/
def OpenFor (l : List TeeEvent) (pid : Nat) (session sessionContext : UInt32) : Prop :=
  ∃ l₁ l₂ context copied,
    l = l₁ ++ .opened pid session context teeSuccess sessionContext copied :: l₂ ∧
      (∀ p, .closed p session teeSuccess ∉ l₁) ∧ .finalized context ∉ l₁

/-- Every request handed to a trustlet was for a session open for it. -/
def HandedOk : List TeeEvent → Prop
  | [] => True
  | .handed _ pid session sessionContext _ :: l => OpenFor l pid session sessionContext ∧ HandedOk l
  | _ :: l => HandedOk l

/-- The session was accepted with success, its parameters went back, and it was neither closed
with success nor lost its context. -/
def liveSession (l : List TeeEvent) (session : UInt32) : Bool :=
  (l.any fun
    | .opened _ x context result _ copied =>
      x == session && result == teeSuccess && copied && !l.contains (.finalized context)
    | _ => false) &&
  !l.any fun
    | .closed _ x result => x == session && result == teeSuccess
    | _ => false

/-- The request names no session that is left over in the list. -/
def namesLive (s : TeeState) : TeeRequest × Choice → Bool
  | (.closeSession session _, _) => (teeSessionFind s session).isNone || liveSession s.log session
  | (.invokeCmd session _, _) => (teeSessionFind s session).isNone || liveSession s.log session
  | _ => true

theorem liveSession_inv {session : UInt32} (h : liveSession l session = true) :
    (∃ pid context h, .opened pid session context teeSuccess h true ∈ l ∧
        .finalized context ∉ l) ∧ ∀ p, .closed p session teeSuccess ∉ l := by
  rw [liveSession, Bool.and_eq_true] at h
  obtain ⟨hopen, hclosed⟩ := h
  constructor
  · obtain ⟨e, he, hp⟩ := List.any_eq_true.mp hopen
    cases e with
    | opened pid x context result sc copied =>
      simp only [Bool.and_eq_true, beq_iff_eq, Bool.not_eq_true', List.contains_eq_mem,
        decide_eq_false_iff_not] at hp
      obtain ⟨⟨⟨rfl, rfl⟩, rfl⟩, hfin⟩ := hp
      exact ⟨pid, context, sc, he, hfin⟩
    | handed _ _ _ _ _ => cases hp
    | closed _ _ _ => cases hp
    | finalized _ => cases hp
  · intro p hp
    rw [Bool.not_eq_true', List.any_eq_false] at hclosed
    exact hclosed _ hp (by simp)

/-! ## 2. The invariant -/

/-- Session ids are distinct, and the log and the list agree: a session whose open was answered
is in the list, bound to the process that answered and to its context, and has the handle of that
answer if its parameters went back. -/
structure SessionInv (s : TeeState) : Prop where
  handed : HandedOk s.log
  ids : (s.sessions.map TeeSession.id).Nodup
  opened : ∀ pid sid context result h copied,
    .opened pid sid context result h copied ∈ s.log →
      ∃ x ∈ s.sessions, x.id = sid ∧ x.teeApplication = some pid ∧ x.context = context ∧
        (copied = true → x.teeSessionHandle = h)

theorem teeSessionFind_some {id : UInt32} {x : TeeSession} (h : teeSessionFind s id = some x) :
    x ∈ s.sessions ∧ x.id = id :=
  ⟨List.mem_of_find?_eq_some h, by simpa using List.find?_some h⟩

/-- Ids are distinct, so a lookup finds the session it is about. -/
theorem SessionInv.unique (h : SessionInv s) {x y : TeeSession} (hx : x ∈ s.sessions)
    (hy : y ∈ s.sessions) (hid : x.id = y.id) : x = y :=
  List.inj_on_of_nodup_map h.ids hx hy hid

/-- **A live session is handed over in order.** -/
theorem SessionInv.openFor (h : SessionInv s) {x : TeeSession} {pid : Nat}
    (hfind : teeSessionFind s x.id = some x) (happ : x.teeApplication = some pid)
    (hlive : liveSession s.log x.id = true) : OpenFor s.log pid x.id x.teeSessionHandle := by
  obtain ⟨⟨pid', context, sc, hmem, hfin⟩, hclosed⟩ := liveSession_inv hlive
  obtain ⟨y, hy, hyid, hyapp, -, hyh⟩ := h.opened _ _ _ _ _ _ hmem
  obtain rfl := h.unique hy (teeSessionFind_some hfind).1 hyid
  obtain rfl := Option.some.inj (hyapp.symm.trans happ)
  obtain rfl := hyh rfl
  obtain ⟨l₁, l₂, hl⟩ := List.append_of_mem hmem
  refine ⟨l₁, l₂, context, true, hl, fun p hp => hclosed p ?_, fun hp => hfin ?_⟩
  · rw [hl]
    exact List.mem_append_left _ hp
  · rw [hl]
    exact List.mem_append_left _ hp

/-! ## 3. What each part of the code does to it -/

/-- Contexts do not matter. -/
theorem SessionInv.congr (h : SessionInv s) (hsessions : t.sessions = s.sessions)
    (hlog : t.log = s.log) : SessionInv t := by
  constructor
  · rw [hlog]
    exact h.handed
  · rw [hsessions]
    exact h.ids
  · rw [hlog, hsessions]
    exact h.opened

/-- An event that is no request and no answer to an open. -/
theorem SessionInv.record_note (h : SessionInv s) {e : TeeEvent}
    (hhanded : HandedOk s.log → HandedOk (e :: s.log))
    (hopened : ∀ pid sid context result sc copied, e ≠ .opened pid sid context result sc copied) :
    SessionInv (s.record e) := by
  refine ⟨hhanded h.handed, h.ids, fun pid sid context result sc copied hmem => ?_⟩
  rcases List.mem_cons.mp hmem with heq | hmem
  · exact absurd heq.symm (hopened _ _ _ _ _ _)
  · exact h.opened _ _ _ _ _ _ hmem

/-- A new session, whose open may have been answered already. -/
theorem SessionInv.add (h : SessionInv s) {y : TeeSession}
    (hfresh : ∀ z ∈ s.sessions, z.id ≠ y.id) : SessionInv { s with sessions := s.sessions ++ [y] } := by
  refine ⟨h.handed, ?_, fun pid sid context result sc copied hmem => ?_⟩
  · simp only [List.map_append, List.map_cons, List.map_nil]
    refine List.nodup_append.mpr ⟨h.ids, List.nodup_singleton _, ?_⟩
    rintro a ha b hb rfl
    obtain ⟨z, hz, rfl⟩ := List.mem_map.mp ha
    exact hfresh z hz (List.mem_singleton.mp hb)
  · obtain ⟨x, hx, hprop⟩ := h.opened _ _ _ _ _ _ hmem
    exact ⟨x, List.mem_append_left _ hx, hprop⟩

theorem SessionInv.addOpened (h : SessionInv s) {y : TeeSession} {pid : Nat}
    {sc : UInt32} (result : UInt32) (copied : Bool) (hfresh : ∀ z ∈ s.sessions, z.id ≠ y.id)
    (happ : y.teeApplication = some pid) (hhandle : copied = true → y.teeSessionHandle = sc) :
    SessionInv { s with
      sessions := s.sessions ++ [y]
      log := .opened pid y.id y.context result sc copied :: s.log } := by
  obtain ⟨hhanded, hids, hopened⟩ := h.add hfresh
  refine ⟨hhanded, hids, fun pid' sid context result' sc' copied' hmem => ?_⟩
  rcases List.mem_cons.mp hmem with heq | hmem
  · cases heq
    exact ⟨y, by simp, rfl, happ, rfl, hhandle⟩
  · exact hopened _ _ _ _ _ _ hmem

/-- A drawn id names no session. -/
theorem drawId_fresh {draws : List UInt32} {id : UInt32}
    (h : drawId (fun id => (teeSessionFind s id).isSome) draws = some id) :
    ∀ z ∈ s.sessions, z.id ≠ id := by
  intro z hz heq
  have hnone : (teeSessionFind s id).isSome = false := by simpa using List.find?_some h
  rw [Option.isSome_eq_false_iff, Option.isNone_iff_eq_none, teeSessionFind,
    List.find?_eq_none] at hnone
  exact hnone z hz (beq_iff_eq.mpr heq)

/-- Storing through the pointer to a session that was just added. -/
theorem updateSession_append (s : TeeState) (y : TeeSession) (f : TeeSession → TeeSession)
    (hfresh : ∀ z ∈ s.sessions, z.id ≠ y.id) :
    updateSession { s with sessions := s.sessions ++ [y] } y.id f =
      { s with sessions := s.sessions ++ [f y] } := by
  have hsame : s.sessions.map (fun x => if x.id = y.id then f x else x) = s.sessions := by
    refine (List.map_congr_left fun x hx => ?_).trans (List.map_id _)
    rw [if_neg (hfresh x hx)]
    rfl
  simp [updateSession, hsame]

theorem teeSessionFind_append (s : TeeState) (y : TeeSession)
    (hfresh : ∀ z ∈ s.sessions, z.id ≠ y.id) :
    teeSessionFind { s with sessions := s.sessions ++ [y] } y.id = some y := by
  have hnone : s.sessions.find? (fun x => x.id == y.id) = none := by
    rw [List.find?_eq_none]
    intro x hx
    simpa using hfresh x hx
  simp [teeSessionFind, hnone]

/-- The trustlet's part of opening a session. -/
theorem serveOpen_inv (h : SessionInv s) {pid : Nat} {x y : TeeSession} {ch : Choice}
    {r : TeeResponse} (hfresh : ∀ z ∈ s.sessions, z.id ≠ y.id) (hid : x.id = y.id)
    (hctx : x.context = y.context) (happ : y.teeApplication = some pid)
    (hstep : serveOpen { s with sessions := s.sessions ++ [y] } pid x ch = (r, t)) :
    SessionInv t := by
  rw [serveOpen, hid, hctx] at hstep
  have hfind : teeSessionFind (TeeState.record { s with sessions := s.sessions ++ [y] }
      (.opened pid y.id y.context ch.result ch.sessionContext (ch.fromUser == teeSuccess)))
      y.id = some y := teeSessionFind_append s y hfresh
  split_ifs at hstep with htoUser hfrom
  · obtain ⟨-, rfl⟩ := Prod.mk.inj hstep
    exact h.add hfresh
  · simp only [hfind] at hstep
    obtain ⟨-, rfl⟩ := Prod.mk.inj hstep
    exact h.addOpened ch.result _ hfresh happ fun hcopied => absurd (beq_iff_eq.mp hcopied) hfrom
  · simp only [hfind] at hstep
    obtain ⟨-, rfl⟩ := Prod.mk.inj hstep
    -- the handle is stored into the session that was added last
    have hupd := updateSession_append (s.record (.opened pid y.id y.context ch.result
      ch.sessionContext (ch.fromUser == teeSuccess))) y
      (fun z => { z with teeSessionHandle := ch.sessionContext }) hfresh
    have hinv := h.addOpened (y := { y with teeSessionHandle := ch.sessionContext })
      ch.result (ch.fromUser == teeSuccess) hfresh happ fun _ => rfl
    exact hupd ▸ hinv

/-- **Opening a session** leaves it in the list, with its open answered or not. -/
theorem teeOpenSession_inv (h : SessionInv s) {context : UInt32} {uuid : Nat} {ch : Choice}
    {r : TeeResponse} (hstep : teeOpenSession processByUuid s context uuid ch = some (r, t)) :
    SessionInv t := by
  unfold teeOpenSession at hstep
  split at hstep
  · obtain ⟨-, rfl⟩ := Prod.mk.inj (Option.some.inj hstep)
    exact h
  · rename_i c _
    obtain ⟨⟨x, s'⟩, hcreate, hrest⟩ := Option.map_eq_some_iff.mp hstep
    unfold teeSessionCreate at hcreate
    split_ifs at hcreate
    · obtain ⟨id, hid, hpair⟩ := Option.map_eq_some_iff.mp hcreate
      obtain ⟨rfl, rfl⟩ := Prod.mk.inj hpair
      have hfresh := drawId_fresh hid
      simp only at hrest
      split at hrest
      · obtain ⟨-, rfl⟩ := Prod.mk.inj hrest
        exact h.add hfresh
      · rename_i pid _
        have hupd := updateSession_append s ⟨id, ch.staleApp, c.ptr, ch.staleHandle⟩
          (fun z => { z with teeApplication := some pid }) hfresh
        rw [hupd] at hrest
        exact serveOpen_inv h hfresh rfl rfl rfl hrest
    · obtain ⟨rfl, rfl⟩ := Prod.mk.inj (Option.some.inj hcreate)
      obtain ⟨-, rfl⟩ := Prod.mk.inj hrest
      exact h

/-- **A request through a session** is in order if the session is live. -/
theorem teeCloseSession_inv (h : SessionInv s) {session : UInt32} (ret : UInt32) (ch : Choice)
    (hlive : teeSessionFind s session = none ∨ liveSession s.log session = true) :
    SessionInv (teeCloseSession s session ret ch).2 := by
  unfold teeCloseSession
  cases hfind : teeSessionFind s session with
  | none => exact h
  | some x =>
    obtain ⟨-, rfl⟩ := teeSessionFind_some hfind
    have hl : liveSession s.log x.id = true := hlive.resolve_left (by simp [hfind])
    cases happ : x.teeApplication with
    | none =>
      simp only [happ]
      exact h
    | some pid =>
      simp only [happ, serveClose, hfind]
      have hinv := h.record_note (e := .handed .taCloseSession pid x.id x.teeSessionHandle none)
        (fun hl' => ⟨h.openFor hfind happ hl, hl'⟩) (by simp)
      exact hinv.record_note (e := .closed pid x.id ch.result) id (by simp)

theorem teeInvoke_inv (h : SessionInv s) {session : UInt32} (command : UInt32) (ch : Choice)
    (hlive : teeSessionFind s session = none ∨ liveSession s.log session = true) :
    SessionInv (teeInvoke s session command ch).2 := by
  unfold teeInvoke
  cases hfind : teeSessionFind s session with
  | none => exact h
  | some x =>
    obtain ⟨-, rfl⟩ := teeSessionFind_some hfind
    have hl : liveSession s.log x.id = true := hlive.resolve_left (by simp [hfind])
    cases happ : x.teeApplication with
    | none =>
      simp only [happ]
      exact h
    | some pid =>
      simp only [happ, serveInvoke, hfind]
      have hinv := h.record_note (e := .handed .taInvoke pid x.id x.teeSessionHandle (some command))
        (fun hl' => ⟨h.openFor hfind happ hl, hl'⟩) (by simp)
      split_ifs
      · exact h
      · exact hinv
      · exact hinv

theorem teeFinalizeContext_inv (h : SessionInv s) (context : UInt32) :
    SessionInv (teeFinalizeContext s context).2 := by
  unfold teeFinalizeContext
  cases hfind : teeContextFind s context with
  | none => exact h
  | some c => exact (h.congr (t := teeContextRemove s c) rfl rfl).record_note id (by simp)

theorem teeInitContext_inv (h : SessionInv s) {context : UInt32} {ch : Choice} {r : TeeResponse}
    (hstep : teeInitContext s context ch = some (r, t)) : SessionInv t := by
  obtain ⟨⟨c, s'⟩, hcreate, hrest⟩ := Option.map_eq_some_iff.mp hstep
  have hs' : SessionInv s' := by
    unfold teeContextCreate at hcreate
    split_ifs at hcreate
    · obtain ⟨id, -, hpair⟩ := Option.map_eq_some_iff.mp hcreate
      obtain ⟨-, rfl⟩ := Prod.mk.inj hpair
      exact h.congr rfl rfl
    · obtain ⟨-, rfl⟩ := Prod.mk.inj (Option.some.inj hcreate)
      exact h
  simp only at hrest
  split_ifs at hrest
  · obtain ⟨-, rfl⟩ := Prod.mk.inj hrest
    exact hs'
  · cases c <;>
    · obtain ⟨-, rfl⟩ := Prod.mk.inj hrest
      exact hs'

/-! ## 4. Every run -/

/-- The state after a request. -/
def serveStep (processByUuid : Nat → Option Nat) (s : TeeState) (q : TeeRequest × Choice) :
    Option TeeState :=
  (serve processByUuid s q).map Prod.snd

theorem serveStep_inv (h : SessionInv s) {q : TeeRequest × Choice} (hok : namesLive s q = true)
    (hstep : serveStep processByUuid s q = some t) : SessionInv t := by
  obtain ⟨⟨r, t'⟩, hserve, rfl⟩ := Option.map_eq_some_iff.mp hstep
  obtain ⟨req, ch⟩ := q
  cases req with
  | initCtx context => exact teeInitContext_inv h hserve
  | finCtx context =>
    have hinv := teeFinalizeContext_inv h context
    rwa [Option.some.inj hserve] at hinv
  | openSession context uuid => exact teeOpenSession_inv h hserve
  | closeSession session ret =>
    simp only [namesLive, Bool.or_eq_true, Option.isNone_iff_eq_none] at hok
    have hinv := teeCloseSession_inv h ret ch hok
    rwa [Option.some.inj hserve] at hinv
  | invokeCmd session command =>
    simp only [namesLive, Bool.or_eq_true, Option.isNone_iff_eq_none] at hok
    have hinv := teeInvoke_inv h command ch hok
    rwa [Option.some.inj hserve] at hinv

/-- **Sessions are in order on runs that name no left-over session.**  For every sequence of
requests, every set of trustlets and everything the trustlets answer: if no request names a
session whose open failed, that was closed with success or whose context was finalised, then every
`TA_INVOKE` and `TA_CLOSE_SESSION` goes to the trustlet that accepted the session, which is still
open, with the session context it returned. -/
theorem handed_ok_of_live (processByUuid : Nat → Option Nat) (qs : List (TeeRequest × Choice))
    (t : TeeState)
    (hrun : Run (Guarded (fun s q => namesLive s q = true) (stepOf (serveStep processByUuid)))
      .init qs t) : HandedOk t.log := by
  have hinit : SessionInv TeeState.init := by
    refine ⟨trivial, List.nodup_nil, fun _ _ _ _ _ _ hmem => ?_⟩
    cases hmem
  have hkeep : ∀ s q u, SessionInv s →
      Guarded (fun s q => namesLive s q = true) (stepOf (serveStep processByUuid)) s q u →
        SessionInv u :=
    fun s q u hs hstep => serveStep_inv hs hstep.1 hstep.2
  exact (Run.invariant hkeep hrun hinit).handed

/-- A choice where everything works and the trustlet answers `result` and 77. -/
def answering (result : UInt32) : Choice :=
  ⟨true, [5], none, 0, teeSuccess, teeSuccess, result, 77⟩

/-- A session is opened and invoked. -/
def invokeOps (result : UInt32) : List (TeeRequest × Choice) :=
  [(.initCtx 0xDEADC, answering teeSuccess), (.openSession 5 1, answering result),
    (.invokeCmd 5 0, answering teeSuccess)]

theorem handed_ok_of_live_invoke :
    ∃ t, execOk (serveStep some) namesLive .init (invokeOps teeSuccess) = some t ∧
      .handed .taInvoke 1 5 77 (some 0) ∈ t.log ∧ HandedOk t.log := by
  have hlog : (execOk (serveStep some) namesLive .init (invokeOps teeSuccess)).map
      (fun t => t.log.contains (.handed .taInvoke 1 5 77 (some 0))) = some true := by decide
  obtain ⟨t, ht, htl⟩ := Option.map_eq_some_iff.mp hlog
  exact ⟨t, ht, by simpa using htl, handed_ok_of_live some _ t (run_of_execOk ht)⟩

/-- **A session whose open the trustlet refused can be invoked**: the trustlet answers the open
with an error, and the next request reaches it through that session. -/
theorem invoke_after_failed_open :
    ∃ t, Run (stepOf (serveStep some)) .init (invokeOps teeErrorGeneric) t ∧ ¬ HandedOk t.log := by
  have hlog : (execOk (serveStep some) (fun _ _ => true) .init (invokeOps teeErrorGeneric)).map
      (fun t => t.log) = some [.handed .taInvoke 1 5 77 (some 0),
        .opened 1 5 0 teeErrorGeneric 77 true] := by decide
  obtain ⟨t, ht, htl⟩ := Option.map_eq_some_iff.mp hlog
  refine ⟨t, (run_of_execOk ht).of_guarded, fun hok => ?_⟩
  rw [htl] at hok
  obtain ⟨⟨l₁, l₂, context, copied, hl, -⟩, -⟩ := hok
  have hmem : .opened 1 5 context teeSuccess 77 copied ∈
      [TeeEvent.opened 1 5 0 teeErrorGeneric 77 true] := by
    rw [hl]
    exact List.mem_append_right _ List.mem_cons_self
  simp [teeSuccess, teeErrorGeneric] at hmem

end AndixOs.Tee
