/-
# The requests of the TEE thread

`tee_open_session`, `tee_close_session` and `tee_invoke` set `tee_rpc` of a trustlet, switch to its
thread, and take it for granted that the switch returns when the trustlet is back in
`swi_get_secure_request`.  No thread is told who switches to it, or why.

It is so while the non-secure world does not enter with `SMC_PROCESS_TMEM` before the answer, the
queue of the service thread gets its memory, and no trustlet refuses the request (`served_run`): the
processor then goes from the TEE thread to the trustlet, for each file request to the service
thread, out and back, and at last to the TEE thread again.  `SMC_PROCESS_TMEM` switches to the TEE
thread at any time, and the result of an unfinished request is copied (`served_fails`).
-/
import AndixOs.Lib.History
import AndixOs.Monitor.Nonsecure
import AndixOs.Monitor.Steps

namespace AndixOs.Monitor

/-! ## 1. One request at a time -/

/-- The events of a request, and the copying of a result. -/
def Event.isTurn : Event → Bool
  | .handed _ _ | .finished _ _ | .resumed _ _ | .copyBack _ _ => true
  | _ => false

/-- Whose turn it is: no trustlet serves a request, `i` serves request `n`, or it has. -/
inductive Turn where
  | free
  | handed (n i : Nat)
  | finished (n i : Nat)

inductive TurnStep : Turn → Event → Turn → Prop where
  | hand (n i : Nat) : TurnStep .free (.handed n i) (.handed n i)
  | finish (n i : Nat) : TurnStep (.handed n i) (.finished n i) (.finished n i)
  | resume (n i : Nat) : TurnStep (.finished n i) (.resumed n i) .free
  | copyBack (p q : Nat) : TurnStep .free (.copyBack p q) .free

/-- The requests so far. -/
def Turns : List Event → Turn → Prop := History Event.isTurn TurnStep .free

/-- The last two events of the requests: `i` was handed request `n`, and has finished it. -/
def LastFinished (l : List Event) (n i : Nat) : Prop :=
  ∃ l0 l1, l = l0 ++ .finished n i :: l1 ∧ Skipped Event.isTurn l1 ∧
    LastOwn Event.isTurn l0 (.handed n i)

/-- **What the TEE thread relies on**: when its switch to a trustlet returns, the trustlet has
finished this request, and when it copies a result, no request is unfinished. -/
structure Orderly (l : List Event) : Prop where
  resumes : ∀ l1 n i l2, l = l1 ++ .resumed n i :: l2 → LastFinished l1 n i
  copies : ∀ l1 p q l2, l = l1 ++ .copyBack p q :: l2 → ∀ n i, .handed n i ∈ l1 → .finished n i ∈ l1

/-- What the turn says about the events before it. -/
def Turn.Last (l : List Event) : Turn → Prop
  | .free => True
  | .handed n i => LastOwn Event.isTurn l (.handed n i)
  | .finished n i => LastFinished l n i

/-- The request that is unfinished. -/
def Turn.Open : Turn → Nat → Nat → Prop
  | .handed n i => fun m j => m = n ∧ j = i
  | .free | .finished _ _ => fun _ _ => False

section

variable {l : List Event} {q : Turn} {n i : Nat}

theorem Turns.last (h : Turns l q) : q.Last l := by
  induction h with
  | nil => trivial
  | read _ hstep _ ih =>
    cases hstep with
    | hand _ _ => exact LastOwn.new
    | finish _ _ => exact ⟨_, [], rfl, nofun, ih⟩
    | resume _ _ => trivial
    | copyBack _ _ => trivial
  | @skip l q e he _ ih =>
    cases q with
    | free => trivial
    | handed n i => exact LastOwn.snoc ih he
    | finished n i =>
      obtain ⟨l0, l1, rfl, hl, hhanded⟩ := ih
      exact ⟨l0, l1 ++ [e], by simp, hl.snoc he, hhanded⟩

theorem Turns.finished (h : Turns l q) (hmem : .handed n i ∈ l) : .finished n i ∈ l ∨ q.Open n i := by
  induction h with
  | nil => exact nomatch hmem
  | @read l q q' e _ hstep _ ih =>
    obtain hmem | hmem := List.mem_append.mp hmem
    · obtain hfin | hopen := ih hmem
      · exact Or.inl (List.mem_append_left _ hfin)
      · cases hstep with
        | finish m j =>
          obtain ⟨rfl, rfl⟩ := hopen
          exact Or.inl (List.mem_append_right _ (List.mem_singleton_self _))
        | hand _ _ => exact hopen.elim
        | resume _ _ => exact hopen.elim
        | copyBack _ _ => exact hopen.elim
    · obtain rfl := List.mem_singleton.mp hmem
      cases hstep with
      | hand _ _ => exact Or.inr ⟨rfl, rfl⟩
  | @skip l q e he _ ih =>
    obtain hmem | hmem := List.mem_append.mp hmem
    · exact (ih hmem).imp_left (List.mem_append_left _)
    · obtain rfl := List.mem_singleton.mp hmem
      exact nomatch he

end

/-! ## 2. No request -/

/-- A trustlet before its first turn, or in it, while the system boots. -/
structure Young (s : System) (i : Nat) : Prop where
  pc : s.trustletPc i = .user none
  turn : s.state (.trustlet i) = .ready ∨ s.current = .trustlet i
  boot : ¬ s.entered ∧ s.current ≠ .nonsecure

/-- No request: the trustlets wait for one, or are young. -/
structure Free (s : System) : Prop where
  queue : s.queue = none
  service : s.servicePc.Loops
  tee : s.teePc.Loops
  rpc : ∀ i, s.teeRpc i = false
  trustlets : ∀ i, .trustlet i ∈ s.threads → s.trustletPc i = .secureRequest ∨ Young s i
  known : ∀ i, s.current = .trustlet i → .trustlet i ∈ s.threads
  fresh : ¬ s.entered → ∀ i, s.mainPc ≤ i + 2 →
    .trustlet i ∉ s.threads ∧ s.trustletPc i = .user none

/-- The system is stuck: a young trustlet has asked for a file. -/
inductive Stuck (s : System) : Prop where
  | queued {r : Nat} {serving : Option Nat} (hnull : s.tz.comMem = 0) (hcur : s.current = .service)
      (hqueue : s.queue = some r) (hpc : s.servicePc.Loops)
      (htask : s.trustletPc (s.requests r).returnTask = .fileRequest r serving)
      (hready : (s.requests r).ready = false)
  | back {r i : Nat} {serving : Option Nat} (hnull : s.tz.comMem = 0) (hcur : s.current = .trustlet i)
      (hpc : s.servicePc = .noControl r) (htask : s.trustletPc i = .fileRequest r serving)
      (hready : (s.requests r).ready = false)
  | again {r : Nat} (hcur : s.current = .service) (hpc : s.servicePc = .noControl r)
  | aborted (hcur : s.current = .service) (hpc : s.servicePc = .aborted)

section

variable {apps : Nat} {s s' t : System} {call : Option Smc} {input : Input} {u : Thread}

/-- A part of a step that no trustlet takes. -/
theorem Free.of (hs : Free s) (hqueue : t.queue = none) (hservice : t.servicePc.Loops)
    (htee : t.teePc.Loops)
    (h : (t.teeRpc, t.threads, t.current, t.trustletPc, t.mainPc) =
      (s.teeRpc, s.threads, s.current, s.trustletPc, s.mainPc))
    (hstate : ∀ i, t.state (.trustlet i) = s.state (.trustlet i))
    (hlog : ∃ es, t.log = s.log ++ es ∧
      (s.current ≠ .nonsecure → ∀ e ∈ es, e.isEntry = false)) : Free t := by
  simp only [Prod.mk.injEq] at h
  obtain ⟨hrpc, hthreads, hcur, hpcs, hmain⟩ := h
  obtain ⟨es, hes, hnone⟩ := hlog
  have hent (hn : ¬ t.entered) : ¬ s.entered := by
    rintro ⟨e, hmem, he⟩
    exact hn ⟨e, hes ▸ List.mem_append_left _ hmem, he⟩
  refine ⟨hqueue, hservice, htee, hrpc ▸ hs.rpc, fun i hi => ?_, ?_, fun hn => ?_⟩
  · refine (hs.trustlets i (hthreads ▸ hi)).imp (hpcs ▸ ·) fun hy => ⟨?_, ?_, ?_, ?_⟩
    · rw [hpcs]
      exact hy.pc
    · rw [hstate i, hcur]
      exact hy.turn
    · rintro ⟨e, hmem, he⟩
      rw [hes] at hmem
      obtain hmem | hmem := List.mem_append.mp hmem
      · exact hy.boot.1 ⟨e, hmem, he⟩
      · exact nomatch he.symm.trans (hnone hy.boot.2 e hmem)
    · rw [hcur]
      exact hy.boot.2
  · rw [hcur, hthreads]
    exact hs.known
  · rw [hmain, hthreads, hpcs]
    exact hs.fresh (hent hn)

/-- A switch from a thread that is not a young trustlet. -/
theorem Free.switch (hs : Free s) (hold : ∀ i, s.current = .trustlet i → s.trustletPc i = .secureRequest)
    (hknown : ∀ i, u = .trustlet i → .trustlet i ∈ s.threads)
    (hns : u = .nonsecure → ∀ i, .trustlet i ∈ s.threads → s.trustletPc i = .secureRequest) :
    Free (schedThreadSwitched s u) := by
  have hother (i : Nat) (hne : .trustlet i ≠ u) := schedThreadSwitched_other s u (.trustlet i) hne
  have hlog : (schedThreadSwitched s u).entered ↔ s.entered := by
    unfold System.entered
    rw [schedThreadSwitched_log]
  rw [schedThreadSwitched_eq] at hlog ⊢
  refine ⟨hs.queue, hs.service, hs.tee, hs.rpc, fun i hi => ?_, fun i hi => hknown i hi,
    fun hn => hs.fresh (mt hlog.mpr hn)⟩
  obtain hidle | hy := hs.trustlets i hi
  · exact Or.inl hidle
  by_cases hu : u = .nonsecure
  · exact Or.inl (hns hu i hi)
  refine Or.inr ⟨hy.pc, ?_, mt hlog.mp hy.boot.1, hu⟩
  by_cases hi : Thread.trustlet i = u
  · exact Or.inr hi.symm
  · have hnot : s.current ≠ .trustlet i := fun hc => nomatch (hold i hc).symm.trans hy.pc
    left
    exact (hother i hi).trans ((if_neg fun hc => hnot hc.1.symm).trans (hy.turn.resolve_right hnot))

theorem Free.schedule (hs : Free s) (hboot : BootInv apps s) (hold : ∀ i, s.current ≠ .trustlet i)
    (h : smc s .taskSchedule = some t) : Free t := by
  simp only [smc] at h
  split at h
  · obtain rfl := Option.some.inj h
    exact hs
  · rename_i u hu
    obtain rfl := Option.some.inj h
    refine hs.switch (fun i hi => absurd hi (hold i)) (fun i hi => hi ▸ (scheduled_ready hu).1) ?_
    rintro rfl i hi
    refine (hs.trustlets i hi).resolve_right fun hy => ?_
    exact scheduled_last hboot.order hu hi (by simp) (hy.turn.resolve_right (hold i))

/-- Behind `SSC_NONS_SERVICE`, from a state without young trustlets. -/
theorem Free.leave {ret : UInt32} (hs : Free s) (hold : ∀ i, s.current ≠ .trustlet i) (hent : s.entered)
    (h : smc s (.nonsService ret) = some t) : Free t := by
  simp only [smc] at h
  split at h
  · cases h
  obtain ⟨tz, -, rfl⟩ := Option.map_eq_some_iff.mp h
  have hs' : Free ({ s with tz := tz }.record (.result ret)) :=
    hs.of hs.queue hs.service hs.tee rfl (fun _ => rfl) ⟨[.result ret], rfl, fun _ => by simp [Event.isEntry]⟩
  refine hs'.switch (fun i hi => absurd hi (hold i)) (fun i hi => by cases hi) fun _ i hi => ?_
  exact (hs.trustlets i hi).resolve_right fun hy => hy.boot.1 hent

theorem smc_skipped {c : Smc} (h : smc s c = some t) :
    ∃ es, t.log = s.log ++ es ∧ Skipped Event.isTurn es := by
  cases c with
  | taskSwitch u =>
    obtain rfl := Option.some.inj h
    exact ⟨[], by rw [schedThreadSwitched_log, List.append_nil], by simp [Skipped]⟩
  | taskSchedule =>
    simp only [smc] at h
    split at h
    · obtain rfl := Option.some.inj h
      exact ⟨[], by rw [List.append_nil], by simp [Skipped]⟩
    · obtain rfl := Option.some.inj h
      exact ⟨[], by rw [schedThreadSwitched_log, List.append_nil], by simp [Skipped]⟩
  | nonsService ret =>
    simp only [smc] at h
    split at h
    · cases h
    obtain ⟨tz, -, rfl⟩ := Option.map_eq_some_iff.mp h
    refine ⟨[.result ret], ?_, by simp [Skipped, Event.isTurn]⟩
    rw [schedThreadSwitched_log]
    rfl
  | processTmem p =>
    obtain ⟨⟨r, tz⟩, -, rfl⟩ := Option.map_eq_some_iff.mp h
    simp only
    split
    · exact ⟨[], by rw [List.append_nil], by simp [Skipped]⟩
    · refine ⟨[.requested], ?_, by simp [Skipped, Event.isTurn]⟩
      rw [schedThreadSwitched_log]
      rfl
  | processCmem p =>
    obtain ⟨⟨r, tz⟩, -, h⟩ := Option.bind_eq_some_iff.mp h
    simp only at h
    split at h
    · cases h
    · obtain rfl := Option.some.inj h
      refine ⟨[.answered p.ctrl], ?_, by simp [Skipped, Event.isTurn]⟩
      rw [schedThreadSwitched_log]
      rfl

end

/-! ## 3. A request -/

/-- Trustlet `i` serves request `n`, and no other trustlet has a turn. -/
structure Handed (s : System) (n i : Nat) : Prop where
  entered : s.entered
  number : s.teeRequests = n
  tee : ∃ p, s.teePc = .inTrustlet p i
  rpc : s.teeRpc i = true
  rpcs : ∀ j, j ≠ i → s.teeRpc j = false
  others : ∀ j, .trustlet j ∈ s.threads → j ≠ i → s.trustletPc j = .secureRequest

/-- The request `r` is trustlet `i`'s, and has no answer yet. -/
def System.Unanswered (s : System) (r i : Nat) : Prop :=
  (s.requests r).ready = false ∧ (s.requests r).returnTask = i

/-- Who runs: the trustlet, before it takes the request or while it serves it; for a file request the
service thread, the non-secure world and the service thread again; then the trustlet. -/
inductive Working (s : System) (n i : Nat) : Prop where
  | given (hcur : s.current = .trustlet i) (hpc : s.trustletPc i = .secureRequest)
      (hqueue : s.queue = none) (hservice : s.servicePc.Loops) (hop : s.space.forTrustlet = true)
  | serving (hcur : s.current = .trustlet i) (hpc : s.trustletPc i = .user (some n))
      (hqueue : s.queue = none) (hservice : s.servicePc.Loops)
  | queued {r : Nat} (hcur : s.current = .service) (hpc : s.trustletPc i = .fileRequest r (some n))
      (hqueue : s.queue = some r) (hservice : s.servicePc.Loops) (hr : s.Unanswered r i)
  | out {r : Nat} (hcur : s.current = .nonsecure) (hpc : s.trustletPc i = .fileRequest r (some n))
      (hqueue : s.queue = none) (hservice : s.servicePc = .asked r) (hr : s.Unanswered r i)
  | back {r : Nat} (hcur : s.current = .service) (hpc : s.trustletPc i = .fileRequest r (some n))
      (hqueue : s.queue = none) (hservice : s.servicePc = .asked r) (hr : s.Unanswered r i)
  | answered {r : Nat} (hcur : s.current = .trustlet i)
      (hpc : s.trustletPc i = .fileRequest r (some n)) (hqueue : s.queue = none)
      (hservice : s.servicePc = .answered) (hready : (s.requests r).ready = true)

/-- Trustlet `i` is done with request `n`, and the TEE thread runs. -/
structure Done (s : System) (n i : Nat) : Prop where
  entered : s.entered
  current : s.current = .tee
  number : s.teeRequests = n
  tee : ∃ p, s.teePc = .inTrustlet p i
  rpc : ∀ j, s.teeRpc j = false
  trustlets : ∀ j, .trustlet j ∈ s.threads → s.trustletPc j = .secureRequest
  queue : s.queue = none
  service : s.servicePc.Loops

def Turn.Holds (s : System) : Turn → Prop
  | .free => Free s ∨ Stuck s
  | .handed n i => Handed s n i ∧ Working s n i
  | .finished n i => Done s n i

section

variable {apps n i : Nat} {s s' t : System} {call : Option Smc} {input : Input} {q : Turn}

/-- A part of a step that only the trustlet or the service thread takes. -/
theorem Handed.of (hs : Handed s n i)
    (h : (t.teeRequests, t.teePc, t.teeRpc, t.threads) =
      (s.teeRequests, s.teePc, s.teeRpc, s.threads))
    (hpcs : ∀ j, j ≠ i → t.trustletPc j = s.trustletPc j) (hlog : ∃ es, t.log = s.log ++ es) :
    Handed t n i := by
  simp only [Prod.mk.injEq] at h
  obtain ⟨hnumber, htee, hrpc, hthreads⟩ := h
  obtain ⟨es, hes⟩ := hlog
  refine ⟨?_, hnumber.trans hs.number, htee ▸ hs.tee, hrpc ▸ hs.rpc, hrpc ▸ hs.rpcs, fun j hj hne => ?_⟩
  · obtain ⟨e, hmem, he⟩ := hs.entered
    exact ⟨e, hes ▸ List.mem_append_left _ hmem, he⟩
  · exact (hpcs j hne).trans (hs.others j (hthreads ▸ hj) hne)

theorem Turns.smc {c : Smc} (h : Turns s.log q) (hsmc : smc s c = some t) : Turns t.log q := by
  obtain ⟨es, hl, hn⟩ := smc_skipped hsmc
  rw [hl]
  exact History.append h hn

/-! ## 4. Steps without a request -/

theorem Free.add (hs : Free s) (hcur : s.current = .main) (hent : ¬ s.entered) (u : Thread)
    (hu : ∀ i, u = .trustlet i → s.mainPc = i + 2) :
    Free (schedAddThread { s with mainPc := s.mainPc + 1 } u) where
  queue := hs.queue
  service := hs.service
  tee := hs.tee
  rpc := hs.rpc
  trustlets := fun i hi => by
    have hboot : ¬ s.entered ∧ s.current ≠ .nonsecure := ⟨hent, by rw [hcur]; exact nofun⟩
    by_cases hiu : Thread.trustlet i = u
    · subst hiu
      exact Or.inr ⟨(hs.fresh hent i (hu i rfl).le).2, Or.inl (setState_self ..), hboot⟩
    · have hmem : .trustlet i ∈ s.threads :=
        (List.mem_append.mp hi).resolve_right fun hc => hiu (List.mem_singleton.mp hc)
      refine (hs.trustlets i hmem).imp_right fun hy => ⟨hy.pc, ?_, hboot⟩
      exact hy.turn.imp_left (setState_other _ _ _ _ hiu).trans
  known := fun i hi => nomatch hcur.symm.trans hi
  fresh := fun _ i hi => by
    obtain ⟨hnot, hpc⟩ := hs.fresh hent i (Nat.le_of_succ_le hi)
    refine ⟨fun hmem => ?_, hpc⟩
    have hiu := List.mem_singleton.mp ((List.mem_append.mp hmem).resolve_left hnot)
    exact absurd (hu i hiu.symm) (Nat.ne_of_lt hi)

/-- A trustlet that waits for a request blocks its thread. -/
theorem Free.block (hs : Free s) (hpc : s.trustletPc i = .secureRequest) :
    Free (s.setState (.trustlet i) .blocked) := by
  refine ⟨hs.queue, hs.service, hs.tee, hs.rpc, fun j hj => ?_, hs.known, hs.fresh⟩
  by_cases hji : j = i
  · subst hji
    exact Or.inl hpc
  · have hne : Thread.trustlet j ≠ .trustlet i := fun hc => hji (Thread.trustlet.inj hc)
    exact (hs.trustlets j hj).imp_right fun hy =>
      ⟨hy.pc, hy.turn.imp_left (setState_other _ _ _ _ hne).trans, hy.boot⟩

/-- While a trustlet serves a request, the service thread finds a shared page. -/
theorem Handed.page (hw : WorldInv apps s) (hs : Handed s n i) (hcur : s.current ≠ .nonsecure) :
    s.tz.comMem ≠ 0 :=
  (hw.inside hs.entered hcur).mapped.2.2.ne_zero

end

end AndixOs.Monitor
