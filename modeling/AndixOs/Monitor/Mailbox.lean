/-
# The mailbox of the service thread

`service_do_request` puts a request into the queue and switches to the service thread until the
request is ready; `service_entry` copies the control space of a request to the shared page, leaves
to the non-secure world, and copies the page back when it is switched to again, by whomever.

So the exchange is right while each switch of a trustlet to the service thread finds a shared page,
and no other request at the non-secure world, and `queue_put` gets its memory (`fileRequestOk`):
then every request goes to the non-secure world once, with the control space that it was made with, and
what is copied back is the answer to it (`mailbox_run`).
`SMC_PROCESS_TMEM` lets a second trustlet run while a request is out, and its switch is taken for
the answer; before the non-secure world has run there is no page, and the service thread copies to
`NULL` (`mailbox_fails`).
-/
import AndixOs.Lib.History
import AndixOs.Monitor.Nonsecure
import AndixOs.Monitor.Steps

namespace AndixOs.Monitor

open Service (TzCtlrSpace)

/-! ## 1. One request at a time -/

/-- The events of the exchange. -/
def Event.isMail : Event → Bool
  | .made _ _ | .sent _ _ | .answered _ | .copied _ _ | .returned _ _ | .nullCopy => true
  | _ => false

/-- How far the exchange is: `idle n` behind the first `n` requests, `made r c` with request `r` and its
control space `c` in the queue, `out r` with the request at the non-secure world, `back r c` with its
answer `c` on the shared page, `copied r c` with the answer in the buffer of the request. -/
inductive Phase where
  | idle (n : Nat)
  | made (r : Nat) (c : TzCtlrSpace)
  | out (r : Nat)
  | back (r : Nat) (c : TzCtlrSpace)
  | copied (r : Nat) (c : TzCtlrSpace)

/-- What a mailbox that carries one request at a time does. -/
inductive MailStep : Phase → Event → Phase → Prop where
  | make (n : Nat) (c : TzCtlrSpace) : MailStep (.idle n) (.made n c) (.made n c)
  | send (n : Nat) (c : TzCtlrSpace) : MailStep (.made n c) (.sent n c) (.out n)
  | unasked (n : Nat) (c : TzCtlrSpace) : MailStep (.idle n) (.answered c) (.idle n)
  | answer (r : Nat) (c : TzCtlrSpace) : MailStep (.out r) (.answered c) (.back r c)
  | copy (r : Nat) (c : TzCtlrSpace) : MailStep (.back r c) (.copied r c) (.copied r c)
  | return (r : Nat) (c : TzCtlrSpace) : MailStep (.copied r c) (.returned r c) (.idle (r + 1))

/-- The exchange so far. -/
def Exchange : List Event → Phase → Prop := History Event.isMail MailStep (.idle 0)

/-- The number of requests that were made. -/
def Phase.requests : Phase → Nat
  | .idle n => n
  | .made r _ | .out r | .back r _ | .copied r _ => r + 1

/-- The request that was made and is not sent yet. -/
def Phase.unsent : Phase → List (Nat × TzCtlrSpace)
  | .made r c => [(r, c)]
  | .idle _ | .out _ | .back _ _ | .copied _ _ => []

def Event.madeRequest : Event → Option (Nat × TzCtlrSpace)
  | .made r c => some (r, c)
  | _ => none

def Event.sentRequest : Event → Option (Nat × TzCtlrSpace)
  | .sent r c => some (r, c)
  | _ => none

/-- The requests that were made, with the control spaces they were made with. -/
def madeRequests (l : List Event) : List (Nat × TzCtlrSpace) := l.filterMap Event.madeRequest

/-- The requests that went to the non-secure world, with what lay on the shared page. -/
def sentRequests (l : List Event) : List (Nat × TzCtlrSpace) := l.filterMap Event.sentRequest

/-- The last event of the exchange. -/
def LastMail : List Event → Event → Prop := LastOwn Event.isMail

/-- The last two are the sending of `r` and the answer `c`. -/
def LastAnswer (l : List Event) (r : Nat) (c : TzCtlrSpace) : Prop :=
  ∃ l0 l1 c0, l = l0 ++ .answered c :: l1 ∧ Skipped Event.isMail l1 ∧ LastMail l0 (.sent r c0)

section

variable {l : List Event} {p : Phase} {e : Event} {r : Nat} {c : TzCtlrSpace}

theorem LastAnswer.snoc (h : LastAnswer l r c) (he : e.isMail = false) :
    LastAnswer (l ++ [e]) r c := by
  obtain ⟨l0, l1, c0, rfl, hl, hsent⟩ := h
  exact ⟨l0, l1 ++ [e], c0, by simp, hl.snoc he, hsent⟩

/-- What the phase says about the events before it. -/
def Phase.Last (l : List Event) : Phase → Prop
  | .idle _ | .made _ _ => True
  | .out r => ∃ c, LastMail l (.sent r c)
  | .back r c => LastAnswer l r c
  | .copied r c => LastMail l (.copied r c)

theorem Exchange.last (h : Exchange l p) : p.Last l := by
  induction h with
  | nil => trivial
  | read _ hstep _ ih =>
    cases hstep with
    | make _ _ => trivial
    | send _ c => exact ⟨c, LastOwn.new⟩
    | unasked _ _ => trivial
    | answer _ _ =>
      obtain ⟨c0, hsent⟩ := ih
      exact ⟨_, [], c0, rfl, nofun, hsent⟩
    | copy _ _ => exact LastOwn.new
    | «return» _ _ => trivial
  | @skip l p e he _ ih =>
    cases p with
    | idle _ => trivial
    | made _ _ => trivial
    | out _ =>
      obtain ⟨c0, hsent⟩ := ih
      exact ⟨c0, LastOwn.snoc hsent he⟩
    | back _ _ => exact LastAnswer.snoc ih he
    | copied _ _ => exact LastOwn.snoc ih he

@[simp] theorem madeRequests_snoc :
    madeRequests (l ++ [e]) = madeRequests l ++ e.madeRequest.toList := by
  cases h : e.madeRequest <;> simp [madeRequests, h]

@[simp] theorem sentRequests_snoc :
    sentRequests (l ++ [e]) = sentRequests l ++ e.sentRequest.toList := by
  cases h : e.sentRequest <;> simp [sentRequests, h]

theorem madeRequest_of_skipped (he : e.isMail = false) : e.madeRequest = none := by
  cases e with
  | made r c => exact nomatch he
  | _ => rfl

theorem sentRequest_of_skipped (he : e.isMail = false) : e.sentRequest = none := by
  cases e with
  | sent r c => exact nomatch he
  | _ => rfl

/-- The requests are numbered in their order. -/
theorem Exchange.numbered (h : Exchange l p) : (madeRequests l).map Prod.fst = List.range p.requests := by
  induction h with
  | nil => rfl
  | read _ hstep _ ih =>
    rw [madeRequests_snoc, List.map_append, ih]
    cases hstep with
    | make n c => exact (List.range_succ).symm
    | send _ _ => exact List.append_nil _
    | unasked _ _ => exact List.append_nil _
    | answer _ _ => exact List.append_nil _
    | copy _ _ => exact List.append_nil _
    | «return» _ _ => exact List.append_nil _
  | skip he _ ih =>
    rw [madeRequests_snoc, madeRequest_of_skipped he, Option.toList_none, List.append_nil, ih]

/-- Each request goes to the non-secure world as it was made, in its turn, and the last one may wait. -/
theorem Exchange.sent_as_made (h : Exchange l p) : madeRequests l = sentRequests l ++ p.unsent := by
  induction h with
  | nil => rfl
  | read _ hstep _ ih =>
    rw [madeRequests_snoc, sentRequests_snoc, ih]
    cases hstep with
    | make n c => simp [Phase.unsent, Event.madeRequest, Event.sentRequest]
    | send n c => simp [Phase.unsent, Event.madeRequest, Event.sentRequest]
    | unasked _ _ => simp [Phase.unsent, Event.madeRequest, Event.sentRequest]
    | answer _ _ => simp [Phase.unsent, Event.madeRequest, Event.sentRequest]
    | copy _ _ => simp [Phase.unsent, Event.madeRequest, Event.sentRequest]
    | «return» _ _ => simp [Phase.unsent, Event.madeRequest, Event.sentRequest]
  | skip he _ ih =>
    rw [madeRequests_snoc, sentRequests_snoc, madeRequest_of_skipped he, sentRequest_of_skipped he,
      Option.toList_none, List.append_nil, List.append_nil, ih]

/-- **What a requester can rely on**: each request goes out once, in its order and with its own control
space, what is copied to it is the answer that came after it was sent, it returns after that, and nothing
is copied to or from `NULL`. -/
structure Delivered (l : List Event) : Prop where
  numbered : ∃ n, (madeRequests l).map Prod.fst = List.range n
  once : sentRequests l <+: madeRequests l
  answers : ∀ l1 r c l2, l = l1 ++ .copied r c :: l2 → LastAnswer l1 r c
  returns : ∀ l1 r c l2, l = l1 ++ .returned r c :: l2 → LastMail l1 (.copied r c)
  noNull : .nullCopy ∉ l

theorem Exchange.delivered (h : Exchange l p) : Delivered l where
  numbered := ⟨_, h.numbered⟩
  once := ⟨_, h.sent_as_made.symm⟩
  answers := fun l1 r c l2 heq => by
    obtain ⟨_, _, hbefore, hstep⟩ := History.split h rfl heq
    cases hstep with
    | copy _ _ => exact Exchange.last hbefore
  returns := fun l1 r c l2 heq => by
    obtain ⟨_, _, hbefore, hstep⟩ := History.split h rfl heq
    cases hstep with
    | «return» _ _ => exact Exchange.last hbefore
  noNull := History.never h rfl nofun

end

/-! ## 2. The state behind a phase -/

/-- The request whose loop the trustlet is in. -/
def TrustletPc.waits : TrustletPc → Option Nat
  | .fileRequest r _ => some r
  | .user _ | .secureRequest => none

/-- No trustlet waits for an answer. -/
def System.NoneWaits (s : System) : Prop := ∀ i, (s.trustletPc i).waits = none

/-- One does, for the request `r`. -/
def System.OneWaits (s : System) (r : Nat) : Prop :=
  ∀ i, (s.trustletPc i).waits = if i = (s.requests r).returnTask then some r else none

/-- `n` requests were made, and are done. -/
structure Rests (s : System) (n : Nat) : Prop where
  made : s.made = n
  queue : s.queue = none
  pc : s.servicePc.Loops
  waits : s.NoneWaits

/-- A further one is in the queue, with the control space `c`, and the service thread runs. -/
structure Queued (s : System) (n : Nat) (c : TzCtlrSpace) : Prop where
  made : s.made = n + 1
  queue : s.queue = some n
  pc : s.servicePc.Loops
  waits : s.OneWaits n
  request : (s.requests n).ready = false ∧ (s.requests n).ctrlSpace = c
  current : s.current = .service
  page : s.tz.comMem ≠ 0

/-- The request `r` is out. -/
structure Asked (s : System) (r : Nat) : Prop where
  made : s.made = r + 1
  queue : s.queue = none
  pc : s.servicePc = .asked r
  waits : s.OneWaits r
  ready : (s.requests r).ready = false
  entered : s.entered

/-- Its answer is in its buffer, and the requester runs. -/
structure Answered (s : System) (r : Nat) (c : TzCtlrSpace) : Prop where
  made : s.made = r + 1
  queue : s.queue = none
  pc : s.servicePc = .answered
  waits : s.OneWaits r
  request : (s.requests r).ready = true ∧ (s.requests r).ctrlSpace = c
  current : s.current = .trustlet (s.requests r).returnTask

def Phase.Holds (s : System) : Phase → Prop
  | .idle n => Rests s n
  | .made r c => Queued s r c
  | .out r => Asked s r ∧ s.current ≠ .service
  | .back r c => Asked s r ∧ s.current = .service ∧ s.ctrlShared = c ∧ s.tz.comMem ≠ 0
  | .copied r c => Answered s r c

/-- The exchange is right up to here. -/
def MailInv (s : System) : Prop := ∃ p, Exchange s.log p ∧ p.Holds s

/-- A part of a step that has no part in the exchange. -/
structure Quiet (s t : System) : Prop where
  made : t.made = s.made
  queue : t.queue = s.queue
  pc : t.servicePc = s.servicePc
  requests : t.requests = s.requests
  waits : ∀ i, (t.trustletPc i).waits = (s.trustletPc i).waits
  log : ∃ es, t.log = s.log ++ es ∧ Skipped Event.isMail es

section

variable {s s' t : System} {p : Phase} {n r : Nat} {e : Event} {x : ThreadState} {u : Thread}

theorem Quiet.same (h : (t.made, t.queue, t.servicePc, t.requests, t.trustletPc, t.log) =
    (s.made, s.queue, s.servicePc, s.requests, s.trustletPc, s.log)) : Quiet s t := by
  simp only [Prod.mk.injEq] at h
  obtain ⟨h1, h2, h3, h4, h5, h6⟩ := h
  exact ⟨h1, h2, h3, h4, fun i => by rw [h5], [], by rw [h6, List.append_nil], nofun⟩

theorem Quiet.trans (h1 : Quiet s s') (h2 : Quiet s' t) : Quiet s t := by
  obtain ⟨es1, hl1, hn1⟩ := h1.log
  obtain ⟨es2, hl2, hn2⟩ := h2.log
  refine ⟨h2.made.trans h1.made, h2.queue.trans h1.queue, h2.pc.trans h1.pc,
    h2.requests.trans h1.requests, fun i => (h2.waits i).trans (h1.waits i), es1 ++ es2, ?_, ?_⟩
  · rw [hl2, hl1, List.append_assoc]
  · exact List.forall_mem_append.mpr ⟨hn1, hn2⟩

theorem Quiet.record (h : Quiet s t) (he : e.isMail = false) : Quiet s (t.record e) := by
  obtain ⟨es, hl, hn⟩ := h.log
  exact ⟨h.made, h.queue, h.pc, h.requests, h.waits, es ++ [e], by simp [hl], hn.snoc he⟩

theorem Quiet.setState (h : Quiet s t) : Quiet s (t.setState u x) :=
  ⟨h.made, h.queue, h.pc, h.requests, h.waits, h.log⟩

theorem Quiet.switch (s : System) (u : Thread) : Quiet s (schedThreadSwitched s u) := by
  rw [schedThreadSwitched_eq]
  exact Quiet.same rfl

theorem waits_self {f : Nat → TrustletPc} {i : Nat} {pc : TrustletPc} :
    (Function.update f i pc i).waits = pc.waits := by
  rw [Function.update_self]

theorem waits_other {f : Nat → TrustletPc} {i j : Nat} {pc : TrustletPc} (h : j ≠ i) :
    (Function.update f i pc j).waits = (f j).waits := by
  rw [Function.update_of_ne h]

/-- A trustlet goes to or from user mode. -/
theorem Quiet.setPc {i : Nat} {pc : TrustletPc} (h : Quiet s t)
    (hpc : (t.trustletPc i).waits = none) (hnew : pc.waits = none) :
    Quiet s { t with trustletPc := Function.update t.trustletPc i pc } := by
  refine ⟨h.made, h.queue, h.pc, h.requests, fun j => ?_, h.log⟩
  refine Eq.trans ?_ (h.waits j)
  by_cases hj : j = i
  · subst hj
    rw [hpc, ← hnew]
    exact waits_self
  · exact waits_other hj

theorem Quiet.exchange (h : Quiet s t) (hp : Exchange s.log p) : Exchange t.log p := by
  obtain ⟨es, hl, hn⟩ := h.log
  rw [hl]
  exact History.append hp hn

theorem Quiet.entered (h : Quiet s t) (hs : s.entered) : t.entered := by
  obtain ⟨es, hl, -⟩ := h.log
  obtain ⟨e, hmem, he⟩ := hs
  exact ⟨e, hl ▸ List.mem_append_left _ hmem, he⟩

theorem Rests.quiet (hs : Rests s n) (h : Quiet s t) : Rests t n :=
  ⟨h.made.trans hs.made, h.queue.trans hs.queue, h.pc ▸ hs.pc, fun i => (h.waits i).trans (hs.waits i)⟩

theorem Asked.quiet (hs : Asked s r) (h : Quiet s t) : Asked t r where
  made := h.made.trans hs.made
  queue := h.queue.trans hs.queue
  pc := h.pc.trans hs.pc
  waits := fun i => by
    rw [h.waits i, h.requests]
    exact hs.waits i
  ready := h.requests ▸ hs.ready
  entered := h.entered hs.entered

/-- A call of the monitor by a secure thread. -/
theorem smc_quiet {c : Smc} (hcall : ∀ p, c ≠ .processTmem p ∧ c ≠ .processCmem p)
    (h : smc s c = some t) : Quiet s t := by
  cases c with
  | taskSwitch u =>
    obtain rfl := Option.some.inj h
    exact Quiet.switch s u
  | taskSchedule =>
    simp only [smc] at h
    split at h
    · obtain rfl := Option.some.inj h
      exact Quiet.same rfl
    · obtain rfl := Option.some.inj h
      exact Quiet.switch ..
  | nonsService r =>
    simp only [smc] at h
    split at h
    · cases h
    obtain ⟨tz, -, rfl⟩ := Option.map_eq_some_iff.mp h
    refine Quiet.trans ?_ (Quiet.switch ..)
    exact Quiet.record (Quiet.same rfl) rfl
  | processTmem p => exact absurd rfl (hcall p).1
  | processCmem p => exact absurd rfl (hcall p).2

end

/-! ## 3. Steps -/

/-- The service thread waits for an answer. -/
def ServicePc.waits : ServicePc → Bool
  | .asked _ => true
  | _ => false

/-- The switches of a trustlet to the service thread: there is a shared page, no other request is
at the non-secure world, and the queue gets its memory. -/
def fileRequestOk (s : System) (input : Input) : Bool :=
  match s.current with
  | .trustlet i =>
    match s.trustletPc i, input with
    | .user _, .fileRequest _ alloc => s.tz.comMem != 0 && !s.servicePc.waits && alloc
    | .fileRequest r _, _ => (s.requests r).ready || !s.servicePc.waits
    | _, _ => true
  | _ => true

section

variable {apps : Nat} {s s' t : System} {call : Option Smc} {input : Input} {n r i : Nat}

/-- What a thread other than the service thread finds, when it is not the requester's turn. -/
theorem MailInv.cases (hs : MailInv s) (hservice : s.current ≠ .service)
    (hturn : ∀ i, s.current = .trustlet i → (s.trustletPc i).waits = none) :
    ∃ p, Exchange s.log p ∧ ((∃ n, p = .idle n ∧ Rests s n) ∨ ∃ r, p = .out r ∧ Asked s r) := by
  obtain ⟨p, hp, hholds⟩ := hs
  refine ⟨p, hp, ?_⟩
  match p, hholds with
  | .idle n, h => exact Or.inl ⟨n, rfl, h⟩
  | .made r c, h => exact absurd h.current hservice
  | .out r, h => exact Or.inr ⟨r, rfl, h.1⟩
  | .back r c, h => exact absurd h.2.1 hservice
  | .copied r c, h =>
    have hwaits := h.waits (s.requests r).returnTask
    rw [hturn _ h.current, if_pos rfl] at hwaits
    exact nomatch hwaits

/-- A step without a part in the exchange, of another thread than the service thread. -/
theorem MailInv.rest (hs : MailInv s) (hservice : s.current ≠ .service)
    (hturn : ∀ i, s.current = .trustlet i → (s.trustletPc i).waits = none) (h : Quiet s t)
    (hnext : s.entered → t.current ≠ .service) : MailInv t := by
  obtain ⟨p, hp, ⟨n, rfl, hr⟩ | ⟨r, rfl, ha⟩⟩ := hs.cases hservice hturn
  · exact ⟨_, h.exchange hp, hr.quiet h⟩
  · exact ⟨_, h.exchange hp, ha.quiet h, hnext ha.entered⟩

/-- What the service thread finds when it runs. -/
theorem MailInv.service (hs : MailInv s) (hcur : s.current = .service) :
    (∃ n, Exchange s.log (.idle n) ∧ Rests s n) ∨ (∃ n c, Exchange s.log (.made n c) ∧ Queued s n c) ∨
      ∃ r, Exchange s.log (.back r s.ctrlShared) ∧ Asked s r ∧ s.tz.comMem ≠ 0 := by
  obtain ⟨p, hp, hholds⟩ := hs
  match p, hholds with
  | .idle n, h => exact Or.inl ⟨n, hp, h⟩
  | .made n c, h => exact Or.inr (Or.inl ⟨n, c, hp, h⟩)
  | .out r, h => exact absurd hcur h.2
  | .back r c, ⟨h, _, hc, hpage⟩ => exact Or.inr (Or.inr ⟨r, hc ▸ hp, h, hpage⟩)
  | .copied r c, h => exact nomatch hcur.symm.trans h.current

/-- With nothing to do, the service thread blocks and asks the scheduler. -/
theorem mail_idle (hp : Exchange s.log (.idle n)) (h : Rests s n) (hstep : ServiceStep s s' call)
    (hsmc : call.elim (some s') (smc s') = some t) : MailInv t := by
  have hidle : s' = { s with servicePc := .idle }.setState .service .blocked ∧
      call = some .taskSchedule := by
    cases hstep with
    | idle _ _ => exact ⟨rfl, rfl⟩
    | noControl _ hqueue _ => cases hqueue.symm.trans h.queue
    | send _ hqueue _ _ => cases hqueue.symm.trans h.queue
    | nullCopy hpc =>
      obtain ⟨r, hr⟩ | ⟨⟨r, hr⟩, -⟩ := hpc
      · exact absurd hr h.pc.ne.2
      · exact absurd hr h.pc.ne.1
    | copy hpc _ => exact absurd hpc h.pc.ne.1
  obtain ⟨rfl, rfl⟩ := hidle
  have hrest : Rests ({ s with servicePc := .idle }.setState .service .blocked) n :=
    ⟨h.made, h.queue, trivial, h.waits⟩
  have hquiet := smc_quiet (c := .taskSchedule) (fun p => by simp) hsmc
  exact ⟨_, hquiet.exchange hp, hrest.quiet hquiet⟩

/-- The request of the queue is sent. -/
theorem mail_send {c : TzCtlrSpace} (hw : WorldInv apps s) (hp : Exchange s.log (.made n c))
    (h : Queued s n c) (hstep : ServiceStep s s' call)
    (hsmc : call.elim (some s') (smc s') = some t) : MailInv t := by
  have hsend : s' = s.send n ∧ call = some (.nonsService ctrlStruct) := by
    cases hstep with
    | idle _ hqueue => cases hqueue.symm.trans h.queue
    | noControl _ _ hnull => exact absurd hnull h.page
    | send _ hqueue _ _ =>
      obtain rfl := Option.some.inj (hqueue.symm.trans h.queue)
      exact ⟨rfl, rfl⟩
    | nullCopy hpc =>
      obtain ⟨r, hr⟩ | ⟨⟨r, hr⟩, -⟩ := hpc
      · exact absurd hr h.pc.ne.2
      · exact absurd hr h.pc.ne.1
    | copy hpc _ => exact absurd hpc h.pc.ne.1
  obtain ⟨rfl, rfl⟩ := hsend
  -- there is a page only after the hand-over
  have hentered : s.entered := by
    obtain hb | hout | hin := hw.world
    · exact absurd hb.unmapped.2.2 h.page
    · exact absurd hout.unmapped.2.2 h.page
    · exact hin.entered
  have hasked : Asked (s.send n) n :=
    ⟨h.made, rfl, rfl, h.waits, h.request.1, (entered_record rfl).mpr hentered⟩
  have hquiet := smc_quiet (c := .nonsService ctrlStruct) (fun p => by simp) hsmc
  have hsent : Exchange (s.send n).log (.out n) := by
    refine .read rfl ?_ hp
    rw [h.request.2]
    exact .send n c
  refine ⟨_, hquiet.exchange hsent, hasked.quiet hquiet, ?_⟩
  simp only [Option.elim_some, smc] at hsmc
  split at hsmc
  · cases hsmc
  obtain ⟨tz, -, rfl⟩ := Option.map_eq_some_iff.mp hsmc
  simp

/-- The answer is copied, and the requester runs. -/
theorem mail_copy (hp : Exchange s.log (.back r s.ctrlShared)) (h : Asked s r) (hpage : s.tz.comMem ≠ 0)
    (hstep : ServiceStep s s' call) (hsmc : call.elim (some s') (smc s') = some t) : MailInv t := by
  have hcopy : s' = s.copy r ∧ call = some (.taskSwitch (.trustlet (s.requests r).returnTask)) := by
    cases hstep with
    | idle hpc _ => exact absurd h.pc hpc.ne.1
    | noControl hpc _ _ => exact absurd h.pc hpc.ne.1
    | send hpc _ _ _ => exact absurd h.pc hpc.ne.1
    | nullCopy hpc =>
      obtain ⟨r', hr⟩ | ⟨-, hnull⟩ := hpc
      · cases hr.symm.trans h.pc
      · exact absurd hnull hpage
    | copy hpc _ =>
      obtain rfl := ServicePc.asked.inj (hpc.symm.trans h.pc)
      exact ⟨rfl, rfl⟩
  obtain ⟨rfl, rfl⟩ := hcopy
  obtain rfl := Option.some.inj hsmc
  have hquiet := Quiet.switch (s.copy r) (.trustlet (s.requests r).returnTask)
  have hself : (s.copy r).requests r =
      { s.requests r with ctrlSpace := s.ctrlShared, ready := true } := Function.update_self ..
  refine ⟨_, hquiet.exchange (.read rfl (.copy r _) hp), hquiet.made.trans h.made,
    hquiet.queue.trans h.queue, hquiet.pc, fun i => ?_, ?_, ?_⟩
  · rw [hquiet.waits, hquiet.requests, hself]
    exact h.waits i
  · rw [hquiet.requests, hself]
    exact ⟨rfl, rfl⟩
  · rw [hquiet.requests, hself]
    exact schedThreadSwitched_current ..

/-- A step of the service thread. -/
theorem mail_service (hw : WorldInv apps s) (hs : MailInv s) (hcur : s.current = .service)
    (hstep : ServiceStep s s' call) (hsmc : call.elim (some s') (smc s') = some t) : MailInv t := by
  obtain ⟨n, hp, h⟩ | ⟨n, c, hp, h⟩ | ⟨r, hp, h, hpage⟩ := hs.service hcur
  · exact mail_idle hp h hstep hsmc
  · exact mail_send hw hp h hstep hsmc
  · exact mail_copy hp h hpage hstep hsmc

/-- Only the requester waits. -/
theorem System.OneWaits.eq (h : s.OneWaits r) {r' : Nat} (hw : (s.trustletPc i).waits = some r') :
    r' = r ∧ i = (s.requests r).returnTask := by
  have hi := h i
  rw [hw] at hi
  split at hi
  · rename_i htask
    exact ⟨Option.some.inj hi, htask⟩
  · exact nomatch hi

/-- What a trustlet in the loop of `service_do_request` finds. -/
theorem MailInv.waiting (hs : MailInv s) (hcur : s.current = .trustlet i)
    (hw : (s.trustletPc i).waits = some r) :
    Asked s r ∨ ∃ c, Exchange s.log (.copied r c) ∧ Answered s r c := by
  have hservice : s.current ≠ .service := by simp [hcur]
  obtain ⟨p, hp, hholds⟩ := hs
  match p, hholds with
  | .idle n, h => exact nomatch hw.symm.trans (h.waits i)
  | .made n c, h => exact absurd h.current hservice
  | .out r', h =>
    obtain rfl := (h.1.waits.eq hw).1
    exact Or.inl h.1
  | .back r c, h => exact absurd h.2.1 hservice
  | .copied r' c, h =>
    obtain rfl := (h.waits.eq hw).1
    exact Or.inr ⟨c, hp, h⟩

theorem Quiet.applyMm {k : Mm.Kernel} {space : TeeSpace} :
    Quiet s { s with tz := { s.tz with k := k }, space := space } :=
  Quiet.same rfl

theorem processAnswer_quiet {serving : Option Nat} {ret : UInt32} {mm : MmEffect}
    (h : processAnswer s i serving ret mm = some s') : Quiet s s' ∧ s'.trustletPc = s.trustletPc := by
  obtain ⟨-, rfl⟩ | ⟨-, k, space, -, rfl⟩ := processAnswer_cases h
  · exact ⟨Quiet.same rfl, rfl⟩
  · cases serving with
    | none => exact ⟨Quiet.applyMm, rfl⟩
    | some n => exact ⟨Quiet.record Quiet.applyMm rfl, rfl⟩

/-- A trustlet's request, while none is out. -/
theorem mail_request {serving : Option Nat} {ctrl : TzCtlrSpace} (hp : Exchange s.log (.idle n))
    (hs : Rests s n) (hpage : s.tz.comMem ≠ 0) :
    MailInv (schedThreadSwitched (s.request i serving ctrl true) .service) := by
  have hquiet := Quiet.switch (s.request i serving ctrl true) .service
  have hnew : (s.request i serving ctrl true).requests n = ⟨ctrl, false, i⟩ := by
    rw [← hs.made]
    exact Function.update_self ..
  have hmade : Exchange (s.request i serving ctrl true).log (.made n ctrl) := by
    refine .read rfl ?_ hp
    rw [hs.made]
    exact .make n ctrl
  refine ⟨_, hquiet.exchange hmade, ?_, ?_, ?_, fun j => ?_, ?_, rfl, ?_⟩
  · exact hquiet.made.trans (congrArg (· + 1) hs.made)
  · exact hquiet.queue.trans (congrArg some hs.made)
  · exact hquiet.pc ▸ hs.pc
  · rw [hquiet.waits, hquiet.requests, hnew, ← hs.made]
    by_cases hj : j = i
    · subst hj
      rw [if_pos rfl]
      exact waits_self
    · rw [if_neg hj]
      exact (waits_other hj).trans (hs.waits j)
  · rw [hquiet.requests, hnew]
    exact ⟨rfl, rfl⟩
  · rw [schedThreadSwitched_tz]
    exact hpage

/-- A step of a trustlet. -/
theorem mail_trustlet (hs : MailInv s) (hcur : s.current = .trustlet i)
    (hok : fileRequestOk s input = true) (hstep : TrustletStep s i input s' call)
    (hsmc : call.elim (some s') (smc s') = some t) : MailInv t := by
  have hservice : s.current ≠ .service := by simp [hcur]
  -- the requester has its turn only in the loop
  have hturn (hw : (s.trustletPc i).waits = none) (j : Nat) (hj : s.current = .trustlet j) :
      (s.trustletPc j).waits = none := by
    obtain rfl := Thread.trustlet.inj (hcur.symm.trans hj)
    exact hw
  unfold fileRequestOk at hok
  rw [hcur] at hok
  cases hstep with
  | fileRequest hpc =>
    simp only [hpc, Bool.and_eq_true, bne_iff_ne] at hok
    obtain ⟨⟨hpage, hasked⟩, rfl⟩ := hok
    obtain rfl := Option.some.inj hsmc
    obtain ⟨p, hp, ⟨n, rfl, h⟩ | ⟨r, rfl, h⟩⟩ := hs.cases hservice (hturn (by rw [hpc]; rfl))
    · exact mail_request hp h hpage
    · rw [h.pc] at hasked
      exact nomatch hasked
  | @secureRequest _ _ _ s1 hpc h1 =>
    obtain ⟨hquiet, heq⟩ := processAnswer_quiet h1
    have hw : (s.trustletPc i).waits = none := by rw [hpc]; rfl
    have hquiet' : Quiet s { s1 with teeRpc := Function.update s1.teeRpc i false,
                                     trustletPc := Function.update s1.trustletPc i .secureRequest } :=
      (hquiet.setPc (heq ▸ hw) rfl).trans (Quiet.same rfl)
    obtain rfl := Option.some.inj hsmc
    exact hs.rest hservice (hturn hw) (hquiet'.setState.trans (Quiet.switch ..)) fun _ => nofun
  | again hpc hready =>
    obtain h | ⟨c, -, h⟩ := hs.waiting hcur (congrArg TrustletPc.waits hpc)
    · simp only [hpc, hready, h.pc] at hok
      exact nomatch hok
    · exact nomatch h.request.1.symm.trans hready
  | @returned r serving _ hpc hready =>
    have hw : (s.trustletPc i).waits = some r := congrArg TrustletPc.waits hpc
    obtain h | ⟨c, hp, h⟩ := hs.waiting hcur hw
    · exact nomatch h.ready.symm.trans hready
    · obtain rfl := Option.some.inj hsmc
      obtain ⟨-, rfl⟩ := h.request
      refine ⟨_, .read rfl (.return r _) hp, h.made, h.queue, ?_, fun j => ?_⟩
      · exact h.pc ▸ trivial
      · by_cases hj : j = i
        · subst hj
          exact waits_self
        · refine (waits_other hj).trans ?_
          rw [h.waits j, if_neg fun hc => hj (hc.trans (h.waits.eq hw).2.symm)]
  | noRequest hpc _ =>
    obtain rfl := Option.some.inj hsmc
    exact hs.rest hservice (hturn (by rw [hpc]; rfl))
      ((Quiet.setState (Quiet.same rfl)).trans (Quiet.switch ..)) fun _ => nofun
  | receive hpc _ h =>
    have hw : (s.trustletPc i).waits = none := by rw [hpc]; rfl
    obtain ⟨k, -, ⟨space, rfl, rfl, -⟩ | ⟨rfl, rfl, -, -⟩⟩ := receiveRequest_cases h
    · obtain rfl := Option.some.inj hsmc
      exact hs.rest hservice (hturn hw) (Quiet.applyMm.setState.trans (Quiet.switch ..))
        fun _ => nofun
    · obtain rfl := Option.some.inj hsmc
      have hquiet : Quiet s { s with tz := { s.tz with k := k } } := Quiet.same rfl
      exact hs.rest hservice (hturn hw) (hquiet.setPc hw rfl) fun _ => hservice

theorem Quiet.schedule (h : Quiet s s') (hsmc : smc s' .taskSchedule = some t) : Quiet s t :=
  h.trans (smc_quiet (c := .taskSchedule) (fun _ => ⟨nofun, nofun⟩) hsmc)

theorem Quiet.leave {ret : UInt32} (h : Quiet s s') (hsmc : smc s' (.nonsService ret) = some t) :
    Quiet s t ∧ t.current = .nonsecure := by
  refine ⟨h.trans (smc_quiet (c := .nonsService ret) (fun _ => by simp) hsmc), ?_⟩
  simp only [smc] at hsmc
  split at hsmc
  · cases hsmc
  obtain ⟨tz, -, rfl⟩ := Option.map_eq_some_iff.mp hsmc
  exact schedThreadSwitched_current ..

theorem Quiet.respond {tee : Nat} {space : TeeSpace} : Quiet s (s.respond tee space) := by
  refine Quiet.setState (Quiet.record ?_ rfl)
  exact Quiet.same rfl

/-- A step of the TEE thread. -/
theorem mail_tee (hw : WorldInv apps s) (hs : MailInv s) (hcur : s.current = .tee)
    (hstep : TeeStep s s' call) (hsmc : call.elim (some s') (smc s') = some t) : MailInv t := by
  have hservice : s.current ≠ .service := by simp [hcur]
  have hturn (i : Nat) (hi : s.current = .trustlet i) : (s.trustletPc i).waits = none :=
    nomatch hcur.symm.trans hi
  have hback {s' : System} {ret : UInt32} (h : Quiet s s')
      (hsmc : smc s' (.nonsService ret) = some t) : MailInv t := by
    obtain ⟨hquiet, hns⟩ := h.leave hsmc
    exact hs.rest hservice hturn hquiet fun _ => by rw [hns]; exact nofun
  cases hstep with
  | idle _ hnull =>
    have hquiet : Quiet s ({ s with teePc := .idle }.setState .tee .blocked) :=
      Quiet.setState (Quiet.same rfl)
    refine hs.rest hservice hturn (hquiet.schedule hsmc) fun hent => ?_
    have hin := hw.inside hent (by rw [hcur]; exact nofun)
    exact absurd hnull hin.mapped.2.1.ne_zero
  | hand _ _ _ _ =>
    obtain rfl := Option.some.inj hsmc
    refine hs.rest hservice hturn (Quiet.trans ?_ (Quiet.switch ..)) fun _ => nofun
    exact Quiet.record (Quiet.same rfl) rfl
  | respond _ _ => exact hback Quiet.respond hsmc
  | resume _ => exact hback ((Quiet.record (Quiet.same rfl) rfl).trans Quiet.respond) hsmc

/-- A step of the main thread. -/
theorem mail_main (hw : WorldInv apps s) (hs : MailInv s) (hcur : s.current = .main)
    (hstep : mainProgram apps s = some (s', call))
    (hsmc : call.elim (some s') (smc s') = some t) : MailInv t := by
  have hservice : s.current ≠ .service := by simp [hcur]
  have hquiet : Quiet s s' ∧ call = some .taskSchedule := by
    simp only [mainProgram] at hstep
    split_ifs at hstep <;> obtain ⟨rfl, rfl⟩ := Prod.mk.inj (Option.some.inj hstep) <;>
      exact ⟨Quiet.same rfl, rfl⟩
  obtain ⟨hquiet, rfl⟩ := hquiet
  refine hs.rest hservice (fun i hi => by cases hcur.symm.trans hi) (hquiet.schedule hsmc)
    fun hent => ?_
  have hin := hw.inside hent (by simp [hcur])
  exact absurd hcur (hw.mainLeft hin.made)

/-- A step of the non-secure world. -/
theorem mail_nonsecure (hs : MailInv s) (hcur : s.current = .nonsecure)
    (hstep : nonsecureProgram s input = some (s', call))
    (hsmc : call.elim (some s') (smc s') = some t) : MailInv t := by
  have hservice : s.current ≠ .service := by simp [hcur]
  have hturn (i : Nat) (hi : s.current = .trustlet i) : (s.trustletPc i).waits = none :=
    nomatch hcur.symm.trans hi
  cases nonsecure_cases hstep hsmc with
  | refused => exact hs.rest hservice hturn (Quiet.same rfl) fun _ => hservice
  | requested =>
    refine hs.rest hservice hturn (Quiet.trans ?_ (Quiet.switch ..)) fun _ => nofun
    exact Quiet.setState (Quiet.record (Quiet.same rfl) rfl)
  | @answered p _ tz _ hpage =>
    obtain ⟨ph, hp, hcases⟩ := hs.cases hservice hturn
    -- the state behind the SMC, before the switch
    have hswitch : Quiet (s.accept tz p (.answered p.ctrl)) _ :=
      (Quiet.setState (x := .ready) (u := .service)
        (Quiet.setState (x := .blocked) (u := s.current) (Quiet.same rfl))).trans
        (Quiet.switch _ .service)
    obtain ⟨n, rfl, h⟩ | ⟨r, rfl, h⟩ := hcases
    · have hrest : Rests (s.accept tz p (.answered p.ctrl)) n :=
        ⟨h.made, h.queue, h.pc, h.waits⟩
      exact ⟨_, hswitch.exchange (.read rfl (.unasked n p.ctrl) hp), hrest.quiet hswitch⟩
    · have hasked : Asked (s.accept tz p (.answered p.ctrl)) r :=
        ⟨h.made, h.queue, h.pc, h.waits, h.ready,
          ⟨_, List.mem_append_right _ (List.mem_singleton_self _), rfl⟩⟩
      refine ⟨_, hswitch.exchange (.read rfl (.answer r p.ctrl) hp), hasked.quiet hswitch, rfl, ?_, ?_⟩
      · rw [schedThreadSwitched_eq]
        rfl
      · rw [schedThreadSwitched_tz]
        exact hpage

/-! ## 4. Runs -/

theorem mailInv_step (hw : WorldInv apps s) (hs : MailInv s) (hok : fileRequestOk s input = true)
    (h : step apps s input = some t) : MailInv t := by
  obtain ⟨s', call, hp, hsmc⟩ := step_eq_some h
  unfold program at hp
  cases hcur : s.current with
  | main =>
    rw [hcur] at hp
    exact mail_main hw hs hcur hp hsmc
  | service =>
    rw [hcur] at hp
    exact mail_service hw hs hcur (serviceProgram_cases hp) hsmc
  | tee =>
    rw [hcur] at hp
    exact mail_tee hw hs hcur (teeProgram_cases hp) hsmc
  | trustlet i =>
    rw [hcur] at hp
    exact mail_trustlet hs hcur hok (trustletProgram_cases hp) hsmc
  | nonsecure =>
    rw [hcur] at hp
    exact mail_nonsecure hs hcur hp hsmc

theorem mailInv_init (k : Mm.Kernel) (tee : TeeSpace) (ctrl : TzCtlrSpace) :
    MailInv (System.init k tee ctrl) :=
  ⟨_, .nil, rfl, rfl, trivial, fun _ => rfl⟩

/-- What has been sent of the requests that were made. -/
theorem MailInv.sent (hs : MailInv s) : (madeRequests s.log).map Prod.fst = List.range s.made ∧
    (sentRequests s.log = madeRequests s.log ∨
      ∃ n c, madeRequests s.log = sentRequests s.log ++ [(n, c)] ∧ s.queue = some n ∧
        (s.requests n).ctrlSpace = c ∧ s.current = .service) := by
  obtain ⟨p, hp, hholds⟩ := hs
  have hnumbered := hp.numbered
  have hsent := hp.sent_as_made
  match p, hholds with
  | .idle n, h => exact ⟨h.made ▸ hnumbered, Or.inl (hsent.trans (List.append_nil _)).symm⟩
  | .made n c, h => exact ⟨h.made ▸ hnumbered, Or.inr ⟨n, c, hsent, h.queue, h.request.2, h.current⟩⟩
  | .out r, h => exact ⟨h.1.made ▸ hnumbered, Or.inl (hsent.trans (List.append_nil _)).symm⟩
  | .back r c, h => exact ⟨h.1.made ▸ hnumbered, Or.inl (hsent.trans (List.append_nil _)).symm⟩
  | .copied r c, h => exact ⟨h.made ▸ hnumbered, Or.inl (hsent.trans (List.append_nil _)).symm⟩

/-- **The file requests of the trustlets.**  In every run whose switches to the service thread find a
shared page and no request at the non-secure world: each request goes to the non-secure world once, with
the control space that the trustlet has made it with, the answer to it is copied back, its
`service_do_request` returns after that, and nothing is copied to or from `NULL`.  A request that was
made and is not sent yet is in the queue, and the service thread runs. -/
theorem mailbox_run {k : Mm.Kernel} {tee : TeeSpace} {ctrl : TzCtlrSpace} {inputs : List Input}
    (hk : Mm.Mapable k)
    (hrun : Run (Guarded (fun s a => fileRequestOk s a = true) (stepOf (step apps)))
      (System.init k tee ctrl) inputs s) :
    Delivered s.log ∧ (madeRequests s.log).map Prod.fst = List.range s.made ∧
      (sentRequests s.log = madeRequests s.log ∨
        ∃ n c, madeRequests s.log = sentRequests s.log ++ [(n, c)] ∧ s.queue = some n ∧
          (s.requests n).ctrlSpace = c ∧ s.current = .service) := by
  have hkeep : ∀ s a t, WorldInv apps s ∧ MailInv s →
      Guarded (fun s a => fileRequestOk s a = true) (stepOf (step apps)) s a t →
      WorldInv apps t ∧ MailInv t :=
    fun _ _ _ hs h => ⟨worldInv_step hs.1 h.2, mailInv_step hs.1 hs.2 h.1 h.2⟩
  have hinv := hrun.invariant hkeep ⟨worldInv_init hk tee ctrl, mailInv_init k tee ctrl⟩
  obtain ⟨p, hp, -⟩ := hinv.2
  exact ⟨hp.delivered, hinv.2.sent⟩

end

def Event.isCopied : Event → Bool
  | .copied _ _ => true
  | _ => false

def Event.isAnswered : Event → Bool
  | .answered _ => true
  | _ => false

def Event.isNullCopy : Event → Bool
  | .nullCopy => true
  | _ => false

/-- A file request that is answered. -/
theorem mailbox_run_answered : ∃ inputs s,
    Run (Guarded (fun s a => fileRequestOk s a = true) (stepOf (step 1)))
      (System.init Mm.bootKernel someRequest someCtrl) inputs s ∧
    s.current = .trustlet 0 ∧ s.made = 1 ∧ Delivered s.log := by
  have hcomputed : (execOk (step 1) fileRequestOk (System.init Mm.bootKernel someRequest someCtrl)
      (bootInputs 1 ++ fileRequestInputs 0 ++ [.cmem somePackage, .go, .go])).any
      (fun s => decide (s.current = .trustlet 0) && decide (s.made = 1)) = true := by
    decide +kernel
  obtain ⟨s, hrun, hs⟩ := exists_run_of_execOk hcomputed
  rw [Bool.and_eq_true, decide_eq_true_eq, decide_eq_true_eq] at hs
  exact ⟨_, s, hrun, hs.1, hs.2, (mailbox_run Mm.bootKernel_mapable hrun).1⟩

/-- While the file request of one trustlet is out, a second one makes its own: the first one is told
an answer that never came.  And a trustlet that asks for a file before the non-secure world has run
makes the service thread copy to `NULL`. -/
theorem mailbox_fails :
    (∃ inputs s, Run (stepOf (step 2)) (System.init Mm.bootKernel someRequest someCtrl) inputs s ∧
      (∃ r c, .copied r c ∈ s.log) ∧ (∀ c, .answered c ∉ s.log) ∧ ¬ Delivered s.log) ∧
    ∃ inputs s, Run (stepOf (step 1)) (System.init Mm.bootKernel someRequest someCtrl) inputs s ∧
      .nullCopy ∈ s.log ∧ ¬ Delivered s.log := by
  constructor
  · have hcomputed : (execOk (step 2) (fun _ _ => true)
        (System.init Mm.bootKernel someRequest someCtrl)
        (bootInputs 2 ++ fileRequestInputs 0 ++ [.tmem trustletRequest, .go] ++
          fileRequestInputs 1)).any
        (fun s => s.log.any Event.isCopied && !s.log.any Event.isAnswered) = true := by
      decide +kernel
    obtain ⟨s, hrun, hs⟩ := exists_run_of_execOk hcomputed
    rw [Bool.and_eq_true, Bool.not_eq_true', List.any_eq_false, List.any_eq_true] at hs
    obtain ⟨⟨e, hmem, he⟩, hnone⟩ := hs
    have hunanswered (c : TzCtlrSpace) : .answered c ∉ s.log := fun hc => hnone _ hc rfl
    cases e with
    | copied r c =>
      refine ⟨_, s, hrun.of_guarded, ⟨r, c, hmem⟩, hunanswered, fun hd => ?_⟩
      obtain ⟨l1, l2, hl⟩ := List.append_of_mem hmem
      obtain ⟨l0, l3, -, rfl, -⟩ := hd.answers l1 r c l2 hl
      exact hunanswered c (by simp [hl])
    | _ => exact nomatch he
  · have hcomputed : (execOk (step 1) (fun _ _ => true)
        (System.init Mm.bootKernel someRequest someCtrl)
        (List.replicate 5 .go ++ [.fileRequest someCtrl true, .go, .go, .go])).any
        (fun s => s.log.any Event.isNullCopy) = true := by
      decide +kernel
    obtain ⟨s, hrun, hs⟩ := exists_run_of_execOk hcomputed
    obtain ⟨e, hmem, he⟩ := List.any_eq_true.mp hs
    cases e with
    | nullCopy => exact ⟨_, s, hrun.of_guarded, hmem, fun hd => hd.noNull hmem⟩
    | _ => exact nomatch he

end AndixOs.Monitor
