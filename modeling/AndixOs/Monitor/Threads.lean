/-
# The threads and the monitor

The kernel runs one thread at a time.  A thread keeps the processor until it calls the monitor:
`switch_to_thread` names the next thread, `yield` takes the first ready one of the list, and a
return to the non-secure world takes the thread of that world.  The non-secure world comes back
with one of two SMCs, at any time and with any package.

A step is what the current thread does up to its next call of the monitor (`program`), and what the
monitor makes of the call (`smc`).  The log is a history that no step reads.
-/
import Mathlib
import AndixOs.Monitor.Package
import AndixOs.Service.Wire

namespace AndixOs.Monitor

open Mm
open Service (TzCtlrSpace)

/-! ## 1. The state -/

/-- The threads in the order in which they are made: trustlet `i` is the main thread of the `i`-th
user process, its `tee_handler`. -/
inductive Thread where
  | main | service | tee | trustlet (i : Nat) | nonsecure
  deriving DecidableEq

/-- `thread_state_t`; nothing sets `SLEEPING` or `DEAD`. -/
inductive ThreadState where
  | ready | running | blocked
  deriving DecidableEq

/-- What the threads use of `TZ_TEE_SPACE`. -/
structure TeeSpace where
  op : UInt32
  ret : UInt32
  deriving DecidableEq

def tzTeeOpOpenSession : UInt32 := 0x06
def tzTeeOpCloseSession : UInt32 := 0x07
def tzTeeOpInvokeCmd : UInt32 := 0x08

/-- The operations that are handed to a trustlet. -/
def TeeSpace.forTrustlet (t : TeeSpace) : Bool :=
  t.op == tzTeeOpOpenSession || t.op == tzTeeOpCloseSession || t.op == tzTeeOpInvokeCmd

/-- The operations whose answer `swi_get_secure_request` processes. -/
def TeeSpace.hasAnswer (t : TeeSpace) : Bool :=
  t.op == tzTeeOpOpenSession || t.op == tzTeeOpInvokeCmd

/-- `service_request`, with what lies at its `ctrl_space`; `returnTask` is a trustlet, as no other
thread makes requests. -/
structure ServiceRequest where
  ctrlSpace : TzCtlrSpace
  ready : Bool
  returnTask : Nat

/-- Where the service thread is: before its first step, in its `yield`, switching back for lack of
a control space, in `mon_ctrl_request`, switching back with an answer, or stopped by a data abort. -/
inductive ServicePc where
  | entry | idle | noControl (r : Nat) | asked (r : Nat) | answered | aborted
  deriving DecidableEq

/-- Where the TEE thread is: before its first step, in its `yield`, in the `switch_to_thread` of an
operation that it read at `tee`, or in `mon_tee_response`. -/
inductive TeePc where
  | entry | idle | inTrustlet (tee i : Nat) | responded
  deriving DecidableEq

/-- Where a trustlet's thread is: in user mode, in `swi_get_secure_request`, or in the loop of
`service_do_request`.  `serving` is the number of the TEE request that it was last given. -/
inductive TrustletPc where
  | user (serving : Option Nat)
  | secureRequest
  | fileRequest (r : Nat) (serving : Option Nat)
  deriving DecidableEq

/-- What happens, for the record. -/
inductive Event where
  /-- `tee_task_entry` hands its `n`-th request for trustlets to trustlet `i`. -/
  | handed (n i : Nat)
  /-- Trustlet `i` is back in `swi_get_secure_request`: its answer to request `n` is processed and
  its `tee_rpc` cleared. -/
  | finished (n i : Nat)
  /-- The `switch_to_thread` of the TEE thread returns. -/
  | resumed (n i : Nat)
  /-- The TEE thread copies to `tee` where `tee_mem` is `mapped`. -/
  | copyBack (tee mapped : Nat)
  /-- A trustlet makes request `r`, with this control space. -/
  | made (r : Nat) (ctrl : TzCtlrSpace)
  /-- The service thread leaves to the non-secure world for request `r`, with this on the shared page. -/
  | sent (r : Nat) (ctrl : TzCtlrSpace)
  /-- `SMC_PROCESS_TMEM` is accepted. -/
  | requested
  /-- `SMC_PROCESS_CMEM` is accepted, with this control space. -/
  | answered (ctrl : TzCtlrSpace)
  /-- The control space is copied to the buffer of request `r`. -/
  | copied (r : Nat) (ctrl : TzCtlrSpace)
  /-- The `service_do_request` of request `r` returns, with this in its buffer. -/
  | returned (r : Nat) (ctrl : TzCtlrSpace)
  /-- The service thread copies to or from `NULL`. -/
  | nullCopy
  /-- `package->result` is written. -/
  | result (r : UInt32)

/-- The state of the two worlds.  `teeShared` and `ctrlShared` are what lies in the mapped TEE space
and control space, `space` the copy of `tee_task_entry`.  A `tee_rpc` that is set leads to `space`.
The queue never holds more than its first element. -/
structure System where
  threads : List Thread
  state : Thread → ThreadState
  current : Thread
  tz : TzState
  teeShared : TeeSpace
  ctrlShared : TzCtlrSpace
  mainPc : Nat
  servicePc : ServicePc
  teePc : TeePc
  trustletPc : Nat → TrustletPc
  space : TeeSpace
  teeRpc : Nat → Bool
  queue : Option Nat
  requests : Nat → ServiceRequest
  made : Nat
  teeRequests : Nat
  log : List Event

def System.setState (s : System) (t : Thread) (x : ThreadState) : System :=
  { s with state := Function.update s.state t x }

def System.record (s : System) (e : Event) : System := { s with log := s.log ++ [e] }

/-- The bytes can be read and written: copying them ends in no data abort. -/
def System.mapped (s : System) (a n : Nat) : Bool :=
  (List.range n).all fun j => (writeAddr s.tz.k (w32 (a + j))).isSome

/-! ## 2. `scheduler.c` -/

/-- `sched_thread_switched`. -/
def schedThreadSwitched (s : System) (t : Thread) : System :=
  let s := if s.state s.current = .running then s.setState s.current .ready else s
  ({ s with current := t }).setState t .running

/-- `sched_get_next_ready_thread`. -/
def schedGetNextReadyThread (s : System) : Option Thread :=
  s.threads.find? fun t => s.state t = .ready

/-- `sched_add_thread` of a new thread. -/
def schedAddThread (s : System) (t : Thread) : System :=
  ({ s with threads := s.threads ++ [t] }).setState t .ready

/-! ## 3. The monitor -/

/-- What the non-secure world hands over with an SMC: the addresses of the three structures, and
what lies in two of them. -/
structure NsPackage where
  paddr : UInt32
  teePaddr : UInt32
  ctrlPaddr : UInt32
  tee : TeeSpace
  ctrl : TzCtlrSpace

/-- The calls of the monitor: `SSC_TASK_SWITCH`, `SSC_TASK_SCHEDULE`, `SSC_NONS_SERVICE`,
`SMC_PROCESS_TMEM` and `SMC_PROCESS_CMEM`. -/
inductive Smc where
  | taskSwitch (t : Thread)
  | taskSchedule
  | nonsService (result : UInt32)
  | processTmem (p : NsPackage)
  | processCmem (p : NsPackage)

def ctrlStruct : UInt32 := 1
def teeStruct : UInt32 := 2

/-- `mon_smc_secure_handler` and `mon_smc_non_secure_handler`.  Where there is no ready thread, or
no TEE space is mapped, the caller goes on.  A return to the non-secure world without a package ends
in a data abort, and so does a `SMC_PROCESS_CMEM` whose control space is not mapped: the debug output
reads `com_mem->ret` before `com_mem` is checked. -/
def smc (s : System) : Smc → Option System
  | .taskSwitch t => some (schedThreadSwitched s t)
  | .taskSchedule =>
    match schedGetNextReadyThread s with
    | none => some s
    | some t => some (schedThreadSwitched s t)
  | .nonsService r =>
    if s.tz.package = 0 ∨ s.mapped s.tz.package 4 = false then none
    else
      (freeTzPackage s.tz).map fun tz =>
        schedThreadSwitched ({ s with tz := tz }.record (.result r)) .nonsecure
  | .processTmem p =>
    (setTzPackage s.tz p.paddr.toNat p.teePaddr.toNat p.ctrlPaddr.toNat).map fun r =>
      let s := { s with tz := r.2 }
      if s.tz.teeMem = 0 then s
      else
        let s := { s with teeShared := p.tee, ctrlShared := p.ctrl }.record .requested
        schedThreadSwitched (s.setState .tee .ready) .tee
  | .processCmem p =>
    (setTzPackage s.tz p.paddr.toNat p.teePaddr.toNat p.ctrlPaddr.toNat).bind fun r =>
      let s := { s with tz := r.2 }
      if s.tz.comMem = 0 then none
      else
        let s := { s with teeShared := p.tee, ctrlShared := p.ctrl }.record (.answered p.ctrl)
        some (schedThreadSwitched ((s.setState s.current .blocked).setState .service .ready) .service)

/-! ## 4. The threads -/

/-- What the functions that pass parameters to a trustlet and back do to the memory management:
their calls for the mapable area, and what is left of the frames and of the process. -/
structure MmEffect where
  ops : List MmOp
  pmm : Bitmap
  proc : UserProcess

def MmEffect.apply (e : MmEffect) (k : Kernel) : Option Kernel :=
  (e.ops.foldlM mmStep k).map fun k => { k with pmm := e.pmm, proc := e.proc }

/-- What is decided outside of these functions: what the operations, the trustlets and the
non-secure world do. -/
inductive Input where
  /-- Nothing to decide. -/
  | go
  /-- A request of the TEE space: the trustlet that its UUID or session leads to, if any, and the
  result where no trustlet is asked. -/
  | dispatch (app : Option Nat) (ret : UInt32)
  /-- A trustlet is given a request: whether its parameters can be passed on, the result if not,
  and what passing them does. -/
  | receive (accepted : Bool) (ret : UInt32) (mm : MmEffect)
  /-- A trustlet calls `swi_get_secure_request`: the result, and what taking the parameters back
  does. -/
  | secureRequest (ret : UInt32) (mm : MmEffect)
  /-- A trustlet calls a file function: the request, and whether `kmalloc` has room for it in the
  queue. -/
  | fileRequest (ctrl : TzCtlrSpace) (alloc : Bool)
  /-- An SMC of the non-secure world. -/
  | tmem (p : NsPackage)
  | cmem (p : NsPackage)

/-- A thread's way to its next call of the monitor, or without one. -/
abbrev Program := Option (System × Option Smc)

/-- `entry_main_task` from the first of the other threads on, with `apps` trustlets. -/
def mainProgram (apps : Nat) (s : System) : Program :=
  let s' := { s with mainPc := s.mainPc + 1 }
  if s.mainPc = 0 then some (schedAddThread s' .service, some .taskSchedule)
  else if s.mainPc = 1 then some (schedAddThread s' .tee, some .taskSchedule)
  else if s.mainPc < 2 + apps then
    some (schedAddThread s' (.trustlet (s.mainPc - 2)), some .taskSchedule)
  else if s.mainPc = 2 + apps then
    some ((schedAddThread s' .nonsecure).setState .main .blocked, some .taskSchedule)
  else none

/-- The loop of `service_entry`, from `service_get_request` on. -/
def serviceLoop (s : System) : Program :=
  match s.queue with
  | none => some ({ s with servicePc := .idle }.setState .service .blocked, some .taskSchedule)
  | some r =>
    let s := { s with queue := none }
    if (s.requests r).ready = true then none
    else if s.tz.comMem = 0 then
      some ({ s with servicePc := .noControl r },
        some (.taskSwitch (.trustlet (s.requests r).returnTask)))
    else if s.mapped s.tz.comMem sizeofTzCtlrSpace = false then none
    else
      let s := { s with ctrlShared := (s.requests r).ctrlSpace, servicePc := .asked r }
      some (s.record (.sent r s.ctrlShared), some (.nonsService ctrlStruct))

/-- `service_entry`. -/
def serviceProgram (s : System) : Program :=
  match s.servicePc with
  | .entry | .idle | .answered => serviceLoop s
  | .noControl _ => some ({ s with servicePc := .aborted }.record .nullCopy, none)
  | .asked r =>
    if s.tz.comMem = 0 then some ({ s with servicePc := .aborted }.record .nullCopy, none)
    else if s.mapped s.tz.comMem sizeofTzCtlrSpace = false then none
    else
      let request := { s.requests r with ctrlSpace := s.ctrlShared, ready := true }
      some ({ s with requests := Function.update s.requests r request, servicePc := .answered }.record
          (.copied r s.ctrlShared),
        some (.taskSwitch (.trustlet (s.requests r).returnTask)))
  | .aborted => none

/-- The end of the loop in `tee_task_entry`: the copy goes to where the request was read. -/
def teeRespond (s : System) (tee : Nat) (ret : UInt32) : Program :=
  let s := { s with space := { s.space with ret := ret } }
  if s.mapped tee sizeofTzTeeSpace = false then none
  else
    let s := { s with teeShared := if tee = s.tz.teeMem then s.space else s.teeShared,
                      teePc := .responded }
    some ((s.record (.copyBack tee s.tz.teeMem)).setState .tee .blocked, some (.nonsService teeStruct))

/-- The loop of `tee_task_entry` from `mon_get_tee_space` on. -/
def teeLoop (s : System) (input : Input) : Program :=
  if s.tz.teeMem = 0 then
    some ({ s with teePc := .idle }.setState .tee .blocked, some .taskSchedule)
  else if s.mapped s.tz.teeMem sizeofTzTeeSpace = false then none
  else
    match input with
    | .dispatch app ret =>
      let s := { s with space := s.teeShared }
      match app with
      | some i =>
        if s.space.forTrustlet = true ∧ .trustlet i ∈ s.threads then
          let s := { s with teeRpc := Function.update s.teeRpc i true,
                            teePc := .inTrustlet s.tz.teeMem i, teeRequests := s.teeRequests + 1 }
          some (s.record (.handed s.teeRequests i), some (.taskSwitch (.trustlet i)))
        else none
      | none => teeRespond s s.tz.teeMem ret
    | _ => none

/-- `tee_task_entry`. -/
def teeProgram (s : System) (input : Input) : Program :=
  match s.teePc with
  | .entry | .idle | .responded => teeLoop s input
  | .inTrustlet tee i => teeRespond (s.record (.resumed s.teeRequests i)) tee s.space.ret

/-- `service_do_request` up to its first `switch_to_thread`.  Without room the queue loses what it
held. -/
def serviceDoRequest (s : System) (i : Nat) (serving : Option Nat) (ctrl : TzCtlrSpace)
    (alloc : Bool) : Program :=
  let s := { s with queue := if alloc = true then some s.made else none,
                    requests := Function.update s.requests s.made ⟨ctrl, false, i⟩,
                    made := s.made + 1,
                    trustletPc := Function.update s.trustletPc i (.fileRequest s.made serving)
    }.record (.made s.made ctrl)
  some (s.setState .service .ready, some (.taskSwitch .service))

/-- The first half of `swi_get_secure_request`: the answer to the request that the trustlet was
given. -/
def processAnswer (s : System) (i : Nat) (serving : Option Nat) (ret : UInt32) (mm : MmEffect) :
    Option System :=
  if s.teeRpc i = false then some s
  else
    (mm.apply s.tz.k).map fun k =>
      let s := { s with tz := { s.tz with k := k } }
      let s := if s.space.hasAnswer = true then { s with space := { s.space with ret := ret } } else s
      serving.elim s fun n => s.record (.finished n i)

/-- `swi_get_secure_request` up to its `switch_to_thread`. -/
def swiGetSecureRequest (s : System) (i : Nat) (serving : Option Nat) (ret : UInt32)
    (mm : MmEffect) : Program :=
  (processAnswer s i serving ret mm).map fun s =>
    let s := { s with teeRpc := Function.update s.teeRpc i false,
                      trustletPc := Function.update s.trustletPc i .secureRequest }
    (s.setState (.trustlet i) .blocked, some (.taskSwitch .tee))

/-- `swi_get_secure_request` behind its `switch_to_thread`, with a request: the trustlet gets it, or
the TEE thread a result. -/
def receiveRequest (s : System) (i : Nat) (accepted : Bool) (ret : UInt32) (mm : MmEffect) :
    Program :=
  (mm.apply s.tz.k).map fun k =>
    let s := { s with tz := { s.tz with k := k } }
    if s.space.forTrustlet = false then (s.setState (.trustlet i) .blocked, some (.taskSwitch .tee))
    else if accepted = true then
      ({ s with trustletPc := Function.update s.trustletPc i (.user (some s.teeRequests)) }, none)
    else
      ({ s with space := { s.space with ret := ret } }.setState (.trustlet i) .blocked,
        some (.taskSwitch .tee))

/-- The thread of a trustlet. -/
def trustletProgram (s : System) (i : Nat) (input : Input) : Program :=
  match s.trustletPc i with
  | .user serving =>
    match input with
    | .fileRequest ctrl alloc => serviceDoRequest s i serving ctrl alloc
    | .secureRequest ret mm => swiGetSecureRequest s i serving ret mm
    | _ => none
  | .fileRequest r serving =>
    if (s.requests r).ready = true then
      some ({ s with trustletPc := Function.update s.trustletPc i (.user serving) }.record
        (.returned r (s.requests r).ctrlSpace), none)
    else some (s, some (.taskSwitch .service))
  | .secureRequest =>
    if s.teeRpc i = false then some (s.setState (.trustlet i) .blocked, some (.taskSwitch .tee))
    else
      match input with
      | .receive accepted ret mm => receiveRequest s i accepted ret mm
      | _ => none

/-- The non-secure world. -/
def nonsecureProgram (s : System) : Input → Program
  | .tmem p => some (s, some (.processTmem p))
  | .cmem p => some (s, some (.processCmem p))
  | _ => none

def program (apps : Nat) (s : System) (input : Input) : Program :=
  match s.current with
  | .main => mainProgram apps s
  | .service => serviceProgram s
  | .tee => teeProgram s input
  | .trustlet i => trustletProgram s i input
  | .nonsecure => nonsecureProgram s input

/-- One step. -/
def step (apps : Nat) (s : System) (input : Input) : Option System :=
  (program apps s input).bind fun r => r.2.elim (some r.1) (smc r.1)

/-- The start of the main thread. -/
def System.init (k : Kernel) (tee : TeeSpace) (ctrl : TzCtlrSpace) : System where
  threads := [.main]
  state := Function.update (fun _ => .blocked) .main .running
  current := .main
  tz := ⟨k, 0, 0, 0⟩
  teeShared := tee
  ctrlShared := ctrl
  mainPc := 0
  servicePc := .entry
  teePc := .entry
  trustletPc := fun _ => .user none
  space := tee
  teeRpc := fun _ => false
  queue := none
  requests := fun _ => ⟨ctrl, false, 0⟩
  made := 0
  teeRequests := 0
  log := []

/-! ## 5. Small facts -/

section

variable (s : System) (t u : Thread) (x : ThreadState) (e : Event)

@[simp] theorem setState_threads : (s.setState t x).threads = s.threads := rfl
@[simp] theorem setState_current : (s.setState t x).current = s.current := rfl
@[simp] theorem setState_tz : (s.setState t x).tz = s.tz := rfl
@[simp] theorem setState_log : (s.setState t x).log = s.log := rfl
@[simp] theorem setState_mainPc : (s.setState t x).mainPc = s.mainPc := rfl
@[simp] theorem setState_self : (s.setState t x).state t = x := Function.update_self ..
theorem setState_other (h : u ≠ t) : (s.setState t x).state u = s.state u :=
  Function.update_of_ne h ..

@[simp] theorem record_threads : (s.record e).threads = s.threads := rfl
@[simp] theorem record_state : (s.record e).state = s.state := rfl
@[simp] theorem record_current : (s.record e).current = s.current := rfl
@[simp] theorem record_tz : (s.record e).tz = s.tz := rfl
@[simp] theorem record_mainPc : (s.record e).mainPc = s.mainPc := rfl
@[simp] theorem record_log : (s.record e).log = s.log ++ [e] := rfl

/-- A switch changes the states of two threads. -/
theorem schedThreadSwitched_eq :
    schedThreadSwitched s t = { s with current := t,
                                       state := (schedThreadSwitched s t).state } := by
  unfold schedThreadSwitched
  split <;> rfl

@[simp] theorem schedThreadSwitched_current : (schedThreadSwitched s t).current = t := rfl

@[simp] theorem schedThreadSwitched_self : (schedThreadSwitched s t).state t = .running :=
  setState_self ..

theorem schedThreadSwitched_other (h : u ≠ t) :
    (schedThreadSwitched s t).state u =
      if u = s.current ∧ s.state u = .running then .ready else s.state u := by
  unfold schedThreadSwitched
  rw [setState_other _ _ _ _ h]
  split
  · rename_i hrun
    by_cases hu : u = s.current
    · subst hu
      rw [if_pos ⟨rfl, hrun⟩]
      exact setState_self ..
    · rw [if_neg (fun hc => hu hc.1)]
      exact setState_other _ _ _ _ hu
  · rename_i hrun
    exact (if_neg fun hc : u = s.current ∧ s.state u = .running => hrun (hc.1 ▸ hc.2)).symm

@[simp] theorem schedThreadSwitched_threads : (schedThreadSwitched s t).threads = s.threads := by
  rw [schedThreadSwitched_eq]

@[simp] theorem schedThreadSwitched_tz : (schedThreadSwitched s t).tz = s.tz := by
  rw [schedThreadSwitched_eq]

@[simp] theorem schedThreadSwitched_log : (schedThreadSwitched s t).log = s.log := by
  rw [schedThreadSwitched_eq]

@[simp] theorem schedThreadSwitched_mainPc : (schedThreadSwitched s t).mainPc = s.mainPc := by
  rw [schedThreadSwitched_eq]

end

end AndixOs.Monitor
