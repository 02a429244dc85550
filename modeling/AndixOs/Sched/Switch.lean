/-
# Threads, the scheduler and the switch of the monitor

A thread gives the processor away with an SMC.  The monitor saves the registers of the current
thread in its `thread_t`, loads those of the next one, and tells the scheduler
(`mon_secure_switch_context`).  Which thread is next depends on the call: the caller names it, the
scheduler takes the first ready one of its list, or it is the thread of the service, of the TEE or
of the non-secure world.

The registers that the non-secure world and the threads leave behind are an input of each SMC.
Debug output that reads memory is part of the handlers: the kernel is built with it.
-/
import AndixOs.Lib.History
import AndixOs.Monitor.Package
import AndixOs.Task.LockedList
import Mathlib.Data.Fintype.Basic

namespace AndixOs.Sched

open AndixOs.Task AndixOs.Monitor

/-! ## 1. Registers -/

/-- The registers are counted from 0. -/
instance neZeroRegs : NeZero 13 := ⟨by decide⟩

/-- `mon_context_t`. -/
structure MonContext where
  scr : UInt32
  r : Fin 13 → UInt32
  pc : UInt32
  cpsr : UInt32
  deriving DecidableEq

def MonContext.zero : MonContext := ⟨0, fun _ => 0, 0, 0⟩

def MonContext.setR (c : MonContext) (i : Fin 13) (v : UInt32) : MonContext :=
  { c with r := Function.update c.r i v }

/-- `mon_sys_context_t`. -/
structure MonSysContext where
  svcSpsr : UInt32
  svcSp : UInt32
  svcLr : UInt32
  abtSpsr : UInt32
  abtSp : UInt32
  abtLr : UInt32
  undSpsr : UInt32
  undSp : UInt32
  undLr : UInt32
  irqSpsr : UInt32
  irqSp : UInt32
  irqLr : UInt32
  fiqSpsr : UInt32
  fiqR8 : UInt32
  fiqR9 : UInt32
  fiqR10 : UInt32
  fiqR11 : UInt32
  fiqR12 : UInt32
  fiqSp : UInt32
  fiqLr : UInt32
  sysSp : UInt32
  sysLr : UInt32
  deriving DecidableEq

def MonSysContext.zero : MonSysContext :=
  ⟨0, 0, 0, 0, 0, 0, 0, 0, 0, 0, 0, 0, 0, 0, 0, 0, 0, 0, 0, 0, 0, 0⟩

/-- The registers that a mode has for itself. -/
structure ModeRegs where
  spsr : UInt32
  sp : UInt32
  lr : UInt32
  deriving DecidableEq

structure FiqRegs where
  spsr : UInt32
  r8 : UInt32
  r9 : UInt32
  r10 : UInt32
  r11 : UInt32
  r12 : UInt32
  sp : UInt32
  lr : UInt32
  deriving DecidableEq

/-- The banked registers of the processor. -/
structure Banked where
  svc : ModeRegs
  abt : ModeRegs
  und : ModeRegs
  irq : ModeRegs
  fiq : FiqRegs
  sysSp : UInt32
  sysLr : UInt32
  deriving DecidableEq

/-- `monitor_save_sys_regs`. -/
def monitorSaveSysRegs (b : Banked) : MonSysContext :=
  ⟨b.svc.spsr, b.svc.sp, b.svc.lr, b.abt.spsr, b.abt.sp, b.abt.lr, b.und.spsr, b.und.sp, b.und.lr,
    b.irq.spsr, b.irq.sp, b.irq.lr, b.fiq.spsr, b.fiq.r8, b.fiq.r9, b.fiq.r10, b.fiq.r11, b.fiq.r12,
    b.fiq.sp, b.fiq.lr, b.sysSp, b.sysLr⟩

/-- `monitor_restore_sys_regs`. -/
def monitorRestoreSysRegs (c : MonSysContext) : Banked :=
  ⟨⟨c.svcSpsr, c.svcSp, c.svcLr⟩, ⟨c.abtSpsr, c.abtSp, c.abtLr⟩, ⟨c.undSpsr, c.undSp, c.undLr⟩,
    ⟨c.irqSpsr, c.irqSp, c.irqLr⟩, ⟨c.fiqSpsr, c.fiqR8, c.fiqR9, c.fiqR10, c.fiqR11, c.fiqR12,
    c.fiqSp, c.fiqLr⟩, c.sysSp, c.sysLr⟩

@[simp] theorem monitorRestoreSysRegs_save (b : Banked) :
    monitorRestoreSysRegs (monitorSaveSysRegs b) = b := rfl

/-! ## 2. `thread.c` -/

/-- `thread_state_t`. -/
inductive ThreadState where
  | ready | running | blocked | sleeping | dead
  deriving DecidableEq

/-- `EXEC_CONTEXT_t`. -/
inductive ExecContext where
  | secure | nonsecure
  deriving DecidableEq

/-- `stack_info_t`. -/
structure StackInfo where
  base : UInt32
  limit : UInt32
  sp : UInt32
  deriving DecidableEq

/-- `thread_t`.  Of the process only `userPD` matters here; `none` for no process. -/
structure ThreadT where
  context : MonContext
  sysContext : MonSysContext
  execContext : ExecContext
  tid : UInt32
  state : ThreadState
  kernelStack : StackInfo
  userStack : StackInfo
  process : Option UInt32
  threadPointer : UInt32
  deriving DecidableEq

def svcMode : UInt32 := 0x13
/-- `PSR_F | PSR_I | PSR_A`. -/
def psrMasked : UInt32 := 0x40 ||| 0x80 ||| 0x100
/-- `SCR_EA`. -/
def scrEa : UInt32 := 0x8
/-- `SCR_NS | SCR_EA | SCR_FW | SCR_FIQ | SCR_AW`. -/
def scrNonsecure : UInt32 := 0x1 ||| 0x8 ||| 0x10 ||| 0x4 ||| 0x20
def kernelStackSize : UInt32 := 0x4000

/-- `create_kernel_thread` in a new block, with what `map_stack_mem` and `getABTSP` return. -/
def createKernelThread (mode : UInt32) (world : ExecContext) (tid stack abtSp : UInt32) : ThreadT :=
  let psr := mode ||| psrMasked
  { context :=
      { MonContext.zero with
        scr := if world = .secure then scrEa else scrNonsecure
        cpsr := psr }
    sysContext :=
      { MonSysContext.zero with
        svcSpsr := psr, abtSpsr := psr, undSpsr := psr, irqSpsr := psr, fiqSpsr := psr
        abtSp := abtSp }
    execContext := world
    tid := tid
    state := .ready
    kernelStack := if world = .secure then ⟨stack, stack - kernelStackSize, stack⟩ else ⟨0, 0, 0⟩
    userStack := ⟨0, 0, 0⟩
    process := none
    threadPointer := 0 }

/-- What `create_user_thread`, `create_user_process`, `thread_set_entry` and the loaders set before
a new thread runs. -/
structure ThreadSetup where
  entry : UInt32
  r1 : UInt32
  r2 : UInt32
  userStack : StackInfo
  process : Option UInt32
  threadPointer : UInt32

def ThreadT.setup (th : ThreadT) (c : ThreadSetup) : ThreadT :=
  { th with
    context := { (th.context.setR 1 c.r1).setR 2 c.r2 with pc := c.entry }
    userStack := c.userStack
    process := c.process
    threadPointer := c.threadPointer }

/-! ## 3. The state -/

/-- What the monitor saves and loads, for the record. -/
inductive SwitchEvent where
  /-- The registers of a thread that was switched out, or those with which it was made. -/
  | saved (t : Nat) (context : MonContext) (banked : Banked)
  /-- The registers in force when a thread is current, the user table, and the `userPD` of the
  process of the thread. -/
  | loaded (t : Nat) (context : MonContext) (banked : Banked) (table : UInt32)
      (process : Option UInt32)

/-- The threads are in the memory of the kernel; `made` are those that exist, and `listed` is what
was added to `list`.  `regs` is the frame that the monitor loads when it returns. -/
structure SecureWorld where
  threads : Nat → ThreadT
  made : List Nat
  currentTid : UInt32
  list : Files
  listed : List ListEntry
  current : Option Nat
  nonsecure : Option Nat
  service : Option Nat
  tee : Option Nat
  tz : TzState
  regs : MonContext
  banked : Banked
  userTable : UInt32
  userThreadReg : UInt32
  log : List SwitchEvent

def SecureWorld.setThread (s : SecureWorld) (t : Nat) (th : ThreadT) : SecureWorld :=
  { s with threads := Function.update s.threads t th }

def SecureWorld.setState (s : SecureWorld) (t : Nat) (x : ThreadState) : SecureWorld :=
  s.setThread t { s.threads t with state := x }

/-- The kernel before the first thread, in a memory that holds anything. -/
def SecureWorld.init (mem : SecureWorld) : SecureWorld :=
  { mem with
    made := []
    list := { mem.list with head := none }
    listed := []
    current := none
    nonsecure := none
    service := none
    tee := none
    tz := { mem.tz with package := 0, teeMem := 0, comMem := 0 }
    log := [] }

/-! ## 4. `scheduler.c` -/

/-- `sched_thread_switched`. -/
def schedThreadSwitched (s : SecureWorld) (t : Nat) : SecureWorld :=
  let s : SecureWorld :=
    match s.current with
    | none => s
    | some c => if (s.threads c).state = .running then s.setState c .ready else s
  ({ s with current := some t }).setState t .running

/-- The loop of `sched_get_next_ready_thread`; the outer `none`: it is still going. -/
def readyLoop (s : SecureWorld) : Nat → ListIterator → Option (Option Nat)
  | 0, _ => none
  | fuel + 1, iter =>
    match lockedListIterNext s.list iter with
    | (none, _) => some none
    | (some th, iter) =>
      if th = 0 then some none
      else if (s.threads th).state = .ready then some (some th)
      else readyLoop s fuel iter

/-- `sched_get_next_ready_thread`. -/
def schedGetNextReadyThread (s : SecureWorld) : Option (Option Nat) :=
  readyLoop s (s.list.fuel + 1) (lockedListIterInit s.list)

/-- `sched_add_thread`. -/
def schedAddThread (s : SecureWorld) (t : Nat) (block : Option Nat) : SecureWorld :=
  match lockedListAdd s.list t block, block with
  | some list, some node => { s with list := list, listed := s.listed ++ [⟨node, t⟩] }
  | _, _ => s

/-! ## 5. `mon_secure_switch_context` -/

/-- The registers go to the `thread_t` of the thread that is switched out. -/
def saveContext (s : SecureWorld) (c : Nat) : SecureWorld :=
  let th := s.threads c
  { s.setThread c { th with
      context := s.regs
      sysContext := monitorSaveSysRegs s.banked
      kernelStack := { th.kernelStack with sp := s.banked.svc.sp }
      userStack := { th.userStack with sp := s.banked.sysSp } } with
    log := s.log ++ [.saved c s.regs s.banked] }

/-- The banked registers after a thread is loaded. -/
def loadBanked (th : ThreadT) : Banked :=
  let b := monitorRestoreSysRegs th.sysContext
  let b := if th.kernelStack.sp ≠ 0 then { b with svc := { b.svc with sp := th.kernelStack.sp } } else b
  if th.userStack.sp ≠ 0 then { b with sysSp := th.userStack.sp } else b

/-- The user table after a thread is loaded. -/
def loadUserTable (th : ThreadT) (table : UInt32) : UInt32 :=
  match th.process with
  | none => table
  | some userPD => if userPD ≠ 0 then if userPD ≠ table then userPD else table else table

/-- The registers come from the `thread_t` of the next thread. -/
def loadContext (s : SecureWorld) (t : Nat) : SecureWorld :=
  let th := s.threads t
  { s with
    regs := th.context
    banked := loadBanked th
    userTable := loadUserTable th s.userTable
    userThreadReg := th.threadPointer
    log := s.log ++
      [.loaded t th.context (loadBanked th) (loadUserTable th s.userTable) th.process] }

/-- `mon_secure_switch_context`. -/
def monSecureSwitchContext (s : SecureWorld) (t : Nat) : SecureWorld :=
  let s :=
    match s.current with
    | none => s
    | some c => saveContext s c
  schedThreadSwitched (loadContext s t) t

/-! ## 6. The handlers of the monitor -/

/-- How a handler ends when it does not come back: it reads or writes through a pointer that is
`NULL`, or a loop does not end.  Through `tee_mem` the handlers neither read nor write. -/
inductive Abort where
  | nullPackage | nullComMem | nullThread | noReturn
  deriving DecidableEq

def sscTaskSwitch : UInt32 := 0
def sscTaskSchedule : UInt32 := 1
def sscNonsService : UInt32 := 2
def smcProcessCmem : UInt32 := 0x03
def smcProcessTmem : UInt32 := 0x13

/-- What `virt_ns_to_phys` makes of the pointer to a package and of its two fields. -/
structure PackageAddrs where
  package : UInt32
  tee : UInt32
  ctrl : UInt32

/-- The call of `set_tz_package`, whose result the handlers do not look at. -/
def handlerSetTzPackage (s : SecureWorld) (a : PackageAddrs) : Except Abort SecureWorld :=
  match setTzPackage s.tz a.package.toNat a.tee.toNat a.ctrl.toNat with
  | none => .error .noReturn
  | some r => .ok { s with tz := r.2 }

/-- `cont->r[0] = -1`. -/
def SecureWorld.fail (s : SecureWorld) : SecureWorld :=
  { s with regs := s.regs.setR 0 0xFFFFFFFF }

/-- The end of both requests of the non-secure world: the thread is made ready and switched to. -/
def dispatchTo (s : SecureWorld) : Option Nat → SecureWorld
  | none => s.fail
  | some t => monSecureSwitchContext (s.setState t .ready) t

/-- `SMC_PROCESS_CMEM`.  The debug output reads `com_mem->ret` before `com_mem` is checked. -/
def processCmem (s : SecureWorld) (a : PackageAddrs) : Except Abort SecureWorld :=
  match handlerSetTzPackage s a with
  | .error e => .error e
  | .ok s =>
    if s.tz.comMem = 0 then .error .nullComMem
    else
      match s.current with
      | none => .error .nullThread
      | some c => .ok (dispatchTo (s.setState c .blocked) s.service)

/-- `SMC_PROCESS_TMEM`. -/
def processTmem (s : SecureWorld) (a : PackageAddrs) : Except Abort SecureWorld :=
  match handlerSetTzPackage s a with
  | .error e => .error e
  | .ok s => .ok (if s.tz.teeMem = 0 then s.fail else dispatchTo s s.tee)

/-- `mon_smc_non_secure_handler`. -/
def monSmcNonSecureHandler (s : SecureWorld) (a : PackageAddrs) : Except Abort SecureWorld :=
  if s.regs.r 12 = smcProcessCmem then processCmem s a
  else if s.regs.r 12 = smcProcessTmem then processTmem s a
  else .ok s

/-- `SSC_NONS_SERVICE`. -/
def nonsService (s : SecureWorld) : Except Abort SecureWorld :=
  if s.tz.package = 0 then .error .nullPackage
  else
    match freeTzPackage s.tz with
    | none => .error .noReturn
    | some tz =>
      match s.nonsecure with
      | none => .error .nullThread
      | some t => .ok (monSecureSwitchContext { s with tz := tz } t)

/-- `SSC_TASK_SCHEDULE`. -/
def taskSchedule (s : SecureWorld) : Except Abort SecureWorld :=
  match schedGetNextReadyThread s with
  | none => .error .noReturn
  | some none => .ok s
  | some (some t) => .ok (monSecureSwitchContext s t)

/-- `mon_smc_secure_handler`. -/
def monSmcSecureHandler (s : SecureWorld) : Except Abort SecureWorld :=
  if s.regs.r 12 = sscTaskSwitch then
    if s.regs.r 0 = 0 then .ok s else .ok (monSecureSwitchContext s (s.regs.r 0).toNat)
  else if s.regs.r 12 = sscTaskSchedule then taskSchedule s
  else if s.regs.r 12 = sscNonsService then nonsService s
  else .ok s

/-- `mon_smc_handler`. -/
def monSmcHandler (s : SecureWorld) (a : PackageAddrs) : Except Abort SecureWorld :=
  if s.regs.scr &&& 1 ≠ 0 then monSmcNonSecureHandler s a else monSmcSecureHandler s

/-! ## 7. Steps -/

/-- What happens: an SMC, with the registers that the caller and its world leave behind; and what
threads do to threads in between. -/
inductive SwitchCall where
  | smc (regs : MonContext) (banked : Banked) (userTable : UInt32) (a : PackageAddrs)
  | createThread (t : Nat) (mode : UInt32) (world : ExecContext) (stack abtSp : UInt32)
      (setup : ThreadSetup)
  | schedAddThread (t : Nat) (block : Option Nat)
  | setNonsecureThread (t : Nat)
  | servicePre (t : Nat)
  /-- `tee_task_entry` notes its thread. -/
  | teeTaskEntry
  /-- `get_current_thread()->state = BLOCKED`. -/
  | blockCurrent
  /-- `service_thread->state = READY`, `mainthread->state = READY`. -/
  | markReady (t : Nat)

/-- The registers at the entry of the monitor. -/
def SecureWorld.enter (s : SecureWorld) (regs : MonContext) (banked : Banked) (userTable : UInt32) :
    SecureWorld :=
  { s with regs := regs, banked := banked, userTable := userTable }

/-- A `SSC_TASK_SWITCH` names a thread or `NULL`. -/
def SecureWorld.namesThread (s : SecureWorld) (regs : MonContext) : Bool :=
  regs.scr &&& 1 != 0 || regs.r 12 != sscTaskSwitch || regs.r 0 == 0 ||
    s.made.contains (regs.r 0).toNat

/-- The registers with which a new thread starts: its stacks are not in its `mon_sys_context_t`. -/
def ThreadT.initialBanked (th : ThreadT) : Banked :=
  let b := monitorRestoreSysRegs th.sysContext
  { b with svc := { b.svc with sp := th.kernelStack.sp }, sysSp := th.userStack.sp }

/-- A new thread in a new block. -/
def createThread (s : SecureWorld) (t : Nat) (th : ThreadT) : SecureWorld :=
  { s.setThread t th with
    made := s.made ++ [t]
    currentTid := s.currentTid + 1
    log := s.log ++ [.saved t th.context th.initialBanked] }

/-- One step, if the monitor comes back. -/
def switchStep (s : SecureWorld) : SwitchCall → Option SecureWorld
  | .smc regs banked userTable a =>
    if s.namesThread regs then (monSmcHandler (s.enter regs banked userTable) a).toOption else none
  | .createThread t mode world stack abtSp setup =>
    if t ∈ s.made ∨ t = 0 then none
    else
      some (createThread s t
        ((createKernelThread mode world (s.currentTid + 1) stack abtSp).setup setup))
  | .schedAddThread t block =>
    if t ∈ s.made ∧ ∀ node ∈ block, node ∉ s.list.live then some (schedAddThread s t block) else none
  | .setNonsecureThread t => if t ∈ s.made then some { s with nonsecure := some t } else none
  | .servicePre t => if t ∈ s.made then some { s with service := some t } else none
  | .teeTaskEntry => if s.tee = none then some { s with tee := s.current } else none
  | .blockCurrent => s.current.map fun c => s.setState c .blocked
  | .markReady t => if t ∈ s.made then some (s.setState t .ready) else none

end AndixOs.Sched
