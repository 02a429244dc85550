/-
# The requests of the driver and its tables

A client hands the driver a `TZ_TEE_SPACE`.  `tee_process` calls the `pre` handler of the operation, then
the secure world, then the `post` handler.  Contexts, sessions and memories have two ids each, one for the
clients and one for the secure world, and the driver's tables hold both: `pre` translates from the first
to the second, `post` is to translate back.

A handler has no value where the kernel goes wild: a search in an empty table returns what its result
happened to hold (`Lib.Table`).
-/
import AndixOs.Lib.Table
import AndixOs.Swi.Params

namespace AndixOs.Driver

open AndixOs AndixOs.Swi

/-! ## 1. Constants -/

def teecSuccess : UInt32 := 0x00000000
def teecErrorGeneric : UInt32 := 0xFFFF0000
def teecErrorBadParameters : UInt32 := 0xFFFF0006
def teecErrorOutOfMemory : UInt32 := 0xFFFF000C
def teecErrorCommunication : UInt32 := 0xFFFF000E

def teecConfigSharedmemMaxSize : UInt32 := 0x80000

/-! ## 2. The tables -/

/-- `tee_context`; `ptr` is its own address. -/
structure TeeContext where
  ptr : Nat
  id : UInt32
  tzId : UInt32
  deriving DecidableEq

/-- `tee_session`. -/
structure TeeSession where
  ptr : Nat
  id : UInt32
  ctx : Nat
  tzId : UInt32
  deriving DecidableEq

/-- `tee_shared_memory` in `tee_memories`. -/
structure TeeSharedMemory where
  ptr : Nat
  id : UInt32
  ctx : Nat
  tzId : UInt32
  userAddr : UInt32
  comVaddr : Nat
  comPaddr : UInt32
  size : UInt32
  flags : UInt32
  deriving DecidableEq

/-- `tee_shared_memory` in `tee_tmp_memories`, which has no ids. -/
structure TeeTmpMemory where
  ptr : Nat
  userAddr : UInt32
  comVaddr : Nat
  comPaddr : UInt32
  size : UInt32
  deriving DecidableEq

/-- A `copy_to_user` that was made. -/
structure UserCopy where
  dest : UInt32
  src : Nat
  size : UInt32
  deriving DecidableEq

/-- The four lists.  On record are the copies to the clients, oldest first, and the temporary memories
that are allocated, in a list or not. -/
structure TeeDriver where
  contexts : List TeeContext
  sessions : List TeeSession
  memories : List TeeSharedMemory
  temps : List TeeTmpMemory
  copies : List UserCopy
  live : List Nat
  deriving DecidableEq

/-! ## 3. Requests -/

/-- `TEECOM_Operation`: the parameters with their types.  There are four of them. -/
structure Operation where
  params : List (TeecType × TeecParamter)
  valid : UInt32
  deriving DecidableEq

/-- The operation with these `paramTypes`. -/
def Operation.of (paramTypes : UInt32) (params : Fin 4 → TeecParamter) (valid : UInt32) : Operation where
  params := List.ofFn fun i => (teeParamTypeGet paramTypes i, params i)
  valid := valid

/-- `TZ_TEE_REGISTER_MEM`. -/
structure RegMem where
  context : UInt32
  paddr : UInt32
  size : UInt32
  flags : UInt32
  memid : UInt32
  deriving DecidableEq

/-- `op` and what the handlers use of `params`.  `RELEASE_MEM` has its parameters in `regMem`. -/
inductive TeeParams where
  | initCtx (context : UInt32)
  | finCtx (context : UInt32)
  | regMem (m : RegMem)
  | relMem (m : RegMem)
  | openSession (context session tmpid : UInt32) (operation : Operation)
  | closeSession (session : UInt32)
  | invokeCommand (session : UInt32) (operation : Operation)
  | other (op : UInt32)
  deriving DecidableEq

/-- `TZ_TEE_SPACE`. -/
structure TzTeeSpace where
  ret : UInt32
  params : TeeParams
  deriving DecidableEq

/-- What the secure world writes: the result, the id of what it made, and parameters that are no memory
references. -/
structure Answer where
  ret : UInt32
  id : UInt32
  values : Nat → TeecParamter

def Answer.param (a : Answer) (i : Nat) (x : TeecType × TeecParamter) : TeecType × TeecParamter :=
  if x.1.isTemp || x.1.isRegistered then x else (x.1, a.values i)

/-- The operation as the secure world leaves it. -/
def Answer.operation (a : Answer) (o : Operation) : Operation :=
  { o with params := o.params.mapIdx a.param }

/-- The space as the secure world leaves it. -/
def Answer.space (a : Answer) (space : TzTeeSpace) : TzTeeSpace where
  ret := a.ret
  params :=
    match space.params with
    | .initCtx _ => .initCtx a.id
    | .regMem m => .regMem { m with memid := a.id }
    | .openSession context _ tmpid o => .openSession context a.id tmpid (a.operation o)
    | .invokeCommand session o => .invokeCommand session (a.operation o)
    | p => p

/-! ## 4. Linux -/

/-- The searches. -/
inductive Finder where
  | contextById
  | contextByTzid
  | sessionById
  | sessionByTzid
  | sessionByCtx
  | memoryById
  | memoryByTzid
  | memoryByCtx
  | memoryByPaddr
  | tmpByPaddr
  deriving DecidableEq

/-- What Linux does for one parameter: `kmalloc` of the entry, of its list node and of the buffer, and
whether the copies from and to the client succeed. -/
structure ParamLinux where
  entry : Option Nat
  node : Bool
  buf : Option Nat
  copiedIn : Bool
  copiedOut : Bool

/-- What Linux does in one request.

* `unset`: whether the result of a search happens to be `NULL` at first
* `pages`: whether `allocate_mapable_memory` succeeds
* `entry`, `node`, `buf`: `kmalloc` of a new entry, of its list node and of its buffer
* `newId`: the id with which the loop of `get_random_bytes` ends
* `junk`: what a new entry holds in its `tz_id`
* `freed`: what an entry holds in its `id` after `kfree` -/
structure Linux where
  unset : Finder → Bool
  pages : Bool
  pid : UInt32
  entry : Option Nat
  node : Bool
  buf : Option Nat
  newId : UInt32
  junk : UInt32
  freed : UInt32
  virtToPhys : Nat → UInt32
  param : Nat → ParamLinux

variable (l : Linux)

/-- `tee_list_add`, which is not asked whether it failed. -/
def listAdd {α : Type} (node : Bool) (x : α) (xs : List α) : List α := if node then xs ++ [x] else xs

section ListAdd

variable {α : Type} {key : α → Nat} {x : α} {xs : List α}

/-- An entry that is added and freed. -/
theorem remove_listAdd (node : Bool) (hx : key x ∉ xs.map key) :
    remove key (key x) (listAdd node x xs) = xs := by
  cases node with
  | false => exact remove_of_not_mem hx
  | true => exact (remove_append_right hx).trans ((congrArg _ remove_cons_self).trans (List.append_nil xs))

/-- An entry that is added and written to. -/
theorem modify_listAdd (node : Bool) (f : α → α) (hx : key x ∉ xs.map key) :
    modify key (key x) f (listAdd node x xs) = listAdd node (f x) xs := by
  cases node with
  | false => exact modify_of_not_mem hx
  | true => exact modify_snoc key hx

end ListAdd

def teeContextFindById (id : UInt32) (s : TeeDriver) : Option (Option TeeContext) :=
  lookup (l.unset .contextById) (fun x => x.id = id) s.contexts

def teeContextFindByTzid (tzid : UInt32) (s : TeeDriver) : Option (Option TeeContext) :=
  lookup (l.unset .contextByTzid) (fun x => x.tzId = tzid) s.contexts

def teeSessionFindById (id : UInt32) (s : TeeDriver) : Option (Option TeeSession) :=
  lookup (l.unset .sessionById) (fun x => x.id = id) s.sessions

def teeSessionFindByTzid (tzid : UInt32) (s : TeeDriver) : Option (Option TeeSession) :=
  lookup (l.unset .sessionByTzid) (fun x => x.tzId = tzid) s.sessions

def teeMemoryFindById (id : UInt32) (s : TeeDriver) : Option (Option TeeSharedMemory) :=
  lookup (l.unset .memoryById) (fun x => x.id = id) s.memories

def teeMemoryFindByTzid (tzid : UInt32) (s : TeeDriver) : Option (Option TeeSharedMemory) :=
  lookup (l.unset .memoryByTzid) (fun x => x.tzId = tzid) s.memories

def teeMemoryFindByPaddr (paddr : UInt32) (s : TeeDriver) : Option (Option TeeSharedMemory) :=
  lookup (l.unset .memoryByPaddr) (fun x => x.comPaddr = paddr) s.memories

def teeTmpMemoryFindByPaddr (paddr : UInt32) (s : TeeDriver) : Option (Option TeeTmpMemory) :=
  lookup (l.unset .tmpByPaddr) (fun x => x.comPaddr = paddr) s.temps

/-- What an `add` returns: no value where the kernel goes wild or its loop does not end with `newId`,
`none` where there is no memory. -/
abbrev Added (α : Type) : Type := Option (Option (α × TeeDriver))

/-- The end of the loop of an `add`: no entry has the new id. -/
def Added.afterLoop {α β : Type} (found : Option (Option α)) (r : β × TeeDriver) : Added β :=
  match found with
  | some none => some (some r)
  | _ => none

/-- `tee_context_add`.  The id of the loop is overwritten. -/
def teeContextAdd (s : TeeDriver) : Added TeeContext :=
  match l.entry with
  | none => some none
  | some ptr =>
    let ctx : TeeContext := ⟨ptr, l.pid, l.junk⟩
    Added.afterLoop (teeContextFindById l l.newId s)
      (ctx, { s with contexts := listAdd l.node ctx s.contexts })

/-- `tee_session_add`. -/
def teeSessionAdd (ctx : TeeContext) (s : TeeDriver) : Added TeeSession :=
  match l.entry with
  | none => some none
  | some ptr =>
    let session : TeeSession := ⟨ptr, l.newId, ctx.ptr, l.junk⟩
    Added.afterLoop (teeSessionFindById l l.newId s)
      (session, { s with sessions := listAdd l.node session s.sessions })

/-- `tee_memory_add`.  The other fields of the entry are not set yet. -/
def teeMemoryAdd (ctx : TeeContext) (s : TeeDriver) : Added TeeSharedMemory :=
  match l.entry with
  | none => some none
  | some ptr =>
    let mem : TeeSharedMemory := ⟨ptr, l.newId, ctx.ptr, l.junk, 0, 0, 0, 0, 0⟩
    Added.afterLoop (teeMemoryFindById l l.newId s)
      (mem, { s with memories := listAdd l.node mem s.memories })

/-- `tee_context_free`, `tee_session_free`, `tee_memory_free`. -/
def teeContextFree (ctx : TeeContext) (s : TeeDriver) : TeeDriver :=
  { s with contexts := remove TeeContext.ptr ctx.ptr s.contexts }

def teeSessionFree (session : TeeSession) (s : TeeDriver) : TeeDriver :=
  { s with sessions := remove TeeSession.ptr session.ptr s.sessions }

def teeMemoryFree (mem : TeeSharedMemory) (s : TeeDriver) : TeeDriver :=
  { s with memories := remove TeeSharedMemory.ptr mem.ptr s.memories }

/-- `tee_tmp_mem_add`, with what is written to the entry after it. -/
def teeTmpMemAdd (node : Bool) (mem : TeeTmpMemory) (s : TeeDriver) : TeeDriver :=
  { s with temps := listAdd node mem s.temps, live := s.live ++ [mem.ptr] }

/-- `tee_tmp_mem_free`. -/
def teeTmpMemFree (mem : TeeTmpMemory) (s : TeeDriver) : TeeDriver :=
  { s with temps := remove TeeTmpMemory.ptr mem.ptr s.temps, live := s.live.erase mem.ptr }

def TeeDriver.copyToUser (c : UserCopy) (s : TeeDriver) : TeeDriver := { s with copies := s.copies ++ [c] }

/-! ## 5. Parameters -/

/-- A parameter after its translation, or an error. -/
structure ParamDone where
  error : Option UInt32
  param : TeecParamter
  driver : TeeDriver

/-- The address of a memory reference set. -/
def withRef (p : TeecParamter) (w : UInt32) : TeecParamter := { p with word0 := w }

/-- The body of the loop of `tee_translate_parameter_to_tz`. -/
def paramToTz (i : Nat) (t : TeecType) (p : TeecParamter) (s : TeeDriver) : Option ParamDone :=
  if t.isTemp then
    match (l.param i).entry with
    | none => some ⟨some teecErrorBadParameters, p, s⟩
    | some ptr =>
      match (l.param i).buf with
      | none =>
        let mem : TeeTmpMemory := ⟨ptr, p.buffer, 0, l.junk, p.size⟩
        some ⟨some teecErrorOutOfMemory, p, teeTmpMemFree mem (teeTmpMemAdd (l.param i).node mem s)⟩
      | some vaddr =>
        let mem : TeeTmpMemory := ⟨ptr, p.buffer, vaddr, l.virtToPhys vaddr, p.size⟩
        let s := teeTmpMemAdd (l.param i).node mem s
        if t ≠ .memrefTempOutput ∧ !(l.param i).copiedIn then some ⟨some teecErrorCommunication, p, s⟩
        else some ⟨none, withRef p mem.comPaddr, s⟩
  else if t.isRegistered then
    match teeMemoryFindById l p.memid s with
    | none => none
    | some none => some ⟨some teecErrorBadParameters, p, s⟩
    | some (some mem) =>
      if t ≠ .memrefPartialOutput ∧ !(l.param i).copiedIn then some ⟨some teecErrorCommunication, p, s⟩
      else some ⟨none, withRef p mem.tzId, s⟩
  else some ⟨none, p, s⟩

/-- The body of the loop of `tee_translate_parameter_from_tz`. -/
def paramFromTz (i : Nat) (t : TeecType) (p : TeecParamter) (s : TeeDriver) : Option ParamDone :=
  if t.isTemp then
    match teeTmpMemoryFindByPaddr l p.buffer s with
    | none => none
    | some none => some ⟨some teecErrorBadParameters, p, s⟩
    | some (some mem) =>
      if t = .memrefTempInput then some ⟨none, withRef p mem.userAddr, teeTmpMemFree mem s⟩
      else if (l.param i).copiedOut then
        some ⟨none, withRef p mem.userAddr,
          teeTmpMemFree mem (s.copyToUser ⟨mem.userAddr, mem.comVaddr, mem.size⟩)⟩
      else some ⟨some teecErrorCommunication, p, s⟩
  else if t.isRegistered then
    match teeMemoryFindByTzid l p.memid s with
    | none => none
    | some none => some ⟨some teecErrorBadParameters, p, s⟩
    | some (some mem) =>
      if t = .memrefPartialInput then some ⟨none, withRef p mem.id, s⟩
      else if (l.param i).copiedOut then
        some ⟨none, withRef p mem.id, s.copyToUser ⟨mem.userAddr, mem.comVaddr, mem.size⟩⟩
      else some ⟨some teecErrorCommunication, p, s⟩
  else some ⟨none, p, s⟩

/-- The parameters after a loop over them. -/
structure ParamsDone where
  error : Option UInt32
  params : List (TeecType × TeecParamter)
  driver : TeeDriver

/-- The loops.  The first error ends them. -/
def paramLoop (body : Nat → TeecType → TeecParamter → TeeDriver → Option ParamDone) :
    Nat → List (TeecType × TeecParamter) → TeeDriver → Option ParamsDone
  | _, [], s => some ⟨none, [], s⟩
  | i, (t, p) :: ps, s =>
    match body i t p s with
    | none => none
    | some ⟨some e, p, s⟩ => some ⟨some e, (t, p) :: ps, s⟩
    | some ⟨none, p, s⟩ =>
      (paramLoop body (i + 1) ps s).map fun r => { r with params := (t, p) :: r.params }

/-! ## 6. Handlers -/

/-- What a handler leaves. -/
structure Handled where
  success : Bool
  space : TzTeeSpace
  driver : TeeDriver
  deriving DecidableEq

/-- `TEE_EVENT_RET_SUCCESS`. -/
def Handled.ok (space : TzTeeSpace) (p : TeeParams) (s : TeeDriver) : Option Handled :=
  some ⟨true, { space with params := p }, s⟩

/-- `TEE_EVENT_RET_ERROR`. -/
def Handled.error (space : TzTeeSpace) (ret : UInt32) (s : TeeDriver) : Option Handled :=
  some ⟨false, { space with ret := ret }, s⟩

/-- The end of a handler that returns what a translation returns. -/
def Handled.translated (space : TzTeeSpace) (o : Operation) (p : Operation → TeeParams)
    (r : Option ParamsDone) : Option Handled :=
  r.map fun r =>
    ⟨r.error = none, ⟨r.error.getD space.ret, p { o with params := r.params }⟩, r.driver⟩

/-- A handler that goes on with what was found or added, and fails where that is `NULL`. -/
def orError {α : Type} (found : Option (Option α)) (space : TzTeeSpace) (ret : UInt32) (s : TeeDriver)
    (f : α → Option Handled) : Option Handled :=
  match found with
  | none => none
  | some none => Handled.error space ret s
  | some (some x) => f x

/-- `tee_ctx_init_pre`. -/
def teeCtxInitPre (space : TzTeeSpace) (s : TeeDriver) : Option Handled :=
  Handled.ok space (.initCtx 0xDEADC) s

/-- `tee_ctx_init_post`. -/
def teeCtxInitPost (space : TzTeeSpace) (context : UInt32) (s : TeeDriver) : Option Handled :=
  orError (teeContextAdd l s) space teecErrorOutOfMemory s fun (ctx, s) =>
    Handled.ok space (.initCtx ctx.id)
      { s with contexts := modify TeeContext.ptr ctx.ptr ({ · with tzId := context }) s.contexts }

/-- `tee_ctx_finalize_pre`. -/
def teeCtxFinalizePre (space : TzTeeSpace) (context : UInt32) (s : TeeDriver) : Option Handled :=
  orError (teeContextFindById l context s) space teecErrorBadParameters s fun ctx =>
    Handled.ok space (.finCtx ctx.tzId) s

/-- `tee_ctx_finalize_post`.  The buffers of the memories are not given back. -/
def teeCtxFinalizePost (space : TzTeeSpace) (context : UInt32) (s : TeeDriver) : Option Handled :=
  match teeContextFindByTzid l context s with
  | none => none
  | some none => some ⟨true, space, s⟩
  | some (some kill) =>
    match purge (l.unset .sessionByCtx) (fun x => x.ctx = kill.ptr) TeeSession.ptr
        (s.sessions.length + 1) s.sessions,
      purge (l.unset .memoryByCtx) (fun x => x.ctx = kill.ptr) TeeSharedMemory.ptr
        (s.memories.length + 1) s.memories with
    | some sessions, some memories =>
      Handled.ok space (.finCtx 0)
        (teeContextFree kill { s with sessions := sessions, memories := memories })
    | _, _ => none

/-- What `tee_mem_reg_pre` writes to the new entry. -/
def RegMem.fill (m : RegMem) (vaddr : Nat) (paddr : UInt32) (mem : TeeSharedMemory) : TeeSharedMemory :=
  { mem with
    userAddr := m.paddr
    comVaddr := vaddr
    comPaddr := paddr
    size := m.size
    flags := m.flags }

/-- `tee_mem_reg_pre`. -/
def teeMemRegPre (space : TzTeeSpace) (m : RegMem) (s : TeeDriver) : Option Handled :=
  if m.size > teecConfigSharedmemMaxSize then Handled.error space teecErrorBadParameters s
  else
    orError (teeContextFindById l m.context s) space teecErrorBadParameters s fun ctx =>
      orError (teeMemoryAdd l ctx s) space teecErrorOutOfMemory s fun (mem, s) =>
        match l.buf with
        | none => Handled.error space teecErrorOutOfMemory (teeMemoryFree mem s)
        | some vaddr =>
          let paddr := l.virtToPhys vaddr
          Handled.ok space (.regMem { m with paddr := paddr, context := ctx.tzId })
            { s with memories := modify TeeSharedMemory.ptr mem.ptr (m.fill vaddr paddr) s.memories }

/-- `tee_mem_reg_post`. -/
def teeMemRegPost (space : TzTeeSpace) (m : RegMem) (s : TeeDriver) : Option Handled :=
  orError (teeContextFindByTzid l m.context s) space teecErrorBadParameters s fun _ =>
    orError (teeMemoryFindByPaddr l m.paddr s) space teecErrorGeneric s fun mem =>
      Handled.ok space (.regMem { m with memid := mem.id })
        { s with memories := modify TeeSharedMemory.ptr mem.ptr ({ · with tzId := m.memid }) s.memories }

/-- `tee_mem_rel_pre`. -/
def teeMemRelPre (space : TzTeeSpace) (m : RegMem) (s : TeeDriver) : Option Handled :=
  orError (teeMemoryFindById l m.memid s) space teecErrorBadParameters s fun mem =>
    if mem.userAddr ≠ m.paddr then Handled.error space teecErrorBadParameters s
    else if mem.size ≠ m.size then Handled.error space teecErrorBadParameters s
    else if mem.flags ≠ m.flags then Handled.error space teecErrorBadParameters s
    else Handled.ok space (.relMem { m with memid := mem.tzId }) s

/-- `tee_mem_rel_post`, which reads the id after `kfree`. -/
def teeMemRelPost (space : TzTeeSpace) (m : RegMem) (s : TeeDriver) : Option Handled :=
  orError (teeMemoryFindByTzid l m.memid s) space teecErrorBadParameters s fun mem =>
    Handled.ok space (.relMem { m with memid := l.freed }) (teeMemoryFree mem s)

/-- `tee_session_open_pre`. -/
def teeSessionOpenPre (space : TzTeeSpace) (context session : UInt32) (o : Operation) (s : TeeDriver) :
    Option Handled :=
  orError (teeContextFindById l context s) space teecErrorBadParameters s fun ctx =>
    orError (teeSessionAdd l ctx s) space teecErrorOutOfMemory s fun (new, s) =>
      if o.valid = 1 then
        Handled.translated space o (.openSession ctx.tzId session new.id)
          (paramLoop (paramToTz l) 0 o.params s)
      else Handled.ok space (.openSession ctx.tzId session new.id o) s

/-- `tee_session_open_post`. -/
def teeSessionOpenPost (space : TzTeeSpace) (context session tmpid : UInt32) (o : Operation)
    (s : TeeDriver) : Option Handled :=
  orError (teeContextFindByTzid l context s) space teecErrorBadParameters s fun ctx =>
    orError (teeSessionFindById l tmpid s) space teecErrorOutOfMemory s fun new =>
      Handled.ok space (.openSession ctx.id new.id tmpid o)
        { s with sessions := modify TeeSession.ptr new.ptr ({ · with tzId := session }) s.sessions }

/-- `tee_session_close_pre`. -/
def teeSessionClosePre (space : TzTeeSpace) (session : UInt32) (s : TeeDriver) : Option Handled :=
  orError (teeSessionFindById l session s) space teecErrorBadParameters s fun x =>
    Handled.ok space (.closeSession x.tzId) s

/-- `tee_session_close_post`. -/
def teeSessionClosePost (space : TzTeeSpace) (session : UInt32) (s : TeeDriver) : Option Handled :=
  orError (teeSessionFindByTzid l session s) space teecErrorBadParameters s fun x =>
    Handled.ok space (.closeSession x.id) (teeSessionFree x s)

/-- `tee_invoke_pre`. -/
def teeInvokePre (space : TzTeeSpace) (session : UInt32) (o : Operation) (s : TeeDriver) :
    Option Handled :=
  orError (teeSessionFindById l session s) space teecErrorBadParameters s fun x =>
    Handled.translated space o (.invokeCommand x.tzId) (paramLoop (paramToTz l) 0 o.params s)

/-- `tee_invoke_post`. -/
def teeInvokePost (space : TzTeeSpace) (session : UInt32) (o : Operation) (s : TeeDriver) :
    Option Handled :=
  orError (teeSessionFindByTzid l session s) space teecErrorOutOfMemory s fun x =>
    Handled.translated space o (.invokeCommand x.id) (paramLoop (paramFromTz l) 0 o.params s)

/-! ## 7. `tee_process` -/

/-- `event->pre`, or an error where the operation has no event. -/
def eventPre (space : TzTeeSpace) (s : TeeDriver) : Option Handled :=
  match space.params with
  | .initCtx _ => teeCtxInitPre space s
  | .finCtx context => teeCtxFinalizePre l space context s
  | .regMem m => teeMemRegPre l space m s
  | .relMem m => teeMemRelPre l space m s
  | .openSession context session _ o => teeSessionOpenPre l space context session o s
  | .closeSession session => teeSessionClosePre l space session s
  | .invokeCommand session o => teeInvokePre l space session o s
  | .other _ => Handled.error space teecErrorCommunication s

/-- `event->post`. -/
def eventPost (space : TzTeeSpace) (s : TeeDriver) : Option Handled :=
  match space.params with
  | .initCtx context => teeCtxInitPost l space context s
  | .finCtx context => teeCtxFinalizePost l space context s
  | .regMem m => teeMemRegPost l space m s
  | .relMem m => teeMemRelPost l space m s
  | .openSession context session tmpid o => teeSessionOpenPost l space context session tmpid o s
  | .closeSession session => teeSessionClosePost l space session s
  | .invokeCommand session o => teeInvokePost l space session o s
  | .other _ => Handled.error space teecErrorCommunication s

/-- What happens to the result of a handler: an error of any kind reaches the client as one of
communication. -/
def Handled.report (h : Handled) : Handled :=
  if h.success then h else { h with space := { h.space with ret := teecErrorCommunication } }

/-- `tee_process`: the space is the one that the client gets back.  Its pages are given back before they
are copied to the client; they are taken to hold it still. -/
def teeProcess (a : Answer) (space : TzTeeSpace) (s : TeeDriver) : Option Handled :=
  if l.pages then
    (eventPre l space s).bind fun h =>
      if h.success then (eventPost l (a.space h.space) h.driver).map Handled.report else some h.report
  else some ⟨false, space, s⟩

/-! ## 8. What is accepted -/

/-- The request reaches the secure world. -/
def Accepted (space : TzTeeSpace) (s : TeeDriver) : Prop :=
  l.pages = true ∧ ∃ h, eventPre l space s = some h ∧ h.success = true

section Accepted

variable {l} {space : TzTeeSpace} {s : TeeDriver} {h : Handled} {context session : UInt32}
  {m : RegMem} {o : Operation}

theorem ok_eq {p : TeeParams} : Handled.ok space p s = some h ↔ h = ⟨true, { space with params := p }, s⟩ := by
  rw [Handled.ok, Option.some.injEq, eq_comm]

theorem not_error {ret : UInt32} (hs : h.success = true) : Handled.error space ret s ≠ some h := by
  rintro ⟨rfl⟩
  exact absurd hs nofun

theorem orError_none {α : Type} {ret : UInt32} {f : α → Option Handled} :
    orError (some none) space ret s f = Handled.error space ret s := rfl

theorem orError_some {α : Type} {x : α} {ret : UInt32} {f : α → Option Handled} :
    orError (some (some x)) space ret s f = f x := rfl

theorem report_driver (h : Handled) : h.report.driver = h.driver := by
  rw [Handled.report]
  split <;> rfl

theorem report_params (h : Handled) : h.report.space.params = h.space.params := by
  rw [Handled.report]
  split <;> rfl

/-- A handler that succeeds has found something. -/
theorem orError_ok {α : Type} {found : Option (Option α)} {ret : UInt32} {f : α → Option Handled}
    (hs : h.success = true) (hh : orError found space ret s f = some h) :
    ∃ x, found = some (some x) ∧ f x = some h := by
  match found, hh with
  | none, hh => exact absurd hh nofun
  | some none, hh => exact absurd hh (not_error hs)
  | some (some x), hh => exact ⟨x, rfl, hh⟩

/-- The loop of an `add` has ended: the entry is new. -/
theorem afterLoop_eq {α β : Type} {found : Option (Option α)} {r r' : β × TeeDriver}
    (hr : Added.afterLoop found r = some (some r')) : found = some none ∧ r' = r := by
  match found, hr with
  | some none, hr => exact ⟨rfl, (Option.some.inj (Option.some.inj hr)).symm⟩

theorem translated_ok {p : Operation → TeeParams} {r : Option ParamsDone} (hs : h.success = true)
    (hh : Handled.translated space o p r = some h) :
    ∃ r', r = some r' ∧ r'.error = none ∧
      h = ⟨true, { space with params := p { o with params := r'.params } }, r'.driver⟩ := by
  obtain ⟨r', rfl, rfl⟩ := Option.map_eq_some_iff.mp hh
  have herr : r'.error = none := of_decide_eq_true hs
  refine ⟨r', rfl, herr, ?_⟩
  rw [herr]
  rfl

theorem teeCtxFinalizePre_ok (hs : h.success = true) (hh : teeCtxFinalizePre l space context s = some h) :
    ∃ c, s.contexts.find? (fun x => x.id = context) = some c ∧
      h = ⟨true, { space with params := .finCtx c.tzId }, s⟩ := by
  obtain ⟨c, hc, hh⟩ := orError_ok hs hh
  exact ⟨c, lookup_eq_some hc, ok_eq.mp hh⟩

/-- The new entry of `tee_mem_reg_pre`. -/
def newMemory (l : Linux) (c : TeeContext) (m : RegMem) (ptr vaddr : Nat) : TeeSharedMemory :=
  m.fill vaddr (l.virtToPhys vaddr) ⟨ptr, l.newId, c.ptr, l.junk, 0, 0, 0, 0, 0⟩

theorem teeMemRegPre_ok (hptr : ∀ p ∈ l.entry, p ∉ s.memories.map TeeSharedMemory.ptr)
    (hs : h.success = true) (hh : teeMemRegPre l space m s = some h) :
    ∃ c ptr vaddr, s.contexts.find? (fun x => x.id = m.context) = some c ∧
      l.entry = some ptr ∧ l.buf = some vaddr ∧
      lookup (l.unset .memoryById) (fun x : TeeSharedMemory => x.id = l.newId) s.memories = some none ∧
      h = ⟨true,
        { space with params := .regMem { m with paddr := l.virtToPhys vaddr, context := c.tzId } },
        { s with memories := listAdd l.node (newMemory l c m ptr vaddr) s.memories }⟩ := by
  by_cases hsize : m.size > teecConfigSharedmemMaxSize
  · exact absurd ((if_pos hsize).symm.trans hh) (not_error hs)
  replace hh := (if_neg hsize).symm.trans hh
  obtain ⟨c, hc, hh⟩ := orError_ok hs hh
  obtain ⟨⟨mem, s'⟩, hadd, hh⟩ := orError_ok hs hh
  cases hentry : l.entry with
  | none => simp [teeMemoryAdd, hentry] at hadd
  | some ptr =>
    simp only [teeMemoryAdd, hentry] at hadd
    obtain ⟨hnew, hadd⟩ := afterLoop_eq hadd
    obtain ⟨rfl, rfl⟩ := Prod.mk.inj hadd
    cases hbuf : l.buf with
    | none =>
      simp only [hbuf] at hh
      exact absurd hh (not_error hs)
    | some vaddr =>
      simp only [hbuf] at hh
      refine ⟨c, ptr, vaddr, lookup_eq_some hc, rfl, rfl, hnew, ?_⟩
      rw [ok_eq.mp hh]
      -- the fields are written where the entry stands
      simp only [modify_listAdd (x := (⟨ptr, l.newId, c.ptr, l.junk, 0, 0, 0, 0, 0⟩ : TeeSharedMemory)) l.node
        (m.fill vaddr (l.virtToPhys vaddr)) (hptr ptr hentry)]
      rfl

theorem teeMemRelPre_ok (hs : h.success = true) (hh : teeMemRelPre l space m s = some h) :
    ∃ x, s.memories.find? (fun x => x.id = m.memid) = some x ∧
      h = ⟨true, { space with params := .relMem { m with memid := x.tzId } }, s⟩ := by
  obtain ⟨x, hx, hh⟩ := orError_ok hs hh
  refine ⟨x, lookup_eq_some hx, ?_⟩
  split at hh
  · exact absurd hh (not_error hs)
  split at hh
  · exact absurd hh (not_error hs)
  split at hh
  · exact absurd hh (not_error hs)
  · exact ok_eq.mp hh

/-- The new entry of `tee_session_open_pre`, and the driver with it. -/
def newSession (l : Linux) (c : TeeContext) (ptr : Nat) : TeeSession := ⟨ptr, l.newId, c.ptr, l.junk⟩

def withNewSession (l : Linux) (c : TeeContext) (ptr : Nat) (s : TeeDriver) : TeeDriver :=
  { s with sessions := listAdd l.node (newSession l c ptr) s.sessions }

theorem teeSessionOpenPre_ok (hs : h.success = true)
    (hh : teeSessionOpenPre l space context session o s = some h) :
    ∃ c ptr, s.contexts.find? (fun x => x.id = context) = some c ∧ l.entry = some ptr ∧
      lookup (l.unset .sessionById) (fun x : TeeSession => x.id = l.newId) s.sessions = some none ∧
      ∃ ps s',
        (if o.valid = 1 then paramLoop (paramToTz l) 0 o.params (withNewSession l c ptr s)
          else some ⟨none, o.params, withNewSession l c ptr s⟩) = some ⟨none, ps, s'⟩ ∧
        h = ⟨true, { space with params := .openSession c.tzId session l.newId { o with params := ps } }, s'⟩ := by
  obtain ⟨c, hc, hh⟩ := orError_ok hs hh
  obtain ⟨⟨new, s'⟩, hadd, hh⟩ := orError_ok hs hh
  cases hentry : l.entry with
  | none => simp [teeSessionAdd, hentry] at hadd
  | some ptr =>
    simp only [teeSessionAdd, hentry] at hadd
    obtain ⟨hnew, hadd⟩ := afterLoop_eq hadd
    obtain ⟨rfl, rfl⟩ := Prod.mk.inj hadd
    refine ⟨c, ptr, lookup_eq_some hc, rfl, hnew, ?_⟩
    by_cases hvalid : o.valid = 1
    · simp only [if_pos hvalid] at hh
      obtain ⟨⟨e, ps, s'⟩, hloop, rfl, rfl⟩ := translated_ok hs hh
      exact ⟨ps, s', (if_pos hvalid).trans hloop, rfl⟩
    · simp only [if_neg hvalid] at hh
      exact ⟨o.params, _, if_neg hvalid, ok_eq.mp hh⟩

theorem teeSessionClosePre_ok (hs : h.success = true) (hh : teeSessionClosePre l space session s = some h) :
    ∃ x, s.sessions.find? (fun x => x.id = session) = some x ∧
      h = ⟨true, { space with params := .closeSession x.tzId }, s⟩ := by
  obtain ⟨x, hx, hh⟩ := orError_ok hs hh
  exact ⟨x, lookup_eq_some hx, ok_eq.mp hh⟩

/-- A request is not accepted, or goes on to `post`. -/
theorem teeProcess_cases {a : Answer} {r : Handled} (hr : teeProcess l a space s = some r) :
    (l.pages = false ∧ r.driver = s) ∨ ∃ h, l.pages = true ∧ eventPre l space s = some h ∧
      ((h.success = false ∧ r.driver = h.driver) ∨
        (h.success = true ∧ ∃ r', eventPost l (a.space h.space) h.driver = some r' ∧
          r.driver = r'.driver)) := by
  rw [teeProcess] at hr
  cases hpages : l.pages with
  | false =>
    rw [hpages] at hr
    obtain rfl := Option.some.inj hr
    exact .inl ⟨rfl, rfl⟩
  | true =>
    rw [hpages, if_pos rfl] at hr
    obtain ⟨h, hpre, hr⟩ := Option.bind_eq_some_iff.mp hr
    refine .inr ⟨h, rfl, hpre, ?_⟩
    split at hr
    · rename_i hs
      obtain ⟨r', hpost, rfl⟩ := Option.map_eq_some_iff.mp hr
      exact .inr ⟨hs, r', hpost, report_driver r'⟩
    · rename_i hs
      obtain rfl := Option.some.inj hr
      exact .inl ⟨(Bool.not_eq_true _).mp hs, report_driver h⟩

theorem teeInvokePre_ok (hs : h.success = true) (hh : teeInvokePre l space session o s = some h) :
    ∃ x ps s', s.sessions.find? (fun x => x.id = session) = some x ∧
      paramLoop (paramToTz l) 0 o.params s = some ⟨none, ps, s'⟩ ∧
      h = ⟨true, { space with params := .invokeCommand x.tzId { o with params := ps } }, s'⟩ := by
  obtain ⟨x, hx, hh⟩ := orError_ok hs hh
  obtain ⟨⟨e, ps, s'⟩, hloop, rfl, rfl⟩ := translated_ok hs hh
  exact ⟨x, ps, s', lookup_eq_some hx, hloop, rfl⟩

end Accepted

/-- A Linux in which all goes well. -/
def calmLinux : Linux where
  unset := fun _ => true
  pages := true
  pid := 42
  entry := some 10
  node := true
  buf := some 11
  newId := 6
  junk := 0
  freed := 0
  virtToPhys := fun v => 0x60000000 + v.toUInt32
  param := fun i => ⟨some (100 + 2 * i), true, some (101 + 2 * i), true, true⟩

end AndixOs.Driver
