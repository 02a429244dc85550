/-
# TEE contexts and sessions

The normal world opens contexts, opens sessions in them and invokes trustlets through sessions
(`tee_task.c`, `tee_session.c`, `tee_context.c`).  A session is created and bound to a process in
`tee_open_session`, gets its handle when the trustlet comes back to `swi_get_secure_request`, and
is looked up again there for every later request.

`serve` answers one request from start to end.  What the code under it decides on its own is a
`Choice`: whether `kmalloc` has memory, what `random_next32` returns, what uninitialised memory
holds, how the parameter copies end, and what the trustlet answers.
-/
import AndixOs.Tee.Types

namespace AndixOs.Tee

/-! ## 1. Contexts and sessions -/

/-- `tee_context`.  `ptr` is the address of the structure, which is never freed. -/
structure TeeContext where
  ptr : Nat
  id : UInt32
  deriving DecidableEq

/-- `tee_session`.  The process is `none` for `NULL`. -/
structure TeeSession where
  id : UInt32
  teeApplication : Option Nat
  context : Nat
  teeSessionHandle : UInt32
  deriving DecidableEq

/-- What happened at the boundary to the trustlets, and to contexts.  `opened` is the answer to a
`TA_OPEN_SESSION`; `copied` says whether `parameters_from_userspace` succeeded for it.  `handed` is
a later request as the trustlet gets it, with the command where one is set. -/
inductive TeeEvent where
  | opened (pid : Nat) (session : UInt32) (context : Nat) (result sessionContext : UInt32)
      (copied : Bool)
  | handed (op : TaOperation) (pid : Nat) (session sessionContext : UInt32)
      (commandID : Option UInt32)
  | closed (pid : Nat) (session result : UInt32)
  | finalized (context : Nat)
  deriving DecidableEq

/-- `tee_context_list`, `tee_session_list`, the next address `kmalloc` gives a context, and the
log, newest first. -/
structure TeeState where
  contexts : List TeeContext
  sessions : List TeeSession
  nextPtr : Nat
  log : List TeeEvent

def TeeState.init : TeeState := ⟨[], [], 0, []⟩

/-- The requests of the normal world.  `ret` is what the normal world left in the `ret` field. -/
inductive TeeRequest where
  | initCtx (context : UInt32)
  | finCtx (context : UInt32)
  | openSession (context : UInt32) (uuid : Nat)
  | closeSession (session ret : UInt32)
  | invokeCmd (session command : UInt32)

/-- What the request's outcome depends on besides the state. -/
structure Choice where
  /-- `kmalloc` and `list_add` find memory -/
  allocOk : Bool
  /-- the values `random_next32` returns -/
  draws : List UInt32
  /-- what fresh memory holds in `tee_application` and `tee_session_handle` -/
  staleApp : Option Nat
  staleHandle : UInt32
  /-- the results of `parameters_to_userspace` and `parameters_from_userspace` -/
  toUser : UInt32
  fromUser : UInt32
  /-- `rpc->result` and `rpc->sessionContext` as the trustlet leaves them -/
  result : UInt32
  sessionContext : UInt32

/-- What goes back: `ret`, the context or session id written into the request, and the return
origin; `none` for a field that stays as it came. -/
structure TeeResponse where
  ret : UInt32
  id : Option UInt32
  returnOrigin : Option UInt32
  deriving DecidableEq

/-! ## 2. The two lists -/

def teeContextFind (s : TeeState) (id : UInt32) : Option TeeContext :=
  s.contexts.find? fun c => c.id == id

def teeSessionFind (s : TeeState) (id : UInt32) : Option TeeSession :=
  s.sessions.find? fun x => x.id == id

/-- The `do … while` that draws an id: the first draw that names nothing yet.  `none`: the loop is
still drawing. -/
def drawId (used : UInt32 → Bool) (draws : List UInt32) : Option UInt32 :=
  draws.find? fun id => !used id

/-- `tee_context_create`.  The inner `none` is `NULL`. -/
def teeContextCreate (s : TeeState) (ch : Choice) : Option (Option TeeContext × TeeState) :=
  if ch.allocOk then
    (drawId (fun id => (teeContextFind s id).isSome) ch.draws).map fun id =>
      (some ⟨s.nextPtr, id⟩,
        { s with contexts := s.contexts ++ [⟨s.nextPtr, id⟩], nextPtr := s.nextPtr + 1 })
  else some (none, s)

/-- `tee_context_remove`. -/
def teeContextRemove (s : TeeState) (c : TeeContext) : TeeState :=
  { s with contexts := s.contexts.filter fun x => x.ptr != c.ptr }

/-- `tee_session_create`: the process and the handle are not initialised. -/
def teeSessionCreate (s : TeeState) (c : TeeContext) (ch : Choice) :
    Option (Option TeeSession × TeeState) :=
  if ch.allocOk then
    (drawId (fun id => (teeSessionFind s id).isSome) ch.draws).map fun id =>
      (some ⟨id, ch.staleApp, c.ptr, ch.staleHandle⟩,
        { s with sessions := s.sessions ++ [⟨id, ch.staleApp, c.ptr, ch.staleHandle⟩] })
  else some (none, s)

/-- A store through the pointer to the session with this id. -/
def updateSession (s : TeeState) (id : UInt32) (f : TeeSession → TeeSession) : TeeState :=
  { s with sessions := s.sessions.map fun x => if x.id = id then f x else x }

/-- An event at the boundary. -/
def TeeState.record (s : TeeState) (e : TeeEvent) : TeeState := { s with log := e :: s.log }

/-! ## 3. The trustlet's side: `swi_get_secure_request` -/

/-- A `TA_OPEN_SESSION` from the handler thread's wait to its next one: parameters in, the
trustlet's answer, parameters out, and the handle kept whatever the result was. -/
def serveOpen (s : TeeState) (pid : Nat) (x : TeeSession) (ch : Choice) : TeeResponse × TeeState :=
  if ch.toUser ≠ teeSuccess then (⟨ch.toUser, some x.id, some teeOriginTee⟩, s)
  else
    let s := s.record (.opened pid x.id x.context ch.result ch.sessionContext
      (ch.fromUser == teeSuccess))
    match teeSessionFind s x.id with
    | none => (⟨teeErrorGeneric, some x.id, some teeOriginTee⟩, s)
    | some y =>
      if ch.fromUser ≠ teeSuccess then (⟨ch.fromUser, some x.id, some teeOriginTee⟩, s)
      else (⟨ch.result, some x.id, some teeOriginTrustedApp⟩,
        updateSession s y.id fun z => { z with teeSessionHandle := ch.sessionContext })

/-- A `TA_CLOSE_SESSION`.  The answer is not looked at: `ret` goes back as it came. -/
def serveClose (s : TeeState) (pid : Nat) (session ret : UInt32) (ch : Choice) :
    TeeResponse × TeeState :=
  match teeSessionFind s session with
  | none => (⟨teeErrorGeneric, none, none⟩, s)
  | some x =>
    (⟨ret, none, none⟩,
      (s.record (.handed .taCloseSession pid session x.teeSessionHandle none)).record
        (.closed pid session ch.result))

/-- A `TA_INVOKE`. -/
def serveInvoke (s : TeeState) (pid : Nat) (session command : UInt32) (ch : Choice) :
    TeeResponse × TeeState :=
  match teeSessionFind s session with
  | none => (⟨teeErrorGeneric, none, some teeOriginTee⟩, s)
  | some x =>
    if ch.toUser ≠ teeSuccess then (⟨ch.toUser, none, some teeOriginTee⟩, s)
    else
      let s := s.record (.handed .taInvoke pid session x.teeSessionHandle (some command))
      if ch.fromUser ≠ teeSuccess then (⟨ch.fromUser, none, some teeOriginTee⟩, s)
      else (⟨ch.result, none, some teeOriginTrustedApp⟩, s)

/-! ## 4. The TEE thread's side: `tee_task.c` -/

/-- `tee_init_context`: the context is created before the magic value is checked. -/
def teeInitContext (s : TeeState) (context : UInt32) (ch : Choice) :
    Option (TeeResponse × TeeState) :=
  (teeContextCreate s ch).map fun (c, s) =>
    if context ≠ 0xDEADC then (⟨teeErrorCommunication, none, none⟩, s)
    else
      match c with
      | some c => (⟨teeSuccess, some c.id, none⟩, s)
      | none => (⟨teeErrorOutOfMemory, none, none⟩, s)

/-- `tee_finalize_context`: the sessions of the context stay. -/
def teeFinalizeContext (s : TeeState) (context : UInt32) : TeeResponse × TeeState :=
  match teeContextFind s context with
  | some c => (⟨teeSuccess, none, none⟩, (teeContextRemove s c).record (.finalized c.ptr))
  | none => (⟨teeErrorBadParameters, none, none⟩, s)

/-- `tee_open_session`: the session is in the list before anything can fail. -/
def teeOpenSession (processByUuid : Nat → Option Nat) (s : TeeState) (context : UInt32)
    (uuid : Nat) (ch : Choice) : Option (TeeResponse × TeeState) :=
  match teeContextFind s context with
  | none => some (⟨teeErrorCommunication, none, some teeOriginTee⟩, s)
  | some c =>
    (teeSessionCreate s c ch).map fun (x, s) =>
      match x with
      | none => (⟨teeErrorOutOfMemory, none, some teeOriginTee⟩, s)
      | some x =>
        match processByUuid uuid with
        | none => (⟨teeErrorItemNotFound, none, some teeOriginTee⟩, s)
        | some pid =>
          serveOpen (updateSession s x.id fun z => { z with teeApplication := some pid }) pid x ch

/-- `tee_close_session`. -/
def teeCloseSession (s : TeeState) (session ret : UInt32) (ch : Choice) :
    TeeResponse × TeeState :=
  match teeSessionFind s session with
  | none => (⟨teeErrorOutOfMemory, none, none⟩, s)
  | some x =>
    match x.teeApplication with
    | none => (⟨teeErrorItemNotFound, none, none⟩, s)
    | some pid => serveClose s pid session ret ch

/-- `tee_invoke`. -/
def teeInvoke (s : TeeState) (session command : UInt32) (ch : Choice) : TeeResponse × TeeState :=
  match teeSessionFind s session with
  | none => (⟨teeErrorOutOfMemory, none, none⟩, s)
  | some x =>
    match x.teeApplication with
    | none => (⟨teeErrorItemNotFound, none, none⟩, s)
    | some pid => serveInvoke s pid session command ch

/-- One request from start to end. -/
def serve (processByUuid : Nat → Option Nat) (s : TeeState) :
    TeeRequest × Choice → Option (TeeResponse × TeeState)
  | (.initCtx context, ch) => teeInitContext s context ch
  | (.finCtx context, _) => some (teeFinalizeContext s context)
  | (.openSession context uuid, ch) => teeOpenSession processByUuid s context uuid ch
  | (.closeSession session ret, ch) => some (teeCloseSession s session ret ch)
  | (.invokeCmd session command, ch) => some (teeInvoke s session command ch)

end AndixOs.Tee
