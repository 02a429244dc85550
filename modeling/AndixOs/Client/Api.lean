/-
# The client library

A client calls the `TEEC_*` functions of the application library.  Each of them writes its request into the
`TZ_TEE_SPACE` of the process, hands that to the driver, and reads the answer from where the request was.
The parameters of the requests are a union: here it is what it is in memory, a row of words, so that a
function that reads another member than it wrote reads what is there.

A function returns before it locks `commMutex`, or it goes on under it.  `TeecCall` has these two parts,
and its second part says whether the mutex was unlocked.  A `NULL` that is read ends everything: `none`.
-/
import AndixOs.Swi.Params

namespace AndixOs.Client

open AndixOs AndixOs.Swi AndixOs.Tee

/-! ## 1. The communication space -/

/-- `TZ_TEE_SPACE`.  `params` are the words of the union. -/
structure TzTeeSpace where
  op : UInt32
  ret : UInt32
  params : Nat → UInt32

/-- A word of the union is written. -/
def TzTeeSpace.set (space : TzTeeSpace) (word : Nat) (v : UInt32) : TzTeeSpace :=
  { space with params := Function.update space.params word v }

/-! The words of the members. -/

def initCtxContext : Nat := 0

def regMemContext : Nat := 0
def regMemPaddr : Nat := 1
def regMemSize : Nat := 2
def regMemFlags : Nat := 3
def regMemMemid : Nat := 4

def openSessionContext : Nat := 0
def openSessionSession : Nat := 1
def openSessionUuid : Nat := 2
def openSessionConnectionMethod : Nat := 6
def openSessionConnectionData : Nat := 7
def openSessionOperation : Nat := 8
def openSessionReturnOrigin : Nat := 23

def closeSessionSession : Nat := 0

def invokeCommandSession : Nat := 0
def invokeCommandCommand : Nat := 1
def invokeCommandOperation : Nat := 2

/-! The words of a `TEECOM_Operation` that begins at `base`. -/

def startedWord (base : Nat) : Nat := base
def paramTypesWord (base : Nat) : Nat := base + 1
def paramWord (base : Nat) (pidx : Fin 4) : Nat := base + 2 + 3 * pidx.val
def validWord (base : Nat) : Nat := base + 14

/-- The parameter that the secure world finds there. -/
def TzTeeSpace.param (space : TzTeeSpace) (base : Nat) (pidx : Fin 4) : TeecParamter :=
  ⟨space.params (paramWord base pidx), space.params (paramWord base pidx + 1),
    space.params (paramWord base pidx + 2)⟩

/-- The operation that it finds there. -/
def TzTeeSpace.operation (space : TzTeeSpace) (base : Nat) : TeecomOperation :=
  ⟨space.params (paramTypesWord base), space.param base, space.params (validWord base)⟩

/-- `value.a` and `value.b`, or `tmpref.buffer` and `tmpref.size`, of a parameter are written. -/
def TzTeeSpace.setPair (space : TzTeeSpace) (base : Nat) (pidx : Fin 4) (v w : UInt32) : TzTeeSpace :=
  (space.set (paramWord base pidx) v).set (paramWord base pidx + 1) w

/-- `memref` of a parameter is written. -/
def TzTeeSpace.setMemref (space : TzTeeSpace) (base : Nat) (pidx : Fin 4) (memid size offset : UInt32) :
    TzTeeSpace :=
  (space.setPair base pidx memid size).set (paramWord base pidx + 2) offset

/-! ## 2. The client -/

/-- `TEEC_SharedMemory`. -/
structure TeecSharedMemory where
  buffer : UInt32
  size : UInt32
  flags : UInt32
  memid : UInt32

/-- `TEEC_Parameter`, a union: a value, a temporary memory reference, or a reference to a part of a
shared memory. -/
structure TeecParameter where
  word0 : UInt32
  word1 : UInt32
  word2 : UInt32
  deriving DecidableEq

def TeecParameter.a (p : TeecParameter) : UInt32 := p.word0
def TeecParameter.b (p : TeecParameter) : UInt32 := p.word1
def TeecParameter.buffer (p : TeecParameter) : UInt32 := p.word0
def TeecParameter.parent (p : TeecParameter) : UInt32 := p.word0

/-- `tmpref.size`, and `memref.size`. -/
def TeecParameter.size (p : TeecParameter) : UInt32 := p.word1
def TeecParameter.offset (p : TeecParameter) : UInt32 := p.word2

/-- `TEEC_Operation`. -/
structure TeecOperation where
  started : UInt32
  paramTypes : UInt32
  params : Fin 4 → TeecParameter

/-- The type of a parameter. -/
def TeecOperation.type (op : TeecOperation) (pidx : Fin 4) : TeecType := teeParamTypeGet op.paramTypes pidx

/-- The memory of the process: `comm`, which is `NULL` at the start, and what the pointers of the calls
point to. -/
structure ClientMem where
  comm : Option TzTeeSpace
  context : UInt32 → UInt32
  session : UInt32 → UInt32
  sharedMem : UInt32 → TeecSharedMemory
  operation : UInt32 → TeecOperation

/-- What a call meets: the memory that `malloc` gives, what is in the communication space when
`processComm` is back, and what is taken for the result of `postProcessParameters`, which has none. -/
structure CommEnv where
  fresh : Option TzTeeSpace
  reply : TzTeeSpace
  junk : UInt32

/-! ## 3. `k_comm.c` -/

/-- `getCommSpace`. -/
def getCommSpace (e : CommEnv) (m : ClientMem) : Option TzTeeSpace := m.comm.orElse fun _ => e.fresh

/-- The body of the loop of `preProcessParameters`. -/
def preProcessRound (source : TeecOperation) (sharedMem : UInt32 → TeecSharedMemory) (base : Nat)
    (target : TzTeeSpace) (pidx : Fin 4) : Option (UInt32 × TzTeeSpace) :=
  let p := source.params pidx
  match source.type pidx with
  | .none | .valueOutput => some (teeSuccess, target.setPair base pidx 0 0)
  | .valueInput | .valueInout => some (teeSuccess, target.setPair base pidx p.a p.b)
  | .memrefTempInput | .memrefTempOutput | .memrefTempInout =>
    some (teeSuccess, target.setPair base pidx p.buffer p.size)
  | .memrefPartialInout | .memrefPartialInput | .memrefPartialOutput | .memrefWhole =>
    if p.parent = 0 then none
    else some (teeSuccess, target.setMemref base pidx (sharedMem p.parent).memid p.size p.offset)
  | .unsupported => some (teeErrorBadParameters, target)

/-- `preProcessParameters`. -/
def preProcessParameters (source : TeecOperation) (sharedMem : UInt32 → TeecSharedMemory) (base : Nat)
    (target : TzTeeSpace) : Option (UInt32 × TzTeeSpace) :=
  paramLoop (preProcessRound source sharedMem base) (List.finRange 4)
    ((target.set (paramTypesWord base) source.paramTypes).set (startedWord base) source.started)

/-- The body of the loop of `postProcessParameters`. -/
def postProcessRound (target : TzTeeSpace) (base : Nat) (source : TeecOperation) (pidx : Fin 4) :
    TeecOperation :=
  if source.type pidx = .valueOutput ∨ source.type pidx = .valueInout then
    let p := target.param base pidx
    { source with params := Function.update source.params pidx ⟨p.a, p.b, (source.params pidx).word2⟩ }
  else source

/-- `postProcessParameters`. -/
def postProcessParameters (source : TeecOperation) (base : Nat) (target : TzTeeSpace) :
    TeecOperation × TzTeeSpace :=
  let target := (target.set (paramTypesWord base) source.paramTypes).set (startedWord base) source.started
  ((List.finRange 4).foldl (postProcessRound target base) source, target)

/-! ## 4. `main.c` -/

/-- What a function returns, and what it writes to `returnOrigin`. -/
structure TeecReturn where
  result : Option UInt32
  returnOrigin : Option UInt32

/-- The end of a function that has locked the mutex: whether it was unlocked, and the communication space
before and after `processComm`, if it came to that. -/
structure TeecDone where
  ret : TeecReturn
  mem : ClientMem
  unlocked : Bool
  exchange : Option (TzTeeSpace × TzTeeSpace)

/-- A call: the return before `lockComm`, if there is one, and the rest. -/
structure TeecCall where
  refuse : Option TeecReturn
  body : CommEnv → ClientMem → Option TeecDone

def teecErrorNotSupported : UInt32 := 0xFFFF000A
def teecOriginComms : UInt32 := 0x00000002

/-- `ANDIX_TEE_NAME`. -/
def andixTeeName : String := "ANDIX"

/-- What goes to `returnOrigin` if it is not `NULL`. -/
def toOrigin (returnOrigin : Bool) (origin : UInt32) : Option UInt32 :=
  if returnOrigin then some origin else none

def teecInitializeContext (name : Option String) (context : UInt32) : TeecCall where
  refuse :=
    if name.all (· = andixTeeName) then
      if context = 0 then some ⟨some teeErrorBadParameters, none⟩ else none
    else some ⟨some teecErrorNotSupported, none⟩
  body e m :=
    (getCommSpace e m).map fun space =>
      let sent := { space with op := 0x01 }.set initCtxContext 0
      let space := e.reply
      if space.ret ≠ teeSuccess then
        ⟨⟨some space.ret, none⟩, { m with comm := some space }, false, some (sent, space)⟩
      else
        ⟨⟨some space.ret, none⟩, { m with
          comm := some space
          context := Function.update m.context context (space.params initCtxContext) },
          true, some (sent, space)⟩

def teecFinalizeContext (context : UInt32) : TeecCall where
  refuse := if context = 0 then some ⟨none, none⟩ else none
  body e m :=
    (getCommSpace e m).map fun space =>
      let sent := { space with op := 0x02 }.set initCtxContext (m.context context)
      ⟨⟨none, none⟩, { m with comm := some e.reply, context := Function.update m.context context 0 },
        true, some (sent, e.reply)⟩

def teecRegisterSharedMemory (context sharedMem : UInt32) : TeecCall where
  refuse := if context = 0 ∨ sharedMem = 0 then some ⟨some teeErrorBadParameters, none⟩ else none
  body e m :=
    (getCommSpace e m).map fun space =>
      let mem := m.sharedMem sharedMem
      let sent := (((({ space with op := 0x03 }.set regMemContext (m.context context)).set
        regMemFlags mem.flags).set regMemPaddr mem.buffer).set regMemSize mem.size)
      let space := e.reply
      if space.ret ≠ teeSuccess then
        ⟨⟨some space.ret, none⟩, { m with comm := some space }, false, some (sent, space)⟩
      else
        ⟨⟨some space.ret, none⟩, { m with
          comm := some space
          sharedMem := Function.update m.sharedMem sharedMem
            { mem with memid := space.params regMemMemid } },
          true, some (sent, space)⟩

def teecReleaseSharedMemory (sharedMem : UInt32) : TeecCall where
  refuse := if sharedMem = 0 then some ⟨none, none⟩ else none
  body e m :=
    (getCommSpace e m).map fun space =>
      let mem := m.sharedMem sharedMem
      let sent := ((((({ space with op := 0x05 }.set regMemContext 0).set regMemMemid mem.memid).set
        regMemPaddr mem.buffer).set regMemSize mem.size).set regMemFlags mem.flags)
      ⟨⟨none, none⟩, { m with
        comm := some e.reply
        sharedMem := Function.update m.sharedMem sharedMem { mem with memid := 0 } },
        true, some (sent, e.reply)⟩

/-- `memcpy(&space->params.openSession.uuid, destination, sizeof(TEEC_UUID))`. -/
def TzTeeSpace.setUuid (space : TzTeeSpace) (uuid : Fin 4 → UInt32) : TzTeeSpace :=
  (List.finRange 4).foldl (fun space i => space.set (openSessionUuid + i.val) (uuid i)) space

/-- `TEEC_OpenSession` from `processComm` on. -/
def openSessionExchange (session : UInt32) (returnOrigin : Bool) (e : CommEnv) (m : ClientMem)
    (sent : TzTeeSpace) : TeecDone :=
  let space := e.reply
  ⟨⟨some space.ret, toOrigin returnOrigin (space.params openSessionReturnOrigin)⟩, { m with
    comm := some space
    session :=
      if space.ret = teeSuccess then
        Function.update m.session session (space.params openSessionSession)
      else m.session },
    true, some (sent, space)⟩

def teecOpenSession (context session : UInt32) (destination : Option (Fin 4 → UInt32))
    (connectionMethod connectionData operation : UInt32) (returnOrigin : Bool) : TeecCall where
  refuse :=
    if context = 0 ∨ session = 0 ∨ destination = none then
      some ⟨some teeErrorBadParameters, toOrigin returnOrigin teecOriginComms⟩
    else none
  body e m :=
    (getCommSpace e m).bind fun space => destination.bind fun uuid =>
      let space := (((({ space with op := 0x06 }.set openSessionConnectionData connectionData).set
        openSessionConnectionMethod connectionMethod).set openSessionContext (m.context context)).set
        openSessionSession (m.session session)).setUuid uuid
      if operation ≠ 0 then
        (preProcessParameters (m.operation operation) m.sharedMem openSessionOperation space).map
          fun r =>
            if r.1 ≠ teeSuccess then
              ⟨⟨some teeErrorBadParameters, toOrigin returnOrigin teecOriginComms⟩,
                { m with comm := some r.2 }, true, none⟩
            else
              openSessionExchange session returnOrigin e m
                (r.2.set (validWord openSessionOperation) 1)
      else
        some (openSessionExchange session returnOrigin e m
          (space.set (validWord openSessionOperation) 0))

def teecCloseSession (session : UInt32) : TeecCall where
  refuse := if session = 0 then some ⟨none, none⟩ else none
  body e m :=
    (getCommSpace e m).map fun space =>
      let sent := { space with op := 0x07 }.set closeSessionSession (m.session session)
      ⟨⟨none, none⟩, { m with comm := some e.reply }, true, some (sent, e.reply)⟩

/-- `TEEC_InvokeCommand` from `processComm` on.  The origin is read from `openSession`, where
`invokeCommand` has none. -/
def invokeCommandExchange (operation : UInt32) (returnOrigin : Bool) (e : CommEnv) (m : ClientMem)
    (sent : TzTeeSpace) : TeecDone :=
  let r := postProcessParameters (m.operation operation) invokeCommandOperation e.reply
  let m := { m with
    comm := some r.2
    operation := Function.update m.operation operation r.1 }
  if e.junk ≠ teeSuccess then
    ⟨⟨some teeErrorBadParameters, toOrigin returnOrigin teecOriginComms⟩, m, true, some (sent, e.reply)⟩
  else
    ⟨⟨some r.2.ret, toOrigin returnOrigin (r.2.params openSessionReturnOrigin)⟩, m, true,
      some (sent, e.reply)⟩

def teecInvokeCommand (session commandID operation : UInt32) (returnOrigin : Bool) : TeecCall where
  refuse :=
    if session = 0 then some ⟨some teeErrorBadParameters, toOrigin returnOrigin teecOriginComms⟩
    else none
  body e m :=
    (getCommSpace e m).bind fun space =>
      let space := { space with op := 0x08 }.set invokeCommandCommand commandID
      if operation = 0 then none
      else
        (preProcessParameters (m.operation operation) m.sharedMem invokeCommandOperation space).map
          fun r =>
            if r.1 ≠ teeSuccess then
              ⟨⟨some teeErrorBadParameters, toOrigin returnOrigin teecOriginComms⟩,
                { m with comm := some r.2 }, true, none⟩
            else
              invokeCommandExchange operation returnOrigin e m
                ((r.2.set (validWord invokeCommandOperation) 1).set invokeCommandSession
                  (m.session session))

/-- A call of one of the functions that lock `commMutex`. -/
inductive ClientCall where
  | initializeContext (name : Option String) (context : UInt32)
  | finalizeContext (context : UInt32)
  | registerSharedMemory (context sharedMem : UInt32)
  | releaseSharedMemory (sharedMem : UInt32)
  | openSession (context session : UInt32) (destination : Option (Fin 4 → UInt32))
      (connectionMethod connectionData operation : UInt32) (returnOrigin : Bool)
  | closeSession (session : UInt32)
  | invokeCommand (session commandID operation : UInt32) (returnOrigin : Bool)

def ClientCall.run : ClientCall → TeecCall
  | .initializeContext name context => teecInitializeContext name context
  | .finalizeContext context => teecFinalizeContext context
  | .registerSharedMemory context sharedMem => teecRegisterSharedMemory context sharedMem
  | .releaseSharedMemory sharedMem => teecReleaseSharedMemory sharedMem
  | .openSession context session destination method data operation returnOrigin =>
    teecOpenSession context session destination method data operation returnOrigin
  | .closeSession session => teecCloseSession session
  | .invokeCommand session commandID operation returnOrigin =>
    teecInvokeCommand session commandID operation returnOrigin

end AndixOs.Client
