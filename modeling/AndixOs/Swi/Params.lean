/-
# The parameters of a request

An operation of the normal world has up to four parameters.  `parameters_to_userspace` hands them to
the trustlet: values go into its `TA_RPC`, and for a memory reference the kernel allocates a buffer
in the trustlet and copies the memory there.  `parameters_from_userspace` brings the results back
and is to release what the other has taken.

A data abort of the kernel ends everything: the functions return `none`.
-/
import AndixOs.Mm.Kernel
import AndixOs.Tee.Memory
import AndixOs.Lib.Run

namespace AndixOs.Swi

open AndixOs AndixOs.Mm AndixOs.Tee

/-! ## 1. Operations -/

/-- `TEEC_Paramter`, a union: a value, a temporary memory reference, or a reference to registered
memory. -/
structure TeecParamter where
  word0 : UInt32
  word1 : UInt32
  word2 : UInt32
  deriving DecidableEq

def TeecParamter.a (p : TeecParamter) : UInt32 := p.word0
def TeecParamter.b (p : TeecParamter) : UInt32 := p.word1

/-- `tmpref.buffer`, a physical address. -/
def TeecParamter.buffer (p : TeecParamter) : UInt32 := p.word0

/-- `tmpref.size`, and `memref.size`. -/
def TeecParamter.size (p : TeecParamter) : UInt32 := p.word1
def TeecParamter.memid (p : TeecParamter) : UInt32 := p.word0
def TeecParamter.offset (p : TeecParamter) : UInt32 := p.word2

/-- `TEEC_*`. -/
inductive TeecType where
  | none
  | valueInput
  | valueOutput
  | valueInout
  | memrefTempInput
  | memrefTempOutput
  | memrefTempInout
  | memrefWhole
  | memrefPartialInput
  | memrefPartialOutput
  | memrefPartialInout
  | unsupported
  deriving DecidableEq

/-- `TEE_PARAM_TYPE_GET`. -/
def teeParamTypeGet (t : UInt32) (i : Fin 4) : TeecType :=
  match t.toNat / 2 ^ (i.val * 4) % 16 with
  | 0x0 => .none
  | 0x1 => .valueInput
  | 0x2 => .valueOutput
  | 0x3 => .valueInout
  | 0x5 => .memrefTempInput
  | 0x6 => .memrefTempOutput
  | 0x7 => .memrefTempInout
  | 0xC => .memrefWhole
  | 0xD => .memrefPartialInput
  | 0xE => .memrefPartialOutput
  | 0xF => .memrefPartialInout
  | _ => .unsupported

/-- A value, or no parameter. -/
def TeecType.isValue : TeecType → Bool
  | .none | .valueInput | .valueOutput | .valueInout => true
  | _ => false

/-- A temporary memory reference. -/
def TeecType.isTemp : TeecType → Bool
  | .memrefTempInput | .memrefTempOutput | .memrefTempInout => true
  | _ => false

/-- A reference to registered memory. -/
def TeecType.isRegistered : TeecType → Bool
  | .memrefWhole | .memrefPartialInput | .memrefPartialOutput | .memrefPartialInout => true
  | _ => false

/-- `TEECOM_Operation`. -/
structure TeecomOperation where
  paramTypes : UInt32
  params : Fin 4 → TeecParamter
  valid : UInt32

/-- The type of parameter `i`. -/
def TeecomOperation.type (op : TeecomOperation) (i : Fin 4) : TeecType :=
  teeParamTypeGet op.paramTypes i

/-- The value of parameter `i` set. -/
def TeecomOperation.setValue (op : TeecomOperation) (i : Fin 4) (a b : UInt32) : TeecomOperation :=
  { op with params := Function.update op.params i ⟨a, b, (op.params i).word2⟩ }

/-- `TEE_Param`, a union of `value` and `memref`: `word0` is `a` or `buffer`, and `word1` is `b` or
`size`. -/
structure TeeParam where
  word0 : UInt32
  word1 : UInt32
  deriving DecidableEq

/-- What the two functions use of `TA_RPC`. -/
structure TaRpc where
  paramTypes : UInt32
  teeParam : Fin 4 → TeeParam

def TaRpc.setParam (rpc : TaRpc) (i : Fin 4) (p : TeeParam) : TaRpc :=
  { rpc with teeParam := Function.update rpc.teeParam i p }

/-! ## 2. The state -/

/-- `tee_temp_memory`; `ptr` is its own address. -/
structure TeeTempMemory where
  ptr : Nat
  paddr : UInt32
  vaddr : Nat
  size : UInt32
  taskId : Nat
  uaddr : Nat
  deriving DecidableEq

/-- What the kernel does with memory on behalf of a parameter: a `memcpy` with the bytes it moved,
and a `free_mem_from_task`. -/
inductive ParamEvent where
  | copied (dest src count : Nat) (moved : List Moved)
  | freed (vaddr size : Nat)

/-- The memory management with the process the request is for, the registered and the temporary
memories, and the bytes of the memory.  `nextTemp` is the next address `kmalloc` gives a temporary
memory, and `log` is not in the source: what happened, oldest first. -/
structure ParamWorld where
  k : Kernel
  tee : TeeWorld
  temps : List TeeTempMemory
  nextTemp : Nat
  mem : Mem
  log : List ParamEvent

/-- `memcpy`, `none` when it ends in a data abort. -/
def ParamWorld.memcpy (w : ParamWorld) (dest src count : Nat) : Option ParamWorld :=
  match Mm.memcpy w.k w.mem dest src count with
  | (true, mem, moved) =>
    some { w with mem := mem, log := w.log ++ [.copied dest src count moved] }
  | (false, _, _) => none

/-- `free_mem_from_task`. -/
def ParamWorld.freeMemFromTask (w : ParamWorld) (vaddr size : Nat) : ParamWorld :=
  { w with k := Mm.freeMemFromTask w.k vaddr size, log := w.log ++ [.freed vaddr size] }

/-- `tee_tmp_find_by_vaddr_and_task`. -/
def teeTmpFindByVaddrAndTask (w : ParamWorld) (vaddr : UInt32) (tid : Nat) :
    Option TeeTempMemory :=
  w.temps.find? fun m => m.uaddr == vaddr.toNat && m.taskId == tid

/-- `tee_tmp_mem_free`. -/
def teeTmpMemFree (w : ParamWorld) (m : TeeTempMemory) : ParamWorld :=
  { w with temps := w.temps.filter fun x => x.ptr != m.ptr }

/-! ## 3. Temporary memory references -/

/-- `swi_map_tee_temp_ref`.  The inner `none` is `NULL`; `allocOk` says whether
`tee_tmp_mem_create` gets its memory.  The entry is in the list before anything is mapped, and what
`map_phys_mem` returns is not looked at. -/
def swiMapTeeTempRef (w : ParamWorld) (tmp : TeecParamter) (paramType : TeecType)
    (allocOk : Bool) : Option (Option TeeTempMemory × ParamWorld) :=
  if isValidNonsecureRamAddr tmp.buffer && allocOk then
    let v := mapPhysMem w.k tmp.buffer.toNat tmp.size.toNat apSvcRwUsrNo 0 0 0
    let u := allocateMapMemToTask v.2 tmp.size.toNat
    let m : TeeTempMemory := ⟨w.nextTemp, tmp.buffer, v.1, tmp.size, w.k.proc.pid, u.1⟩
    let w' := { w with k := u.2, temps := w.temps ++ [m], nextTemp := w.nextTemp + 1 }
    if u.1 = 0 then some (none, w')
    else if paramType = .memrefTempInout ∨ paramType = .memrefTempInput then
      (w'.memcpy u.1 v.1 tmp.size.toNat).map fun w' => (some m, w')
    else some (some m, w')
  else some (none, w)

/-- `swi_unmap_tee_temp_ref`. -/
def swiUnmapTeeTempRef (w : ParamWorld) (m : TeeTempMemory) (paramType : TeecType) :
    Option ParamWorld :=
  let copied :=
    if paramType = .memrefTempInout ∨ paramType = .memrefTempOutput then
      w.memcpy m.vaddr m.uaddr m.size.toNat
    else some w
  copied.map fun w =>
    let w := w.freeMemFromTask m.uaddr m.size.toNat
    teeTmpMemFree { w with k := unmapPages w.k m.vaddr (pageRounds m.size.toNat) } m

/-! ## 4. References to registered memory -/

/-- What `parameters_to_userspace` does for a reference to registered memory. -/
def registeredToUserspace (w : ParamWorld) (p : TeecParamter) (paramType : TeecType)
    (rpc : TaRpc) (i : Fin 4) : Option (UInt32 × ParamWorld × TaRpc) :=
  match teeMemoryFind w.tee p.memid with
  | none => some (teeErrorBadParameters, w, rpc)
  | some memory =>
    if memory.paddr + memory.size < memory.paddr + p.offset + p.size then
      some (teeErrorBadParameters, w, rpc)
    else
      let u := allocateMapMemToTask w.k p.size.toNat
      let w := { w with k := u.2 }
      if u.1 = 0 then
        some (teeErrorOutOfMemory, w, rpc.setParam i ⟨0, (rpc.teeParam i).word1⟩)
      else
        let rpc := rpc.setParam i ⟨UInt32.ofNat u.1, p.size⟩
        if paramType = .memrefPartialOutput then some (teeSuccess, w, rpc)
        else
          let v := mapPhysMem w.k memory.paddr.toNat memory.size.toNat apSvcRwUsrNo 0 0 0
          let w := { w with k := v.2 }
          if v.1 = 0 then
            some (teeErrorOutOfMemory, w.freeMemFromTask u.1 p.size.toNat, rpc)
          else
            (w.memcpy u.1 v.1 p.size.toNat).map fun w =>
              (teeSuccess, { w with k := unmapPages w.k v.1 (pageRounds memory.size.toNat) }, rpc)

/-- What `parameters_from_userspace` does for a reference to registered memory. -/
def registeredFromUserspace (w : ParamWorld) (p : TeecParamter) (paramType : TeecType)
    (buffer : UInt32) : Option (UInt32 × ParamWorld) :=
  match teeMemoryFind w.tee p.memid with
  | none => some (teeErrorBadParameters, w)
  | some memory =>
    if paramType = .memrefPartialInput then
      some (teeSuccess, w.freeMemFromTask buffer.toNat p.size.toNat)
    else
      let v := mapPhysMem w.k memory.paddr.toNat memory.size.toNat apSvcRwUsrNo 0 0 0
      let w := { w with k := v.2 }
      if v.1 = 0 then
        some (teeErrorOutOfMemory, w.freeMemFromTask buffer.toNat p.size.toNat)
      else
        (w.memcpy v.1 buffer.toNat p.size.toNat).map fun w =>
          (teeSuccess,
            { w with k := unmapPages w.k v.1 (pageRounds memory.size.toNat) }.freeMemFromTask
              buffer.toNat p.size.toNat)

/-! ## 5. The two loops -/

/-- `for (pidx = 0; pidx < 4; pidx++)`: a round that fails ends the function. -/
def paramLoop {S : Type} (round : S → Fin 4 → Option (UInt32 × S)) :
    List (Fin 4) → S → Option (UInt32 × S)
  | [], s => some (teeSuccess, s)
  | i :: is, s =>
    match round s i with
    | none => none
    | some (ret, s) => if ret = teeSuccess then paramLoop round is s else some (ret, s)

/-- The body of the loop in `parameters_to_userspace`; `allocOk` says which calls of
`tee_tmp_mem_create` get their memory. -/
def toUserspaceRound (allocOk : Fin 4 → Bool) (comOp : TeecomOperation)
    (s : ParamWorld × TaRpc) (i : Fin 4) : Option (UInt32 × ParamWorld × TaRpc) :=
  match comOp.type i with
  | .none | .valueOutput => some (teeSuccess, s.1, s.2.setParam i ⟨0, 0⟩)
  | .valueInput | .valueInout =>
    some (teeSuccess, s.1, s.2.setParam i ⟨(comOp.params i).a, (comOp.params i).b⟩)
  | .memrefTempInout | .memrefTempInput | .memrefTempOutput =>
    match swiMapTeeTempRef s.1 (comOp.params i) (comOp.type i) (allocOk i) with
    | none => none
    | some (none, w) => some (teeErrorCommunication, w, s.2)
    | some (some m, w) => some (teeSuccess, w, s.2.setParam i ⟨UInt32.ofNat m.uaddr, m.size⟩)
  | .memrefPartialInout | .memrefPartialInput | .memrefWhole | .memrefPartialOutput =>
    registeredToUserspace s.1 (comOp.params i) (comOp.type i) s.2 i
  | .unsupported => some (teeErrorBadParameters, s)

/-- `parameters_to_userspace`. -/
def parametersToUserspace (allocOk : Fin 4 → Bool) (comOp : TeecomOperation) (rpc : TaRpc)
    (w : ParamWorld) : Option (UInt32 × ParamWorld × TaRpc) :=
  if comOp.valid = 1 then
    paramLoop (toUserspaceRound allocOk comOp) (List.finRange 4)
      (w, { rpc with paramTypes := comOp.paramTypes })
  else some (teeSuccess, w, ⟨0, fun _ => ⟨0, 0⟩⟩)

/-- The body of the loop in `parameters_from_userspace`, which has no default case. -/
def fromUserspaceRound (s : ParamWorld × TeecomOperation × TaRpc) (i : Fin 4) :
    Option (UInt32 × ParamWorld × TeecomOperation × TaRpc) :=
  match s with
  | (w, comOp, rpc) =>
    let p := rpc.teeParam i
    match comOp.type i with
    | .none => some (teeSuccess, w, comOp, rpc.setParam i ⟨0, 0⟩)
    | .valueOutput | .valueInout =>
      some (teeSuccess, w, comOp.setValue i p.word0 p.word1, rpc)
    | .memrefTempInout | .memrefTempInput | .memrefTempOutput =>
      match teeTmpFindByVaddrAndTask w p.word0 w.k.proc.pid with
      | none => some (teeErrorBadParameters, w, comOp, rpc)
      | some m =>
        (swiUnmapTeeTempRef w m (comOp.type i)).map fun w => (teeSuccess, w, comOp, rpc)
    | .memrefPartialInout | .memrefPartialInput | .memrefWhole | .memrefPartialOutput =>
      (registeredFromUserspace w (comOp.params i) (comOp.type i) p.word0).map fun r =>
        (r.1, r.2, comOp, rpc)
    | .valueInput | .unsupported => some (teeSuccess, w, comOp, rpc)

/-- `parameters_from_userspace`. -/
def parametersFromUserspace (comOp : TeecomOperation) (rpc : TaRpc) (w : ParamWorld) :
    Option (UInt32 × ParamWorld × TeecomOperation × TaRpc) :=
  if comOp.valid = 1 then paramLoop fromUserspaceRound (List.finRange 4) (w, comOp, rpc)
  else some (teeSuccess, w, comOp, rpc)

/-! ## 6. A request -/

/-- A request: its operation, which allocations succeed, what the trustlet's `TA_RPC` holds before,
and what the trustlet leaves there and in the memory. -/
structure ParamRequest where
  comOp : TeecomOperation
  allocOk : Fin 4 → Bool
  before : TaRpc
  answer : TaRpc
  mem : Mem

/-- The request is served, if both functions return `TEEC_SUCCESS`. -/
def serveParams (w : ParamWorld) (q : ParamRequest) : Option ParamWorld :=
  match parametersToUserspace q.allocOk q.comOp q.before w with
  | none => none
  | some (ret, w, _) =>
    if ret = teeSuccess then
      match parametersFromUserspace q.comOp q.answer { w with mem := q.mem } with
      | none => none
      | some (ret, w, _) => if ret = teeSuccess then some w else none
    else none

/-- The state after the boot: one megabyte of the normal world is registered. -/
def bootParams : ParamWorld where
  k := bootKernel
  tee := { TeeWorld.init with memories := [⟨0, 7, 0, 0, 0xB0000000, 0, 0x100000⟩] }
  temps := []
  nextTemp := 0
  mem := fun _ => 0
  log := []

/-! ## 7. Rounds -/

variable {S : Type} {round : S → Fin 4 → Option (UInt32 × S)} {s s' : S}

/-- A round of `parameters_to_userspace`, by the kind of its parameter. -/
theorem toUserspaceRound_cases {allocOk : Fin 4 → Bool} {comOp : TeecomOperation} {i : Fin 4}
    {s t : ParamWorld × TaRpc} {ret : UInt32}
    (h : toUserspaceRound allocOk comOp s i = some (ret, t)) :
    ((comOp.type i).isValue = true ∧ ret = teeSuccess ∧ t.1 = s.1) ∨
      (comOp.type i = .unsupported ∧ ret = teeErrorBadParameters ∧ t.1 = s.1) ∨
      ((comOp.type i).isTemp = true ∧ ∃ r, swiMapTeeTempRef s.1 (comOp.params i) (comOp.type i)
        (allocOk i) = some (r, t.1) ∧ (ret = teeSuccess ↔ r ≠ none)) ∨
      ((comOp.type i).isRegistered = true ∧
        registeredToUserspace s.1 (comOp.params i) (comOp.type i) s.2 i = some (ret, t)) := by
  obtain ⟨w', rpc'⟩ := t
  unfold toUserspaceRound at h
  generalize comOp.type i = type at h ⊢
  have hsame : ∀ {e : UInt32} {r : TaRpc}, some (e, s.1, r) = some (ret, w', rpc') →
      ret = e ∧ w' = s.1 := by
    intro e r heq
    simp only [Option.some.injEq, Prod.mk.injEq] at heq
    exact ⟨heq.1.symm, heq.2.1.symm⟩
  have htemp : (match swiMapTeeTempRef s.1 (comOp.params i) type (allocOk i) with
      | none => none
      | some (none, w) => some (teeErrorCommunication, w, s.2)
      | some (some m, w) => some (teeSuccess, w, s.2.setParam i ⟨UInt32.ofNat m.uaddr, m.size⟩)) =
      some (ret, w', rpc') → ∃ r, swiMapTeeTempRef s.1 (comOp.params i) type (allocOk i) =
        some (r, w') ∧ (ret = teeSuccess ↔ r ≠ none) := by
    intro hround
    split at hround
    · exact absurd hround nofun
    · rename_i w hmap
      simp only [Option.some.injEq, Prod.mk.injEq] at hround
      obtain ⟨rfl, rfl, -⟩ := hround
      exact ⟨none, hmap, iff_of_false (by decide) fun hne => hne rfl⟩
    · rename_i m w hmap
      simp only [Option.some.injEq, Prod.mk.injEq] at hround
      obtain ⟨rfl, rfl, -⟩ := hround
      exact ⟨some m, hmap, iff_of_true rfl nofun⟩
  cases type with
  | none => exact Or.inl ⟨rfl, hsame h⟩
  | valueInput => exact Or.inl ⟨rfl, hsame h⟩
  | valueOutput => exact Or.inl ⟨rfl, hsame h⟩
  | valueInout => exact Or.inl ⟨rfl, hsame h⟩
  | memrefTempInput => exact Or.inr (Or.inr (Or.inl ⟨rfl, htemp h⟩))
  | memrefTempOutput => exact Or.inr (Or.inr (Or.inl ⟨rfl, htemp h⟩))
  | memrefTempInout => exact Or.inr (Or.inr (Or.inl ⟨rfl, htemp h⟩))
  | memrefWhole => exact Or.inr (Or.inr (Or.inr ⟨rfl, h⟩))
  | memrefPartialInput => exact Or.inr (Or.inr (Or.inr ⟨rfl, h⟩))
  | memrefPartialOutput => exact Or.inr (Or.inr (Or.inr ⟨rfl, h⟩))
  | memrefPartialInout => exact Or.inr (Or.inr (Or.inr ⟨rfl, h⟩))
  | unsupported => exact Or.inr (Or.inl ⟨rfl, hsame h⟩)

/-- A round of `parameters_from_userspace`, by the kind of its parameter. -/
theorem fromUserspaceRound_cases {i : Fin 4} {s t : ParamWorld × TeecomOperation × TaRpc}
    {ret : UInt32} (h : fromUserspaceRound s i = some (ret, t)) :
    t.2.1.paramTypes = s.2.1.paramTypes ∧
      (t.2.2 = s.2.2 ∨ s.2.1.type i = .none ∧ t.2.2 = s.2.2.setParam i ⟨0, 0⟩) ∧
      (t.1 = s.1 ∨
        ((s.2.1.type i).isTemp = true ∧
          ∃ m, teeTmpFindByVaddrAndTask s.1 (s.2.2.teeParam i).word0 s.1.k.proc.pid = some m ∧
            swiUnmapTeeTempRef s.1 m (s.2.1.type i) = some t.1) ∨
        ((s.2.1.type i).isRegistered = true ∧
          registeredFromUserspace s.1 (s.2.1.params i) (s.2.1.type i) (s.2.2.teeParam i).word0 =
            some (ret, t.1))) := by
  obtain ⟨w, comOp, rpc⟩ := s
  obtain ⟨w', comOp', rpc'⟩ := t
  unfold fromUserspaceRound at h
  simp only at h ⊢
  generalize comOp.type i = type at h ⊢
  have hsame : ∀ {c : TeecomOperation} {r : TaRpc},
      some (teeSuccess, w, c, r) = some (ret, w', comOp', rpc') → c = comOp' ∧ r = rpc' ∧ w' = w := by
    intro c r heq
    simp only [Option.some.injEq, Prod.mk.injEq] at heq
    exact ⟨heq.2.2.1, heq.2.2.2, heq.2.1.symm⟩
  have htemp : (match teeTmpFindByVaddrAndTask w (rpc.teeParam i).word0 w.k.proc.pid with
      | none => some (teeErrorBadParameters, w, comOp, rpc)
      | some m => (swiUnmapTeeTempRef w m type).map fun w => (teeSuccess, w, comOp, rpc)) =
      some (ret, w', comOp', rpc') → comOp = comOp' ∧ rpc = rpc' ∧
        (w' = w ∨ ∃ m, teeTmpFindByVaddrAndTask w (rpc.teeParam i).word0 w.k.proc.pid = some m ∧
          swiUnmapTeeTempRef w m type = some w') := by
    intro hround
    split at hround
    · simp only [Option.some.injEq, Prod.mk.injEq] at hround
      exact ⟨hround.2.2.1, hround.2.2.2, Or.inl hround.2.1.symm⟩
    · rename_i m hfind
      obtain ⟨x, hx, hpair⟩ := Option.map_eq_some_iff.mp hround
      simp only [Prod.mk.injEq] at hpair
      obtain ⟨-, rfl, hc, hr⟩ := hpair
      exact ⟨hc, hr, Or.inr ⟨m, hfind, hx⟩⟩
  have hreg : ((registeredFromUserspace w (comOp.params i) type (rpc.teeParam i).word0).map
      fun r => (r.1, r.2, comOp, rpc)) = some (ret, w', comOp', rpc') →
      comOp = comOp' ∧ rpc = rpc' ∧
        registeredFromUserspace w (comOp.params i) type (rpc.teeParam i).word0 = some (ret, w') := by
    intro hround
    obtain ⟨x, hx, hpair⟩ := Option.map_eq_some_iff.mp hround
    simp only [Prod.mk.injEq] at hpair
    obtain ⟨rfl, rfl, hc, hr⟩ := hpair
    exact ⟨hc, hr, hx⟩
  cases type with
  | none =>
    obtain ⟨rfl, rfl, hw⟩ := hsame h
    exact ⟨rfl, Or.inr ⟨rfl, rfl⟩, Or.inl hw⟩
  | valueInput | unsupported =>
    obtain ⟨rfl, rfl, hw⟩ := hsame h
    exact ⟨rfl, Or.inl rfl, Or.inl hw⟩
  | valueOutput | valueInout =>
    obtain ⟨rfl, rfl, hw⟩ := hsame h
    exact ⟨rfl, Or.inl rfl, Or.inl hw⟩
  | memrefTempInput | memrefTempOutput | memrefTempInout =>
    obtain ⟨rfl, rfl, hw | hm⟩ := htemp h
    · exact ⟨rfl, Or.inl rfl, Or.inl hw⟩
    · exact ⟨rfl, Or.inl rfl, Or.inr (Or.inl ⟨rfl, hm⟩)⟩
  | memrefWhole | memrefPartialInput | memrefPartialOutput | memrefPartialInout =>
    obtain ⟨rfl, rfl, hr⟩ := hreg h
    exact ⟨rfl, Or.inl rfl, Or.inr (Or.inr ⟨rfl, hr⟩)⟩

/-- A request that is served. -/
theorem serveParams_cases {w w' : ParamWorld} {q : ParamRequest} (h : serveParams w q = some w') :
    ∃ u rpc comOp rpc',
      parametersToUserspace q.allocOk q.comOp q.before w = some (teeSuccess, u, rpc) ∧
      parametersFromUserspace q.comOp q.answer { u with mem := q.mem } =
        some (teeSuccess, w', comOp, rpc') := by
  unfold serveParams at h
  split at h
  · exact absurd h (by simp)
  · rename_i ret u rpc hto
    split at h
    · rename_i hret
      split at h
      · exact absurd h (by simp)
      · rename_i ret' w'' rest hfrom
        split at h
        · rename_i hret'
          obtain rfl := Option.some.inj h
          rw [hret] at hto
          rw [hret'] at hfrom
          exact ⟨u, rpc, rest.1, rest.2, hto, hfrom⟩
        · exact absurd h (by simp)
    · exact absurd h (by simp)

/-- A loop that succeeds is a run of rounds that do. -/
theorem run_of_paramLoop :
    ∀ {is : List (Fin 4)} {s : S}, paramLoop round is s = some (teeSuccess, s') →
      Run (fun s i t => round s i = some (teeSuccess, t)) s is s'
  | [], s, h => by
    obtain ⟨-, rfl⟩ := Prod.mk.inj (Option.some.inj h)
    exact Run.nil _
  | i :: is, s, h => by
    rw [paramLoop] at h
    split at h
    · exact absurd h (by simp)
    · rename_i ret t hround
      split at h
      · rename_i hret
        exact Run.cons (hround.trans (by rw [hret])) (run_of_paramLoop h)
      · rename_i hret
        exact absurd (Prod.mk.inj (Option.some.inj h)).1 hret

/-- What every round keeps, the loop keeps, whatever it returns. -/
theorem paramLoop_invariant {ret : UInt32} (Inv : S → Prop)
    (hround : ∀ s i ret t, Inv s → round s i = some (ret, t) → Inv t) :
    ∀ {is : List (Fin 4)} {s t : S}, Inv s → paramLoop round is s = some (ret, t) → Inv t
  | [], _, _, hs, h => (Prod.mk.inj (Option.some.inj h)).2 ▸ hs
  | i :: is, s, t, hs, h => by
    rw [paramLoop] at h
    split at h
    · exact absurd h nofun
    · rename_i ret' u hu
      have hnext := hround s i ret' u hs hu
      split at h
      · exact paramLoop_invariant Inv hround hnext h
      · exact (Prod.mk.inj (Option.some.inj h)).2 ▸ hnext

end AndixOs.Swi
