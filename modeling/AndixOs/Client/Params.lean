/-
# The parameters on their way

`preProcessParameters` copies the parameters of a `TEEC_Operation` into the communication space, and
`postProcessParameters` brings the values back.  A reference to a whole shared memory goes out with the
size and the offset that the caller happens to have there, and `TEEC_OpenSession` brings nothing back.

* `preProcessParameters_spec`: what is in the space when it is handed to the driver;
* `postProcessParameters_params`: what the caller finds;
* `paramsRight_iff`: when both are what the types of the parameters say.
-/
import AndixOs.Client.Api

namespace AndixOs.Client

open AndixOs AndixOs.Swi AndixOs.Tee

/-! ## 1. What is asked of a call -/

/-- The secure world returns a value in such a parameter. -/
def isOutput (t : TeecType) : Bool := t = .valueOutput || t = .valueInout

/-- A parameter `q` in the space describes the parameter `p` of the caller. -/
def ParamDescribed (sharedMem : UInt32 → TeecSharedMemory) (t : TeecType) (p : TeecParameter)
    (q : TeecParamter) : Prop :=
  match t with
  | .none | .valueOutput => q.a = 0 ∧ q.b = 0
  | .valueInput | .valueInout => q.a = p.a ∧ q.b = p.b
  | .memrefTempInput | .memrefTempOutput | .memrefTempInout => q.buffer = p.buffer ∧ q.size = p.size
  | .memrefPartialInput | .memrefPartialOutput | .memrefPartialInout =>
    q = ⟨(sharedMem p.parent).memid, p.size, p.offset⟩
  | .memrefWhole => q = ⟨(sharedMem p.parent).memid, (sharedMem p.parent).size, 0⟩
  | .unsupported => False

/-- The operation in the space describes that of the caller. -/
structure OperationDescribed (sharedMem : UInt32 → TeecSharedMemory) (source : TeecOperation)
    (base : Nat) (sent : TzTeeSpace) : Prop where
  started : sent.params (startedWord base) = source.started
  paramTypes : (sent.operation base).paramTypes = source.paramTypes
  valid : (sent.operation base).valid = 1
  params : ∀ i, ParamDescribed sharedMem (source.type i) (source.params i) (sent.param base i)

/-- The two functions that have an operation. -/
inductive ParamEntry where
  | openSession (context session : UInt32) (destination : Option (Fin 4 → UInt32))
      (connectionMethod connectionData : UInt32) (returnOrigin : Bool)
  | invokeCommand (session commandID : UInt32) (returnOrigin : Bool)

def ParamEntry.call (c : ParamEntry) (operation : UInt32) : ClientCall :=
  match c with
  | .openSession context session destination method data returnOrigin =>
    .openSession context session destination method data operation returnOrigin
  | .invokeCommand session commandID returnOrigin => .invokeCommand session commandID operation returnOrigin

def ParamEntry.base : ParamEntry → Nat
  | .openSession .. => openSessionOperation
  | .invokeCommand .. => invokeCommandOperation

def ParamEntry.isInvoke : ParamEntry → Bool
  | .openSession .. => false
  | .invokeCommand .. => true

/-- A call from its beginning. -/
def TeecCall.perform (c : TeecCall) (e : CommEnv) (m : ClientMem) : Option TeecDone :=
  match c.refuse with
  | some ret => some ⟨ret, m, true, none⟩
  | none => c.body e m

/-- A parameter after a call that has brought back what the secure world returned. -/
def broughtBack (base : Nat) (before : TeecOperation) (exchange : Option (TzTeeSpace × TzTeeSpace))
    (i : Fin 4) : TeecParameter :=
  match exchange with
  | some (_, reply) =>
    if isOutput (before.type i) then
      ⟨(reply.param base i).a, (reply.param base i).b, (before.params i).word2⟩
    else before.params i
  | none => before.params i

/-- What is sent describes the parameters of the caller; afterwards its outputs hold the values that were
returned, and the rest of its operation is as it was. -/
structure ParamsRight (c : ParamEntry) (operation : UInt32) (m : ClientMem) (d : TeecDone) : Prop where
  sent : ∀ sent reply, d.exchange = some (sent, reply) →
    OperationDescribed m.sharedMem (m.operation operation) c.base sent
  params : ∀ i, (d.mem.operation operation).params i =
    broughtBack c.base (m.operation operation) d.exchange i
  header : (d.mem.operation operation).started = (m.operation operation).started ∧
    (d.mem.operation operation).paramTypes = (m.operation operation).paramTypes

/-- A reference to a whole shared memory says so itself. -/
def WholeSaid (m : ClientMem) (source : TeecOperation) : Prop :=
  ∀ i, source.type i = .memrefWhole →
    (source.params i).offset = 0 ∧ (source.params i).size = (m.sharedMem (source.params i).parent).size

/-- The outputs hold already what is returned. -/
def OutputsHeld (base : Nat) (source : TeecOperation) (reply : TzTeeSpace) : Prop :=
  ∀ i, isOutput (source.type i) = true →
    (source.params i).a = (reply.param base i).a ∧ (source.params i).b = (reply.param base i).b

/-! ## 2. The words of a parameter -/

variable {space s t : TzTeeSpace} {base : Nat} {i j : Fin 4} {v w : UInt32} {word : Nat}

@[simp] theorem set_self : (space.set word v).params word = v := Function.update_self ..

theorem set_of_ne {word' : Nat} (h : word' ≠ word) :
    (space.set word v).params word' = space.params word' := Function.update_of_ne h ..

/-- The word is none of the parameter. -/
def OutsideParam (base : Nat) (i : Fin 4) (word : Nat) : Prop :=
  word < paramWord base i ∨ paramWord base i + 2 < word

/-- Two parameters share no word. -/
theorem outside_of_ne (h : i ≠ j) {k : Nat} (hk : k < 3) : OutsideParam base i (paramWord base j + k) := by
  have hval : i.val ≠ j.val := fun heq => h (Fin.ext heq)
  simp only [OutsideParam, paramWord]
  omega

theorem param_congr (h : ∀ k < 3, s.params (paramWord base i + k) = t.params (paramWord base i + k)) :
    s.param base i = t.param base i := by
  have h0 := h 0 (by decide)
  rw [Nat.add_zero] at h0
  rw [TzTeeSpace.param, TzTeeSpace.param, h0, h 1 (by decide), h 2 (by decide)]

theorem setPair_of_outside (h : OutsideParam base i word) :
    (space.setPair base i v w).params word = space.params word := by
  have hne : word ≠ paramWord base i + 1 ∧ word ≠ paramWord base i := by
    rcases h with h | h <;> omega
  rw [TzTeeSpace.setPair, set_of_ne hne.1, set_of_ne hne.2]

theorem setPair_param :
    (space.setPair base i v w).param base i = ⟨v, w, (space.param base i).word2⟩ := by
  have h0 : (space.setPair base i v w).params (paramWord base i) = v := by
    rw [TzTeeSpace.setPair, set_of_ne (by omega), set_self]
  have h2 : (space.setPair base i v w).params (paramWord base i + 2) =
      space.params (paramWord base i + 2) := by
    rw [TzTeeSpace.setPair, set_of_ne (by omega), set_of_ne (by omega)]
  rw [TzTeeSpace.param, h0, h2]
  simp [TzTeeSpace.setPair, TzTeeSpace.param]

theorem setMemref_of_outside {offset : UInt32} (h : OutsideParam base i word) :
    (space.setMemref base i v w offset).params word = space.params word := by
  have hne : word ≠ paramWord base i + 2 := by
    rcases h with h | h <;> omega
  rw [TzTeeSpace.setMemref, set_of_ne hne, setPair_of_outside h]

theorem setMemref_param {offset : UInt32} :
    (space.setMemref base i v w offset).param base i = ⟨v, w, offset⟩ := by
  have hpair : (space.setPair base i v w).param base i = ⟨v, w, (space.param base i).word2⟩ :=
    setPair_param
  have hwords := TeecParamter.mk.inj hpair
  have h0 : (space.setMemref base i v w offset).params (paramWord base i) = v := by
    rw [TzTeeSpace.setMemref, set_of_ne (by omega), hwords.1]
  have h1 : (space.setMemref base i v w offset).params (paramWord base i + 1) = w := by
    rw [TzTeeSpace.setMemref, set_of_ne (by omega), hwords.2.1]
  rw [TzTeeSpace.param, h0, h1, TzTeeSpace.setMemref, set_self]

/-! ## 3. On the way out -/

variable {source : TeecOperation} {sharedMem : UInt32 → TeecSharedMemory} {ret : UInt32}

/-- What `preProcessParameters` makes of a parameter. -/
def ParamWritten (sharedMem : UInt32 → TeecSharedMemory) (t : TeecType) (p : TeecParameter)
    (q : TeecParamter) : Prop :=
  if t = .memrefWhole then q = ⟨(sharedMem p.parent).memid, p.size, p.offset⟩
  else ParamDescribed sharedMem t p q

/-- **One round**: the words of its parameter are written and no others, or the type is not supported. -/
theorem preProcessRound_cases (h : preProcessRound source sharedMem base s i = some (ret, t)) :
    (ret = teeSuccess ∧ ParamWritten sharedMem (source.type i) (source.params i) (t.param base i) ∧
      ∀ word, OutsideParam base i word → t.params word = s.params word) ∨
    (ret = teeErrorBadParameters ∧ source.type i = .unsupported) := by
  have hpair : ∀ {v w}, some (teeSuccess, s.setPair base i v w) = some (ret, t) →
      ret = teeSuccess ∧ t.param base i = ⟨v, w, (s.param base i).word2⟩ ∧
        ∀ word, OutsideParam base i word → t.params word = s.params word := by
    intro v w hsome
    obtain ⟨rfl, rfl⟩ := Prod.mk.inj (Option.some.inj hsome)
    exact ⟨rfl, setPair_param, fun word hword => setPair_of_outside hword⟩
  rw [preProcessRound] at h
  cases htype : source.type i with
  | none | valueOutput | valueInput | valueInout | memrefTempInput | memrefTempOutput
  | memrefTempInout =>
    rw [htype] at h
    obtain ⟨hret, hparam, hframe⟩ := hpair h
    rw [hparam]
    exact Or.inl ⟨hret, ⟨rfl, rfl⟩, hframe⟩
  | memrefWhole | memrefPartialInput | memrefPartialOutput | memrefPartialInout =>
    rw [htype] at h
    dsimp only at h
    split at h
    · exact absurd h nofun
    · obtain ⟨rfl, rfl⟩ := Prod.mk.inj (Option.some.inj h)
      rw [setMemref_param]
      exact Or.inl ⟨rfl, rfl, fun word hword => setMemref_of_outside hword⟩
  | unsupported =>
    rw [htype] at h
    obtain ⟨rfl, -⟩ := Prod.mk.inj (Option.some.inj h)
    exact Or.inr ⟨rfl, rfl⟩

/-- The loop, from any parameter on. -/
theorem preProcessLoop_cases : ∀ {is : List (Fin 4)} {s : TzTeeSpace}, is.Nodup →
    paramLoop (preProcessRound source sharedMem base) is s = some (ret, t) →
    (ret = teeSuccess ∧
      (∀ i ∈ is, ParamWritten sharedMem (source.type i) (source.params i) (t.param base i)) ∧
      ∀ word, (∀ i ∈ is, OutsideParam base i word) → t.params word = s.params word) ∨
    (ret ≠ teeSuccess ∧ ∃ i, source.type i = .unsupported)
  | [], s, _, h => by
    obtain ⟨rfl, rfl⟩ := Prod.mk.inj (Option.some.inj h)
    exact Or.inl ⟨rfl, fun _ hi => absurd hi List.not_mem_nil, fun _ _ => rfl⟩
  | i :: is, s, hnodup, h => by
    obtain ⟨hnew, hnodup⟩ := List.nodup_cons.mp hnodup
    rw [paramLoop] at h
    split at h
    · cases h
    rename_i ret' u hround
    obtain ⟨rfl, hwritten, hframe⟩ | ⟨rfl, htype⟩ := preProcessRound_cases hround
    · rw [if_pos rfl] at h
      obtain ⟨hret, hrest, hrestFrame⟩ | hbad := preProcessLoop_cases hnodup h
      · refine Or.inl ⟨hret, ?_, ?_⟩
        · intro j hj
          rcases List.mem_cons.mp hj with rfl | hj
          · -- the rounds behind write other words
            have hsame : t.param base j = u.param base j := by
              refine param_congr fun k hk => hrestFrame _ fun l hl => outside_of_ne ?_ hk
              rintro rfl
              exact hnew hl
            rw [hsame]
            exact hwritten
          · exact hrest j hj
        · intro word hword
          rw [hrestFrame word fun l hl => hword l (List.mem_cons_of_mem i hl)]
          exact hframe word (hword i List.mem_cons_self)
      · exact Or.inr hbad
    · rw [if_neg (by decide)] at h
      obtain ⟨rfl, -⟩ := Prod.mk.inj (Option.some.inj h)
      exact Or.inr ⟨by decide, i, htype⟩

/-- **What is handed to the driver**, or that a type is not supported. -/
theorem preProcessParameters_spec (h : preProcessParameters source sharedMem base s = some (ret, t)) :
    (ret = teeSuccess ∧
      (∀ i, ParamWritten sharedMem (source.type i) (source.params i) (t.param base i)) ∧
      t.params (startedWord base) = source.started ∧
      t.params (paramTypesWord base) = source.paramTypes) ∨
    (ret ≠ teeSuccess ∧ ∃ i, source.type i = .unsupported) := by
  obtain ⟨hret, hwritten, hframe⟩ | hbad := preProcessLoop_cases (List.nodup_finRange 4) h
  · have hstarted : ∀ i, OutsideParam base i (startedWord base) := fun i =>
      Or.inl (by simp only [startedWord, paramWord]; omega)
    have htypes : ∀ i, OutsideParam base i (paramTypesWord base) := fun i =>
      Or.inl (by simp only [paramTypesWord, paramWord]; omega)
    refine Or.inl ⟨hret, fun i => hwritten i (List.mem_finRange i), ?_, ?_⟩
    · rw [hframe _ fun i _ => hstarted i, set_self]
    · rw [hframe _ fun i _ => htypes i, set_of_ne (by simp [paramTypesWord, startedWord]), set_self]
  · exact Or.inr hbad

/-- What is written describes the parameter, if a reference to a whole memory says so itself. -/
theorem described_iff {p : TeecParameter} {q : TeecParamter} {type : TeecType}
    (h : ParamWritten sharedMem type p q) :
    ParamDescribed sharedMem type p q ↔
      (type = .memrefWhole → p.offset = 0 ∧ p.size = (sharedMem p.parent).size) := by
  by_cases htype : type = .memrefWhole
  · subst htype
    rw [ParamWritten, if_pos rfl] at h
    subst h
    simp only [ParamDescribed, TeecParamter.mk.injEq, true_and, true_implies]
    exact and_comm
  · rw [ParamWritten, if_neg htype] at h
    exact iff_of_true h fun heq => absurd heq htype

/-- The references that are read are not `NULL`: then the loop comes to its end. -/
theorem preProcessParameters_isSome
    (h : ∀ i, (source.type i).isRegistered = true → (source.params i).parent ≠ 0) :
    (preProcessParameters source sharedMem base s).isSome := by
  have hround : ∀ (s : TzTeeSpace) i, (preProcessRound source sharedMem base s i).isSome := by
    intro s i
    have hi := h i
    rw [preProcessRound]
    cases htype : source.type i with
    | memrefWhole | memrefPartialInput | memrefPartialOutput | memrefPartialInout =>
      rw [htype] at hi
      dsimp only
      rw [if_neg (hi rfl)]
      rfl
    | _ => rfl
  have hloop : ∀ (is : List (Fin 4)) (s : TzTeeSpace),
      (paramLoop (preProcessRound source sharedMem base) is s).isSome := by
    intro is
    induction is with
    | nil => exact fun _ => rfl
    | cons i is ih =>
      intro s
      obtain ⟨r, hr⟩ := Option.isSome_iff_exists.mp (hround s i)
      rw [paramLoop, hr]
      dsimp only
      split
      · exact ih r.2
      · rfl
  exact hloop _ _

/-! ## 4. On the way back -/

/-- One round leaves the types. -/
@[simp] theorem postProcessRound_paramTypes (target : TzTeeSpace) :
    (postProcessRound target base source i).paramTypes = source.paramTypes := by
  rw [postProcessRound]
  split <;> rfl

@[simp] theorem postProcessRound_started (target : TzTeeSpace) :
    (postProcessRound target base source i).started = source.started := by
  rw [postProcessRound]
  split <;> rfl

/-- **One round** brings back its parameter, if that is an output. -/
theorem postProcessRound_params (target : TzTeeSpace) :
    (postProcessRound target base source i).params j =
      if j = i ∧ isOutput (source.type j) = true then
        ⟨(target.param base j).a, (target.param base j).b, (source.params j).word2⟩
      else source.params j := by
  rw [postProcessRound]
  by_cases hji : j = i
  · subst hji
    simp only [true_and, isOutput, Bool.or_eq_true, decide_eq_true_eq]
    split
    · exact Function.update_self ..
    · rfl
  · have hnot : ¬(j = i ∧ isOutput (source.type j) = true) := fun h => hji h.1
    rw [if_neg hnot]
    split
    · exact Function.update_of_ne hji ..
    · rfl

/-- The loop over any parameters. -/
theorem postProcessLoop_params (target : TzTeeSpace) (is : List (Fin 4)) (source : TeecOperation) :
    (is.foldl (postProcessRound target base) source).started = source.started ∧
    (is.foldl (postProcessRound target base) source).paramTypes = source.paramTypes ∧
    ∀ j, (is.foldl (postProcessRound target base) source).params j =
      if j ∈ is ∧ isOutput (source.type j) = true then
        ⟨(target.param base j).a, (target.param base j).b, (source.params j).word2⟩
      else source.params j := by
  induction is generalizing source with
  | nil => exact ⟨rfl, rfl, fun j => (if_neg fun h => List.not_mem_nil h.1).symm⟩
  | cons i is ih =>
    obtain ⟨hstarted, htypes, hparams⟩ := ih (postProcessRound target base source i)
    have htype : ∀ j, (postProcessRound target base source i).type j = source.type j := by
      intro j
      rw [TeecOperation.type, TeecOperation.type, postProcessRound_paramTypes]
    refine ⟨hstarted.trans (postProcessRound_started _), htypes.trans (postProcessRound_paramTypes _),
      fun j => ?_⟩
    rw [List.foldl_cons, hparams j, htype, postProcessRound_params]
    by_cases hout : isOutput (source.type j) = true
    · by_cases hji : j = i
      · subst hji
        simp [hout]
      · simp [hji, hout]
    · simp [hout]

/-- The header of the operation in the space is written again, and the parameters stay. -/
theorem header_param (header : UInt32) (started : UInt32) :
    ((space.set (paramTypesWord base) header).set (startedWord base) started).param base i =
      space.param base i := by
  refine param_congr fun k _ => ?_
  have hword : paramWord base i + k ≠ startedWord base ∧ paramWord base i + k ≠ paramTypesWord base := by
    simp only [paramWord, startedWord, paramTypesWord]
    omega
  rw [set_of_ne hword.1, set_of_ne hword.2]

/-- **What the caller finds**: the values that were returned in its outputs, and everything else as it
was. -/
theorem postProcessParameters_params (source : TeecOperation) (base : Nat) (reply : TzTeeSpace) :
    (postProcessParameters source base reply).1.started = source.started ∧
    (postProcessParameters source base reply).1.paramTypes = source.paramTypes ∧
    ∀ sent i, (postProcessParameters source base reply).1.params i =
      broughtBack base source (some (sent, reply)) i := by
  let target := (reply.set (paramTypesWord base) source.paramTypes).set (startedWord base) source.started
  obtain ⟨hstarted, htypes, hparams⟩ :=
    postProcessLoop_params target (List.finRange 4) source
  refine ⟨hstarted, htypes, fun sent i => (hparams i).trans ?_⟩
  simp only [List.mem_finRange, true_and, broughtBack, target, header_param]

/-! ## 5. A call -/

/-- The operation in the space is what `preProcessParameters` makes of that of the caller. -/
structure OperationWritten (sharedMem : UInt32 → TeecSharedMemory) (source : TeecOperation) (base : Nat)
    (sent : TzTeeSpace) : Prop where
  started : sent.params (startedWord base) = source.started
  paramTypes : sent.params (paramTypesWord base) = source.paramTypes
  valid : sent.params (validWord base) = 1
  params : ∀ i, ParamWritten sharedMem (source.type i) (source.params i) (sent.param base i)

theorem operationWritten_valid (hstarted : t.params (startedWord base) = source.started)
    (htypes : t.params (paramTypesWord base) = source.paramTypes)
    (hparams : ∀ i, ParamWritten sharedMem (source.type i) (source.params i) (t.param base i)) :
    OperationWritten sharedMem source base (t.set (validWord base) 1) := by
  have hparam : ∀ i, (t.set (validWord base) 1).param base i = t.param base i := by
    intro i
    refine param_congr fun k hk => set_of_ne ?_
    have hi := i.isLt
    simp only [paramWord, validWord]
    omega
  refine ⟨(set_of_ne ?_).trans hstarted, (set_of_ne ?_).trans htypes, set_self, fun i => ?_⟩
  · simp [startedWord, validWord]
  · simp [paramTypesWord, validWord]
  · rw [hparam]
    exact hparams i

/-- A word in front of the operation. -/
theorem OperationWritten.set_of_lt (h : OperationWritten sharedMem source base s) (hword : word < base) :
    OperationWritten sharedMem source base (s.set word v) := by
  have hne : ∀ k, base + k ≠ word := fun k => by omega
  have hparam : ∀ i, (s.set word v).param base i = s.param base i := by
    intro i
    refine param_congr fun k _ => set_of_ne ?_
    rw [paramWord, Nat.add_assoc, Nat.add_assoc]
    exact hne _
  refine ⟨(set_of_ne (hne 0)).trans h.started, (set_of_ne (hne 1)).trans h.paramTypes,
    (set_of_ne (hne 14)).trans h.valid, fun i => ?_⟩
  rw [hparam]
  exact h.params i

/-- It describes that of the caller, if the references to a whole memory say so themselves. -/
theorem OperationWritten.described_iff {m : ClientMem} (h : OperationWritten m.sharedMem source base s) :
    OperationDescribed m.sharedMem source base s ↔ WholeSaid m source := by
  constructor
  · intro hdesc i
    exact (Client.described_iff (h.params i)).mp (hdesc.params i)
  · intro hwhole
    exact ⟨h.started, h.paramTypes, h.valid,
      fun i => (Client.described_iff (h.params i)).mpr (hwhole i)⟩

variable {c : ParamEntry} {operation : UInt32} {e : CommEnv} {m : ClientMem} {d : TeecDone}

/-- **A call** that returns: nothing was sent, since the call was refused or a type is not supported; or
the operation was sent, and the values came back if it was `TEEC_InvokeCommand`. -/
theorem perform_cases (hop : operation ≠ 0) (h : (c.call operation).run.perform e m = some d) :
    (d.exchange = none ∧ d.mem.operation = m.operation ∧
      ((c.call operation).run.refuse.isSome = true ∨
        ∃ i, (m.operation operation).type i = .unsupported)) ∨
    ((c.call operation).run.refuse = none ∧ (∀ i, (m.operation operation).type i ≠ .unsupported) ∧
      (∃ sent, d.exchange = some (sent, e.reply) ∧
        OperationWritten m.sharedMem (m.operation operation) c.base sent) ∧
      d.mem.operation operation =
        if c.isInvoke then (postProcessParameters (m.operation operation) c.base e.reply).1
        else m.operation operation) := by
  have hsupported : ∀ {base : Nat} {t : TzTeeSpace},
      (∀ i, ParamWritten m.sharedMem ((m.operation operation).type i)
        ((m.operation operation).params i) (t.param base i)) →
      ∀ i, (m.operation operation).type i ≠ .unsupported := by
    intro base t hwritten i htype
    have hi := hwritten i
    rw [htype] at hi
    exact hi
  rw [TeecCall.perform] at h
  cases hrefuse : (c.call operation).run.refuse with
  | some ret =>
    rw [hrefuse] at h
    obtain rfl := Option.some.inj h
    exact Or.inl ⟨rfl, rfl, Or.inl rfl⟩
  | none =>
    rw [hrefuse] at h
    cases c with
    | openSession context session destination method data returnOrigin =>
      obtain ⟨space, -, h⟩ := Option.bind_eq_some_iff.mp h
      obtain ⟨uuid, -, h⟩ := Option.bind_eq_some_iff.mp h
      rw [if_pos hop] at h
      obtain ⟨⟨ret, t⟩, hpre, rfl⟩ := Option.map_eq_some_iff.mp h
      obtain ⟨rfl, hparams, hstarted, htypes⟩ | ⟨hret, hbad⟩ := preProcessParameters_spec hpre
      · exact Or.inr ⟨rfl, hsupported hparams,
          ⟨_, rfl, operationWritten_valid hstarted htypes hparams⟩, rfl⟩
      · dsimp only
        rw [if_pos hret]
        exact Or.inl ⟨rfl, rfl, Or.inr hbad⟩
    | invokeCommand session commandID returnOrigin =>
      obtain ⟨space, -, h⟩ := Option.bind_eq_some_iff.mp h
      dsimp only at h
      rw [if_neg hop] at h
      obtain ⟨⟨ret, t⟩, hpre, rfl⟩ := Option.map_eq_some_iff.mp h
      obtain ⟨rfl, hparams, hstarted, htypes⟩ | ⟨hret, hbad⟩ := preProcessParameters_spec hpre
      · have hbefore : invokeCommandSession < invokeCommandOperation := by decide
        have hsent := (operationWritten_valid hstarted htypes hparams).set_of_lt
          (v := m.session session) hbefore
        refine Or.inr ⟨rfl, hsupported hparams, ⟨_, ?_, hsent⟩, ?_⟩
        · dsimp only
          rw [if_neg (by decide), invokeCommandExchange]
          split <;> rfl
        · dsimp only
          rw [if_neg (by decide), invokeCommandExchange, ParamEntry.isInvoke, if_pos rfl]
          split <;> exact Function.update_self ..
      · dsimp only
        rw [if_pos hret]
        exact Or.inl ⟨rfl, rfl, Or.inr hbad⟩

/-- A call returns, unless it reads `NULL`. -/
theorem perform_isSome (hspace : (getCommSpace e m).isSome = true) (hop : operation ≠ 0)
    (hparents : ∀ i, ((m.operation operation).type i).isRegistered = true →
      ((m.operation operation).params i).parent ≠ 0) :
    ((c.call operation).run.perform e m).isSome = true := by
  obtain ⟨space, hspace⟩ := Option.isSome_iff_exists.mp hspace
  rw [TeecCall.perform]
  cases hrefuse : (c.call operation).run.refuse with
  | some ret => rfl
  | none =>
    cases c with
    | openSession context session destination method data returnOrigin =>
      cases destination with
      | none =>
        have hnull : context = 0 ∨ session = 0 ∨ (none : Option (Fin 4 → UInt32)) = none :=
          Or.inr (Or.inr rfl)
        exact absurd ((if_pos hnull).symm.trans hrefuse) nofun
      | some uuid =>
        simp only [ParamEntry.call, ClientCall.run, teecOpenSession, hspace, Option.bind_some]
        rw [if_pos hop, Option.isSome_map]
        exact preProcessParameters_isSome hparents
    | invokeCommand session commandID returnOrigin =>
      simp only [ParamEntry.call, ClientCall.run, teecInvokeCommand, hspace, Option.bind_some]
      rw [if_neg hop, Option.isSome_map]
      exact preProcessParameters_isSome hparents

/-- The call is refused, or a type is not supported, so that nothing is sent; or the references to a whole
memory say so themselves, and the values come back or are there already. -/
def ParamsHold (c : ParamEntry) (operation : UInt32) (e : CommEnv) (m : ClientMem) : Prop :=
  (c.call operation).run.refuse.isSome = true ∨
    (∃ i, (m.operation operation).type i = .unsupported) ∨
    (WholeSaid m (m.operation operation) ∧
      (c.isInvoke = true ∨ OutputsHeld c.base (m.operation operation) e.reply))

/-- The outputs hold what is returned, if nothing brings it back. -/
theorem outputsHeld_iff {sent reply : TzTeeSpace} :
    (∀ i, source.params i = broughtBack base source (some (sent, reply)) i) ↔
      OutputsHeld base source reply := by
  refine forall_congr' fun i => ?_
  rw [broughtBack]
  constructor
  · intro h hout
    rw [if_pos hout] at h
    rw [TeecParameter.a, TeecParameter.b, h]
    exact ⟨rfl, rfl⟩
  · intro h
    split
    · obtain ⟨ha, hb⟩ := h ‹_›
      rw [← ha, ← hb]
      rfl
    · rfl

/-- **When the parameters arrive**, and their values come back: the references to a whole memory have its
size and offset 0, and in `TEEC_OpenSession` the outputs hold already what the secure world returns. -/
theorem paramsRight_iff (hop : operation ≠ 0) (h : (c.call operation).run.perform e m = some d) :
    ParamsRight c operation m d ↔ ParamsHold c operation e m := by
  obtain ⟨hexchange, hmem, hnothing⟩ | ⟨hrefuse, hsupported, ⟨sent, hexchange, hwritten⟩, hmem⟩ :=
    perform_cases hop h
  · refine iff_of_true ⟨fun sent reply hsent => ?_, fun i => ?_, ?_⟩ ?_
    · exact absurd (hexchange.symm.trans hsent) nofun
    · rw [hmem, hexchange]
      rfl
    · rw [hmem]
      exact ⟨rfl, rfl⟩
    · exact hnothing.imp_right Or.inl
  · have hpost := postProcessParameters_params (m.operation operation) c.base e.reply
    have hhold : ParamsHold c operation e m ↔ WholeSaid m (m.operation operation) ∧
        (c.isInvoke = true ∨ OutputsHeld c.base (m.operation operation) e.reply) := by
      rw [ParamsHold, hrefuse]
      simp [hsupported]
    have hback : (∀ i, (d.mem.operation operation).params i =
        broughtBack c.base (m.operation operation) d.exchange i) ↔
        (c.isInvoke = true ∨ OutputsHeld c.base (m.operation operation) e.reply) := by
      rw [hmem, hexchange]
      cases c.isInvoke with
      | true => exact iff_of_true (hpost.2.2 sent) (Or.inl rfl)
      | false =>
        rw [if_neg (by decide), outputsHeld_iff]
        simp
    have hheader : (d.mem.operation operation).started = (m.operation operation).started ∧
        (d.mem.operation operation).paramTypes = (m.operation operation).paramTypes := by
      rw [hmem]
      split
      · exact ⟨hpost.1, hpost.2.1⟩
      · exact ⟨rfl, rfl⟩
    rw [hhold, ← hwritten.described_iff, ← hback]
    constructor
    · intro hright
      exact ⟨hright.sent sent e.reply hexchange, hright.params⟩
    · rintro ⟨hdesc, hparams⟩
      refine ⟨fun sent' reply' hsent => ?_, hparams, hheader⟩
      obtain ⟨rfl, -⟩ := Prod.mk.inj (Option.some.inj (hexchange.symm.trans hsent))
      exact hdesc

/-- A client with an operation at 8: the whole of the shared memory at 4, and an output. -/
def wholeClient : ClientMem where
  comm := some ⟨0, 0, fun _ => 0⟩
  context _ := 0
  session _ := 0
  sharedMem _ := ⟨0x8000, 4096, 3, 7⟩
  operation _ := ⟨0, 0x2C, fun i => if i.val = 0 then ⟨4, 0, 0⟩ else ⟨0, 0, 0⟩⟩

/-- The secure world opens the session, and returns 5 in the output. -/
def openedSession : CommEnv := ⟨none, ⟨0x06, 0, fun word => if word = 13 then 5 else 0⟩, 0⟩

/-- `TEEC_OpenSession`, with no connection data. -/
def openWhole : ParamEntry := .openSession 16 20 (some fun _ => 0) 0 0 false

theorem openWhole_returns : ∃ d, (openWhole.call 8).run.perform openedSession wholeClient = some d ∧
    (ParamsRight openWhole 8 wholeClient d ↔ ParamsHold openWhole 8 openedSession wholeClient) :=
  ⟨_, rfl, paramsRight_iff (by decide) rfl⟩

/-- **A whole memory goes out with size 0**, and the output does not come back. -/
theorem whole_sent_empty : ∃ d sent,
    (openWhole.call 8).run.perform openedSession wholeClient = some d ∧
      d.exchange = some (sent, openedSession.reply) ∧
      sent.param openSessionOperation 0 = ⟨7, 0, 0⟩ ∧
      (openedSession.reply.param openSessionOperation 1).a = 5 ∧
      ((d.mem.operation 8).params 1).a = 0 ∧ ¬ParamsRight openWhole 8 wholeClient d := by
  refine ⟨_, _, rfl, rfl, rfl, rfl, rfl, fun hright => ?_⟩
  have hout := congrArg TeecParameter.a (hright.params 1)
  exact absurd hout (by decide)

end AndixOs.Client
