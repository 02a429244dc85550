/-
# What `post` undoes

A client sees its own ids and addresses only.  Between `pre` and `post` the space of a request holds those
of the secure world, so `post` is to put every one of them back, copy the outputs to the client and free
the temporary memories.

Each operation does that in its own way, and some forget a part of it: `REGISTER_MEM` leaves the id of the
context and the address, `OPEN_SESSION` leaves its parameters, and `RELEASE_MEM` reads the id from an entry
that it has just freed.  `undone_iff` says for each of them when nothing is left.
-/
import AndixOs.Driver.ParamRefs

namespace AndixOs.Driver

open AndixOs AndixOs.Swi

/-! ## 1. What a client is to find -/

/-- The ids and addresses of a request, and those that come back, are the client's.  A new object has the
id that the driver gives it, and a context that is gone may have none. -/
def OwnRefs (l : Linux) : TeeParams → TeeParams → Prop
  | .initCtx _, .initCtx context => context = l.pid
  | .finCtx context, .finCtx context' => context' = context ∨ context' = 0
  | .regMem m, .regMem m' => m'.context = m.context ∧ m'.paddr = m.paddr ∧ m'.memid = l.newId
  | .relMem m, .relMem m' => m'.context = m.context ∧ m'.paddr = m.paddr ∧ m'.memid = m.memid
  | .openSession context _ _ o, .openSession context' session' _ o' =>
    context' = context ∧ session' = l.newId ∧ SameRefs o.params o'.params
  | .closeSession session, .closeSession session' => session' = session
  | .invokeCommand session o, .invokeCommand session' o' =>
    session' = session ∧ SameRefs o.params o'.params
  | _, _ => False

/-- The copies that a request calls for. -/
def requestOutputs (l : Linux) (s : TeeDriver) : TeeParams → List UserCopy
  | .openSession _ _ _ o => if o.valid = 1 then outputs l s.memories 0 o.params else []
  | .invokeCommand _ o => outputs l s.memories 0 o.params
  | _ => []

/-- What comes back is the client's own, the outputs are copied, and no temporary memory is left. -/
def Returns (l : Linux) (s : TeeDriver) (p : TeeParams) (r : Option Handled) : Prop :=
  ∃ h, r = some h ∧ OwnRefs l p h.space.params ∧
    h.driver.copies = s.copies ++ requestOutputs l s p ∧ h.driver.live = s.live

/-- The request is undone. -/
def Undone (l : Linux) (a : Answer) (space : TzTeeSpace) (s : TeeDriver) : Prop :=
  Returns l s space.params (teeProcess l a space s)

/-! ## 2. When it is undone -/

/-- The first entry with the id on the client's side, and the first one with its id on the other. -/
def Twin {α : Type} (id tzId : α → UInt32) (xs : List α) (k : UInt32) (x x' : α) : Prop :=
  xs.find? (fun y => id y = k) = some x ∧ xs.find? (fun y => tzId y = tzId x) = some x'

/-- When an accepted request is undone.

* `INIT_CTX`: there is memory for the context, and the search in an empty table finds `NULL`; or the id
  of the secure world happens to be that of the process.
* `FIN_CTX`: the searches in the tables it has emptied find `NULL`.
* `REGISTER_MEM`: only where the ids of the context and the addresses of the memory happen to be the same.
* `RELEASE_MEM`: the freed entry still holds the id.
* `OPEN_SESSION`: no other context has the `tz_id` before the client's, and a valid operation has no
  references that would have to come back.
* `CLOSE_SESSION`: no other session has the `tz_id` before the client's.
* `INVOKE_CMD`: no other session has it, and all parameters come back. -/
def Restores (l : Linux) (a : Answer) (s : TeeDriver) : TeeParams → Prop
  | .initCtx _ =>
    if l.entry.isSome then s.contexts ≠ [] ∨ l.unset .contextById = true else a.id = l.pid
  | .finCtx context => ∃ c c', Twin TeeContext.id TeeContext.tzId s.contexts context c c' ∧
    SearchesEnd (l.unset .sessionByCtx) (fun x : TeeSession => x.ctx = c'.ptr) s.sessions ∧
    SearchesEnd (l.unset .memoryByCtx) (fun x : TeeSharedMemory => x.ctx = c'.ptr) s.memories
  | .regMem m => (∃ c, s.contexts.find? (fun x => x.id = m.context) = some c ∧ c.tzId = m.context) ∧
    (∃ vaddr, l.buf = some vaddr ∧ l.virtToPhys vaddr = m.paddr) ∧
    (∀ x ∈ s.memories, x.comPaddr ≠ m.paddr) ∧
    (l.node = true ∨ a.id = l.newId ∧ (s.memories ≠ [] ∨ l.unset .memoryByPaddr = true))
  | .relMem m => l.freed = m.memid
  | .openSession context _ _ o => (∃ c c', Twin TeeContext.id TeeContext.tzId s.contexts context c c' ∧
      if l.node then c'.id = context else c.tzId = context ∧ a.id = l.newId) ∧
    (o.valid = 1 → ∀ x ∈ o.params, Untouched s.memories x)
  | .closeSession session =>
    ∃ x x', Twin TeeSession.id TeeSession.tzId s.sessions session x x' ∧ x'.id = session
  | .invokeCommand session o =>
    (∃ x x', Twin TeeSession.id TeeSession.tzId s.sessions session x x' ∧ x'.id = session) ∧
    ParamsRestored l s.temps s.memories 0 o.params
  | .other _ => False

/-- What `kmalloc` promises: the addresses of entries are different, and a new one is not in use.  A loop
that ends with a new id has not found it. -/
structure Fresh (l : Linux) (s : TeeDriver) : Prop where
  sessions : (s.sessions.map TeeSession.ptr).Nodup
  memories : (s.memories.map TeeSharedMemory.ptr).Nodup
  context : ∀ a ∈ l.entry, a ∉ s.contexts.map TeeContext.ptr
  memory : ∀ a ∈ l.entry, a ∉ s.memories.map TeeSharedMemory.ptr
  session : ∀ a ∈ l.entry, a ∉ s.sessions.map TeeSession.ptr
  temp : ∀ i a, (l.param i).entry = some a → a ∉ s.temps.map TeeTmpMemory.ptr ∧ a ∉ s.live
  temps : ∀ i j a, (l.param i).entry = some a → (l.param j).entry = some a → i = j
  newId : ∀ x ∈ s.contexts, x.id ≠ l.newId

section Undo

variable {l : Linux} {a : Answer} {space space₁ : TzTeeSpace} {s s₁ : TeeDriver} {p p' : TeeParams}
  {r : Option Handled} {o : Operation} {context session tmpid k : UInt32} {m : RegMem}

theorem returns_report : Returns l s p (r.map Handled.report) ↔ Returns l s p r := by
  constructor
  · rintro ⟨h, hh, hrefs, hcopies, hlive⟩
    obtain ⟨h, rfl, rfl⟩ := Option.map_eq_some_iff.mp hh
    rw [report_params] at hrefs
    rw [report_driver] at hcopies hlive
    exact ⟨h, rfl, hrefs, hcopies, hlive⟩
  · rintro ⟨h, rfl, hrefs, hcopies, hlive⟩
    refine ⟨_, rfl, ?_⟩
    rw [report_params, report_driver]
    exact ⟨hrefs, hcopies, hlive⟩

/-- After an accepted `pre` all is up to `post`. -/
theorem undone_of_pre (hpages : l.pages = true) (hpre : eventPre l space s = some ⟨true, space₁, s₁⟩) :
    Undone l a space s ↔ Returns l s space.params (eventPost l (a.space space₁) s₁) := by
  rw [Undone, teeProcess, if_pos hpages, hpre]
  exact returns_report

theorem returns_ok : Returns l s p (Handled.ok space p' s₁) ↔
    OwnRefs l p p' ∧ s₁.copies = s.copies ++ requestOutputs l s p ∧ s₁.live = s.live :=
  ⟨fun ⟨_, rfl, h⟩ => h, fun h => ⟨_, rfl, h⟩⟩

theorem returns_error {ret : UInt32} : Returns l s p (Handled.error space ret s₁) ↔
    OwnRefs l p space.params ∧ s₁.copies = s.copies ++ requestOutputs l s p ∧ s₁.live = s.live :=
  ⟨fun ⟨_, rfl, h⟩ => h, fun h => ⟨_, rfl, h⟩⟩

theorem not_returns_none : ¬Returns l s p none := fun ⟨_, h, _⟩ => absurd h nofun

theorem returns_translated {f : Operation → TeeParams} {r : Option ParamsDone} :
    Returns l s p (Handled.translated space o f r) ↔ ∃ d, r = some d ∧
      OwnRefs l p (f { o with params := d.params }) ∧
      d.driver.copies = s.copies ++ requestOutputs l s p ∧ d.driver.live = s.live := by
  constructor
  · rintro ⟨h, hh, hret⟩
    obtain ⟨d, rfl, rfl⟩ := Option.map_eq_some_iff.mp hh
    exact ⟨d, rfl, hret⟩
  · rintro ⟨d, rfl, hret⟩
    exact ⟨_, rfl, hret⟩

/-- An entry that the client's id finds is found by its other id too, itself or another. -/
theorem exists_twin {α : Type} {id : α → UInt32} (tzId : α → UInt32) {xs : List α} {x : α}
    (hx : xs.find? (fun y => id y = k) = some x) : ∃ x', Twin id tzId xs k x x' := by
  obtain ⟨x', hx', -⟩ := exists_find_of_mem (p := fun y => tzId y = tzId x) (List.mem_of_find?_eq_some hx)
    (decide_eq_true rfl)
  exact ⟨x', hx, hx'⟩

theorem Twin.unique {α : Type} {id tzId : α → UInt32} {xs : List α} {x x' y y' : α}
    (hx : Twin id tzId xs k x x') (hy : Twin id tzId xs k y y') : x = y ∧ x' = y' := by
  obtain rfl := Option.some.inj (hx.1.symm.trans hy.1)
  exact ⟨rfl, Option.some.inj (hx.2.symm.trans hy.2)⟩

/-- There is one pair only. -/
theorem exists_twin_iff {α : Type} {id tzId : α → UInt32} {xs : List α} {x x' : α} {P : α → α → Prop}
    (hx : Twin id tzId xs k x x') : (∃ y y', Twin id tzId xs k y y' ∧ P y y') ↔ P x x' := by
  constructor
  · rintro ⟨y, y', hy, hP⟩
    obtain ⟨rfl, rfl⟩ := hx.unique hy
    exact hP
  · exact fun hP => ⟨x, x', hx, hP⟩

/-! ## 3. Each operation -/

theorem initCtx_returns (hnew : ∀ x ∈ s.contexts, x.id ≠ l.newId) (hspace : space.params = .initCtx a.id) :
    Returns l s (.initCtx context) (teeCtxInitPost l space a.id s) ↔ Restores l a s (.initCtx context) := by
  have hnone : s.contexts.find? (fun x => x.id = l.newId) = none :=
    List.find?_eq_none.mpr fun x hx => by simpa using hnew x hx
  cases hentry : l.entry with
  | none =>
    rw [teeCtxInitPost, teeContextAdd, hentry, orError_none, returns_error]
    simp [requestOutputs, Restores, hentry, hspace, OwnRefs]
  | some ptr =>
    rw [teeCtxInitPost, teeContextAdd, hentry, Restores, hentry, Option.isSome_some, if_pos rfl]
    by_cases hunset : s.contexts ≠ [] ∨ l.unset .contextById = true
    · have hfound : teeContextFindById l l.newId s = some none :=
        (lookup_of_unset hunset).trans (congrArg some hnone)
      refine iff_of_true ?_ hunset
      simp only [hfound, Added.afterLoop, orError_some, returns_ok]
      exact ⟨rfl, (List.append_nil _).symm, trivial⟩
    · have hfound : teeContextFindById l l.newId s = none := by
        obtain ⟨hempty, hunset⟩ := not_or.mp hunset
        rw [teeContextFindById, not_not.mp hempty, (Bool.not_eq_true _).mp hunset, lookup_nil]
      refine iff_of_false ?_ hunset
      simp only [hfound, Added.afterLoop]
      exact not_returns_none

theorem finCtx_returns (hsessions : (s.sessions.map TeeSession.ptr).Nodup)
    (hmemories : (s.memories.map TeeSharedMemory.ptr).Nodup) {c : TeeContext}
    (hc : s.contexts.find? (fun x => x.id = context) = some c) :
    Returns l s (.finCtx context) (teeCtxFinalizePost l space c.tzId s) ↔
      Restores l a s (.finCtx context) := by
  obtain ⟨c', hc'⟩ := exists_twin TeeContext.tzId hc
  have hfound : teeContextFindByTzid l c.tzId s = some (some c') := lookup_of_find hc'.2
  rw [teeCtxFinalizePost, hfound, Restores, exists_twin_iff hc']
  by_cases hs : SearchesEnd (l.unset .sessionByCtx) (fun x : TeeSession => x.ctx = c'.ptr) s.sessions
  · by_cases hm : SearchesEnd (l.unset .memoryByCtx) (fun x : TeeSharedMemory => x.ctx = c'.ptr) s.memories
    · refine iff_of_true ?_ ⟨hs, hm⟩
      simp only [purge_eq hsessions (Nat.lt_succ_self _) hs, purge_eq hmemories (Nat.lt_succ_self _) hm,
        returns_ok]
      exact ⟨.inr rfl, (List.append_nil _).symm, rfl⟩
    · refine iff_of_false ?_ fun h => hm h.2
      simp only [purge_eq hsessions (Nat.lt_succ_self _) hs, purge_eq_none _ hm]
      exact not_returns_none
  · refine iff_of_false ?_ fun h => hs h.1
    simp only [purge_eq_none _ hs]
    exact not_returns_none

theorem relMem_returns {x : TeeSharedMemory}
    (hx : s.memories.find? (fun x => x.id = m.memid) = some x) :
    Returns l s (.relMem m) (teeMemRelPost l space { m with memid := x.tzId } s) ↔
      Restores l a s (.relMem m) := by
  obtain ⟨x', hx'⟩ := exists_twin TeeSharedMemory.tzId hx
  have hfound : teeMemoryFindByTzid l x.tzId s = some (some x') := lookup_of_find hx'.2
  rw [teeMemRelPost, hfound, orError_some, returns_ok]
  simp [OwnRefs, Restores, requestOutputs, teeMemoryFree]

theorem closeSession_returns {x : TeeSession}
    (hx : s.sessions.find? (fun x => x.id = session) = some x) :
    Returns l s (.closeSession session) (teeSessionClosePost l space x.tzId s) ↔
      Restores l a s (.closeSession session) := by
  obtain ⟨x', hx'⟩ := exists_twin TeeSession.tzId hx
  have hfound : teeSessionFindByTzid l x.tzId s = some (some x') := lookup_of_find hx'.2
  rw [teeSessionClosePost, hfound, orError_some, returns_ok, Restores, exists_twin_iff hx']
  simp [OwnRefs, requestOutputs, teeSessionFree]

/-- The search by address after `tee_mem_reg_pre`, where the context has been found. -/
theorem regMem_returns {c : TeeContext} {ptr vaddr : Nat}
    (hc : s.contexts.find? (fun x => x.id = m.context) = some c) (hbuf : l.buf = some vaddr)
    (hnew : s.memories.find? (fun x => x.id = l.newId) = none)
    (hspace : space.params = .regMem ⟨c.tzId, l.virtToPhys vaddr, m.size, m.flags, a.id⟩) :
    Returns l s (.regMem m) (teeMemRegPost l space ⟨c.tzId, l.virtToPhys vaddr, m.size, m.flags, a.id⟩
        { s with memories := listAdd l.node (newMemory l c m ptr vaddr) s.memories }) ↔
      Restores l a s (.regMem m) := by
  obtain ⟨c', -, hc'⟩ := exists_twin TeeContext.tzId hc
  have hctx : ∀ ms, teeContextFindByTzid l c.tzId { s with memories := ms } = some (some c') := fun _ =>
    lookup_of_find hc'
  have hrestores : Restores l a s (.regMem m) ↔ c.tzId = m.context ∧ l.virtToPhys vaddr = m.paddr ∧
      (∀ x ∈ s.memories, x.comPaddr ≠ m.paddr) ∧
      (l.node = true ∨ a.id = l.newId ∧ (s.memories ≠ [] ∨ l.unset .memoryByPaddr = true)) := by
    simp [Restores, hc, hbuf]
  rw [teeMemRegPost, hctx, orError_some, hrestores, teeMemoryFindByPaddr]
  by_cases hold : ∀ x ∈ s.memories, x.comPaddr ≠ l.virtToPhys vaddr
  · have hnone : s.memories.find? (fun x => x.comPaddr = l.virtToPhys vaddr) = none :=
      List.find?_eq_none.mpr fun x hx => by simpa using hold x hx
    have hleft : (c.tzId = m.context ∧ l.virtToPhys vaddr = m.paddr ∧
        (∀ x ∈ s.memories, x.comPaddr ≠ m.paddr) ∧
        (l.node = true ∨ a.id = l.newId ∧ (s.memories ≠ [] ∨ l.unset .memoryByPaddr = true))) ↔
        c.tzId = m.context ∧ l.virtToPhys vaddr = m.paddr ∧
        (l.node = true ∨ a.id = l.newId ∧ (s.memories ≠ [] ∨ l.unset .memoryByPaddr = true)) :=
      ⟨fun h => ⟨h.1, h.2.1, h.2.2.2⟩, fun h => ⟨h.1, h.2.1, h.2.1 ▸ hold, h.2.2⟩⟩
    rw [hleft]
    cases hnode : l.node with
    | true =>
      -- the new memory is found
      have hfind := find_snoc (p := fun x : TeeSharedMemory => x.comPaddr = l.virtToPhys vaddr)
        (x := newMemory l c m ptr vaddr) (fun x hx => by simpa using hold x hx) (decide_eq_true rfl)
      simp only [listAdd, if_true, lookup_of_find hfind, orError_some, returns_ok]
      simp [OwnRefs, requestOutputs, newMemory, RegMem.fill]
    | false =>
      by_cases hunset : s.memories ≠ [] ∨ l.unset .memoryByPaddr = true
      · simp only [listAdd, Bool.false_eq_true, if_false, lookup_of_unset hunset, hnone, orError_none,
          returns_error]
        simp [OwnRefs, requestOutputs, hspace, hunset]
      · refine iff_of_false ?_ fun h => h.2.2.elim (fun h => Bool.false_ne_true h) fun h => hunset h.2
        obtain ⟨hempty, hunset⟩ := not_or.mp hunset
        simp only [listAdd, Bool.false_eq_true, if_false, not_not.mp hempty,
          (Bool.not_eq_true _).mp hunset, lookup_nil]
        exact not_returns_none
  · -- an older memory is found, whose id is another
    obtain ⟨o, ho, hpaddr⟩ : ∃ o ∈ s.memories, o.comPaddr = l.virtToPhys vaddr := by
      by_contra hno
      exact hold fun x hx he => hno ⟨x, hx, he⟩
    obtain ⟨y, hy, -⟩ := exists_find_of_mem
      (p := fun x : TeeSharedMemory => x.comPaddr = l.virtToPhys vaddr) ho (decide_eq_true hpaddr)
    have hfind : (listAdd l.node (newMemory l c m ptr vaddr) s.memories).find?
        (fun x => x.comPaddr = l.virtToPhys vaddr) = some y := by
      rw [listAdd]
      split
      · rw [List.find?_append, hy, Option.some_or]
      · exact hy
    have hid : y.id ≠ l.newId := by simpa using List.find?_eq_none.mp hnew y (List.mem_of_find?_eq_some hy)
    refine iff_of_false ?_ fun h => hold (h.2.1 ▸ h.2.2.1)
    simp only [lookup_of_find hfind, orError_some, returns_ok]
    exact fun h => hid h.1.2.2

/-- The temporary memories of a request are new. -/
theorem Fresh.taken (hfresh : Fresh l s) {ps ps' : List (TeecType × TeecParamter)}
    {new : List (Bool × TeeTmpMemory)} (htaken : Taken l s.memories 0 ps ps' new) :
    (addresses new).Nodup ∧ (∀ x ∈ addresses new, x ∉ s.temps.map TeeTmpMemory.ptr) ∧
      ∀ x ∈ addresses new, x ∉ s.live := by
  refine ⟨htaken.nodup hfresh.temps, fun x hx => ?_, fun x hx => ?_⟩
  · obtain ⟨j, -, hj⟩ := htaken.address_of hx
    exact (hfresh.temp j x hj).1
  · obtain ⟨j, -, hj⟩ := htaken.address_of hx
    exact (hfresh.temp j x hj).2

theorem invokeCommand_returns (hfresh : Fresh l s) {x : TeeSession}
    (hx : s.sessions.find? (fun x => x.id = session) = some x) {ps : List (TeecType × TeecParamter)}
    (hloop : paramLoop (paramToTz l) 0 o.params s = some ⟨none, ps, s₁⟩) :
    Returns l s (.invokeCommand session o)
        (teeInvokePost l space x.tzId (a.operation { o with params := ps }) s₁) ↔
      Restores l a s (.invokeCommand session o) := by
  obtain ⟨x', hx'⟩ := exists_twin TeeSession.tzId hx
  obtain ⟨new, htaken, rfl⟩ := toTz_taken hloop
  obtain ⟨hnodup, hT, hL⟩ := hfresh.taken htaken
  have hfound : teeSessionFindByTzid l x.tzId (s.withTemps new) = some (some x') := lookup_of_find hx'.2
  have hback := fromTz_iff (htaken.answer a) (s := s.withTemps new) rfl rfl rfl hnodup hT hL
  rw [teeInvokePost, hfound, orError_some, returns_translated, Restores, exists_twin_iff hx', ← hback]
  constructor
  · rintro ⟨d, hd, ⟨hid, hrefs⟩, hcopies, hlive⟩
    exact ⟨hid, d, hd, hrefs, hcopies, hlive⟩
  · rintro ⟨hid, d, hd, hrefs, hcopies, hlive⟩
    exact ⟨d, hd, ⟨hid, hrefs⟩, hcopies, hlive⟩

/-- The secure world leaves the references alone. -/
theorem sameRefs_mapIdx (ps : List (TeecType × TeecParamter))
    {f : Nat → TeecType × TeecParamter → TeecType × TeecParamter} (htype : ∀ k x, (f k x).1 = x.1)
    (href : ∀ k x, x.1.isTemp = true ∨ x.1.isRegistered = true → f k x = x) : SameRefs ps (ps.mapIdx f) := by
  induction ps generalizing f with
  | nil => exact .nil
  | cons x ps ih =>
    rw [List.mapIdx_cons]
    refine .cons ⟨htype 0 x, fun hx => by rw [href 0 x hx]⟩ ?_
    exact ih (fun k => htype (k + 1)) fun k => href (k + 1)

/-- What `tee_session_open_pre` has made of the operation. -/
theorem openOperation_cases {s₀ : TeeDriver} {ps : List (TeecType × TeecParamter)}
    (hloop : (if o.valid = 1 then paramLoop (paramToTz l) 0 o.params s₀ else some ⟨none, o.params, s₀⟩) =
      some ⟨none, ps, s₁⟩) :
    ∃ new, s₁ = s₀.withTemps new ∧
      (SameRefs o.params (ps.mapIdx a.param) ∧
          (if o.valid = 1 then outputs l s₀.memories 0 o.params else []) = [] ∧ addresses new = [] ↔
        (o.valid = 1 → ∀ x ∈ o.params, Untouched s₀.memories x)) := by
  by_cases hvalid : o.valid = 1
  · rw [if_pos hvalid] at hloop
    obtain ⟨new, htaken, rfl⟩ := toTz_taken hloop
    refine ⟨new, rfl, ?_⟩
    rw [if_pos hvalid, untouched_iff (htaken.answer a)]
    exact ⟨fun h _ => h, fun h => h hvalid⟩
  · rw [if_neg hvalid] at hloop
    obtain ⟨-, rfl, rfl⟩ := ParamsDone.mk.inj (Option.some.inj hloop)
    refine ⟨[], by simp [TeeDriver.withTemps, kept, addresses], ?_⟩
    rw [if_neg hvalid]
    exact iff_of_true ⟨sameRefs_mapIdx _ (param_fst a) (param_of_ref a), rfl, rfl⟩ fun h => absurd h hvalid

theorem openSession_returns {c : TeeContext} {ptr : Nat} {ps : List (TeecType × TeecParamter)}
    (hc : s.contexts.find? (fun x => x.id = context) = some c)
    (hnew : lookup (l.unset .sessionById) (fun x : TeeSession => x.id = l.newId) s.sessions = some none)
    (hloop : (if o.valid = 1 then paramLoop (paramToTz l) 0 o.params (withNewSession l c ptr s)
      else some ⟨none, o.params, withNewSession l c ptr s⟩) = some ⟨none, ps, s₁⟩)
    (hspace : space.params = .openSession c.tzId a.id l.newId (a.operation { o with params := ps })) :
    Returns l s (.openSession context session tmpid o)
        (teeSessionOpenPost l space c.tzId a.id l.newId (a.operation { o with params := ps }) s₁) ↔
      Restores l a s (.openSession context session tmpid o) := by
  obtain ⟨c', hc'⟩ := exists_twin TeeContext.tzId hc
  obtain ⟨new, rfl, hop⟩ := openOperation_cases (a := a) hloop
  have hfound : teeContextFindByTzid l c.tzId ((withNewSession l c ptr s).withTemps new) = some (some c') :=
    lookup_of_find hc'.2
  -- what the operation needs does not depend on the ids
  have hids : ∀ {P : Prop}, ((P ∧ SameRefs o.params (ps.mapIdx a.param)) ∧
      s.copies = s.copies ++ requestOutputs l s (.openSession context session tmpid o) ∧
      s.live ++ addresses new = s.live) ↔ P ∧ (o.valid = 1 → ∀ x ∈ o.params, Untouched s.memories x) := by
    intro P
    rw [List.self_eq_append_right, List.append_right_eq_self, and_assoc]
    exact and_congr_right' hop
  rw [teeSessionOpenPost, hfound, orError_some, Restores, exists_twin_iff hc', ← hids]
  cases hnode : l.node with
  | true =>
    have hnone := List.find?_eq_none.mp (lookup_eq_none hnew)
    have hfind : teeSessionFindById l l.newId ((withNewSession l c ptr s).withTemps new) =
        some (some (newSession l c ptr)) := by
      refine lookup_of_find ?_
      simp only [TeeDriver.withTemps, withNewSession, listAdd, hnode, if_true]
      exact find_snoc (fun x hx => by simpa using hnone x hx) (decide_eq_true rfl)
    rw [hfind, orError_some, returns_ok]
    simp only [OwnRefs, newSession, true_and, if_true]
    rfl
  | false =>
    have hfind : teeSessionFindById l l.newId ((withNewSession l c ptr s).withTemps new) = some none := by
      refine Eq.trans ?_ hnew
      simp only [teeSessionFindById, TeeDriver.withTemps, withNewSession, listAdd, hnode, Bool.false_eq_true,
        if_false]
    rw [hfind, orError_none, returns_error, hspace]
    simp only [OwnRefs, Bool.false_eq_true, if_false, and_assoc]
    rfl

/-! ## 4. All of them -/

/-- **An accepted request is undone exactly where `Restores` says so.** -/
theorem undone_iff (hfresh : Fresh l s) (hacc : Accepted l space s) :
    Undone l a space s ↔ Restores l a s space.params := by
  obtain ⟨hpages, h, hpre, hs⟩ := hacc
  obtain ⟨ret, params⟩ := space
  cases params with
  | initCtx context =>
    rw [undone_of_pre hpages rfl]
    exact initCtx_returns hfresh.newId rfl
  | finCtx context =>
    obtain ⟨c, hc, rfl⟩ := teeCtxFinalizePre_ok hs hpre
    rw [undone_of_pre hpages hpre]
    exact finCtx_returns hfresh.sessions hfresh.memories hc
  | regMem m =>
    obtain ⟨c, ptr, vaddr, hc, -, hbuf, hnew, rfl⟩ := teeMemRegPre_ok hfresh.memory hs hpre
    rw [undone_of_pre hpages hpre]
    exact regMem_returns hc hbuf (lookup_eq_none hnew) rfl
  | relMem m =>
    obtain ⟨x, hx, rfl⟩ := teeMemRelPre_ok hs hpre
    rw [undone_of_pre hpages hpre]
    exact relMem_returns hx
  | openSession context session tmpid o =>
    obtain ⟨c, ptr, hc, -, hnew, ps, s₁, hloop, rfl⟩ := teeSessionOpenPre_ok hs hpre
    rw [undone_of_pre hpages hpre]
    exact openSession_returns hc hnew hloop rfl
  | closeSession session =>
    obtain ⟨x, hx, rfl⟩ := teeSessionClosePre_ok hs hpre
    rw [undone_of_pre hpages hpre]
    exact closeSession_returns hx
  | invokeCommand session o =>
    obtain ⟨x, ps, s₁, hx, hloop, rfl⟩ := teeInvokePre_ok hs hpre
    rw [undone_of_pre hpages hpre]
    exact invokeCommand_returns hfresh hx hloop
  | other op => exact absurd hpre (not_error hs)

end Undo

/-! ## 5. A buffer of a client -/

/-- A client of process 42 with a context and a session. -/
def oneClient : TeeDriver := ⟨[⟨1, 42, 7⟩], [⟨2, 5, 1, 3⟩], [], [], [], []⟩

/-- One buffer of 16 bytes, in both directions. -/
def oneBuffer : Operation := .of 0x7 (fun _ => ⟨0x8000, 16, 0⟩) 1

def calmAnswer : Answer := ⟨teecSuccess, 4, fun _ => ⟨0, 0, 0⟩⟩

theorem fresh_calm : Fresh calmLinux oneClient where
  sessions := by decide
  memories := by decide
  context := by simp [calmLinux, oneClient]
  memory := by simp [oneClient]
  session := by simp [calmLinux, oneClient]
  temp := by simp [oneClient]
  temps := by
    intro i j a hi hj
    have hij := Option.some.inj (hi.trans hj.symm)
    omega
  newId := by decide

/-- A command with the buffer comes back as it went. -/
theorem invoke_undone : Undone calmLinux calmAnswer ⟨0, .invokeCommand 5 oneBuffer⟩ oneClient := by
  refine (undone_iff fresh_calm ⟨rfl, _, rfl, rfl⟩).mpr ⟨⟨_, _, ⟨rfl, rfl⟩, rfl⟩, ?_⟩
  have hparams : oneBuffer.params = [(.memrefTempInout, ⟨0x8000, 16, 0⟩), (.none, ⟨0x8000, 16, 0⟩),
      (.none, ⟨0x8000, 16, 0⟩), (.none, ⟨0x8000, 16, 0⟩)] := by decide
  rw [hparams]
  simp [ParamsRestored, TempRestored, TeecType.isTemp, TeecType.isRegistered, calmLinux, oneClient]

/-- **A new session with the buffer does not**: nothing is copied to the client, the temporary memory
stays, and what comes back is a physical address. -/
theorem open_not_undone :
    Fresh calmLinux oneClient ∧ Accepted calmLinux ⟨0, .openSession 42 0 0 oneBuffer⟩ oneClient ∧
      (∃ h, teeProcess calmLinux calmAnswer ⟨0, .openSession 42 0 0 oneBuffer⟩ oneClient = some h ∧
        h.driver.copies = [] ∧ h.driver.live = [100] ∧
        h.space.params = .openSession 42 6 6 ⟨[(.memrefTempInout, ⟨0x60000065, 16, 0⟩), (.none, ⟨0, 0, 0⟩),
          (.none, ⟨0, 0, 0⟩), (.none, ⟨0, 0, 0⟩)], 1⟩) ∧
      ¬Undone calmLinux calmAnswer ⟨0, .openSession 42 0 0 oneBuffer⟩ oneClient := by
  refine ⟨fresh_calm, ⟨rfl, _, rfl, rfl⟩, ⟨_, rfl, rfl, rfl, by decide⟩, ?_⟩
  rintro ⟨h, hh, -, -, hlive⟩
  obtain rfl := Option.some.inj hh
  exact absurd hlive (by decide)

end AndixOs.Driver
