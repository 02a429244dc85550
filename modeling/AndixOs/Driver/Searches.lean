/-
# The searches of a request

The functions that search the driver's tables set their result in the loop only.  A search in an empty
table returns what the variable held, and unless that is `NULL` the driver takes it for an entry.  Such a
request does not come back.

Which searches a request makes depends on what it asks for, on what was found before and on what Linux
gives it.  `Searched` says of each operation that none of its searches goes wild.

* `isSome_teeProcess_iff`: the requests that come back.
-/
import AndixOs.Driver.InStep
import AndixOs.Driver.Undo

namespace AndixOs.Driver

open AndixOs AndixOs.Swi

/-! ## 1. Which searches there are -/

/-- The searches of `tee_translate_parameter_to_tz`: one for each registered memory, up to the first
parameter that it does not take. -/
def ParamsSearched (l : Linux) (ms : List TeeSharedMemory) : Nat → List (TeecType × TeecParamter) → Prop
  | _, [] => True
  | i, (t, p) :: ps =>
    (t.isTemp = false → t.isRegistered = true → Searchable (l.unset .memoryById) ms) ∧
    (ParamAccepted l ms i t p → ParamsSearched l ms (i + 1) ps)

/-- The temporary memory of a parameter. -/
def tempOf (l : Linux) (i : Nat) (p : TeecParamter) : Option TeeTmpMemory :=
  (l.param i).entry.bind fun ptr =>
    (l.param i).buf.map fun vaddr => ⟨ptr, p.buffer, vaddr, l.virtToPhys vaddr, p.size⟩

/-- The temporary memories that come into the list. -/
def newTemps (l : Linux) : Nat → List (TeecType × TeecParamter) → List TeeTmpMemory
  | _, [] => []
  | i, (t, p) :: ps =>
    (if t.isTemp && (l.param i).node then (tempOf l i p).toList else []) ++ newTemps l (i + 1) ps

/-- The searches of `tee_translate_parameter_from_tz` in the temporary memories.  Each that is found and
copied is freed, and the first that is not ends the loop.  The registered ones were found on the way to the
secure world already. -/
def TempsSearched (l : Linux) : Nat → List TeeTmpMemory → List (TeecType × TeecParamter) → Prop
  | _, _, [] => True
  | i, temps, (t, p) :: ps =>
    if t.isTemp then
      Searchable (l.unset .tmpByPaddr) temps ∧
        ∀ new ∈ tempOf l i p, ∀ mem ∈ temps.find? fun x => x.comPaddr = new.comPaddr,
          t = .memrefTempInput ∨ (l.param i).copiedOut = true →
            TempsSearched l (i + 1) (remove TeeTmpMemory.ptr mem.ptr temps) ps
    else
      (t.isRegistered = true → t = .memrefPartialInput ∨ (l.param i).copiedOut = true) →
        TempsSearched l (i + 1) temps ps

/-- **No search goes wild.**

* `INIT_CTX`: with memory for the context, an id is looked for that no context has.
* `FIN_CTX`: the context is looked for, and its sessions and memories until there are none.
* `REGISTER_MEM`: the context, a new id, and after the secure world the memory by its address.
* `RELEASE_MEM`, `CLOSE_SESSION`: what is to be released.
* `OPEN_SESSION`: the context, a new id, and the memories of a valid operation.
* `INVOKE_CMD`: the session and the memories, and on the way back the temporary ones. -/
def Searched (l : Linux) (s : TeeDriver) : TeeParams → Prop
  | .initCtx _ => l.entry.isSome = true → Searchable (l.unset .contextById) s.contexts
  | .finCtx context => Searchable (l.unset .contextById) s.contexts ∧
    ∀ c c', Twin TeeContext.id TeeContext.tzId s.contexts context c c' →
      SearchesEnd (l.unset .sessionByCtx) (fun x : TeeSession => x.ctx = c'.ptr) s.sessions ∧
      SearchesEnd (l.unset .memoryByCtx) (fun x : TeeSharedMemory => x.ctx = c'.ptr) s.memories
  | .regMem m => ¬m.size > teecConfigSharedmemMaxSize → Searchable (l.unset .contextById) s.contexts ∧
    ((∃ c ∈ s.contexts, c.id = m.context) → l.entry.isSome = true →
      Searchable (l.unset .memoryById) s.memories ∧
      (l.buf.isSome = true → l.node = true ∨ Searchable (l.unset .memoryByPaddr) s.memories))
  | .relMem _ => Searchable (l.unset .memoryById) s.memories
  | .openSession context _ _ o => Searchable (l.unset .contextById) s.contexts ∧
    ((∃ c ∈ s.contexts, c.id = context) → l.entry.isSome = true →
      Searchable (l.unset .sessionById) s.sessions ∧
      (o.valid = 1 → ParamsSearched l s.memories 0 o.params))
  | .closeSession _ => Searchable (l.unset .sessionById) s.sessions
  | .invokeCommand session o => Searchable (l.unset .sessionById) s.sessions ∧
    ((∃ x ∈ s.sessions, x.id = session) → ParamsSearched l s.memories 0 o.params ∧
      (ParamsAccepted l s.memories 0 o.params →
        TempsSearched l 0 (s.temps ++ newTemps l 0 o.params) o.params))
  | .other _ => True

/-- The ids among which the new one of a request is looked for. -/
def TeeDriver.ids (s : TeeDriver) : TeeParams → List UInt32
  | .initCtx _ => s.contexts.map TeeContext.id
  | .regMem _ => s.memories.map TeeSharedMemory.id
  | .openSession .. => s.sessions.map TeeSession.id
  | _ => []

/-- Linux gives no address that is in use, and its loop no id. -/
structure Linux.Fresh (l : Linux) (s : TeeDriver) (p : TeeParams) : Prop where
  context : ∀ a ∈ l.entry, a ∉ s.contexts.map TeeContext.ptr
  session : ∀ a ∈ l.entry, a ∉ s.sessions.map TeeSession.ptr
  memory : ∀ a ∈ l.entry, a ∉ s.memories.map TeeSharedMemory.ptr
  newId : l.newId ∉ s.ids p

/-- The sessions have different addresses, and so have the memories. -/
structure Distinct (s : TeeDriver) : Prop where
  sessions : (s.sessions.map TeeSession.ptr).Nodup
  memories : (s.memories.map TeeSharedMemory.ptr).Nodup

/-! ## 2. The parameters -/

section Params

variable {body : Nat → TeecType → TeecParamter → TeeDriver → Option ParamDone} {l : Linux}
  {ms : List TeeSharedMemory} {i : Nat} {t : TeecType} {p q : TeecParamter}
  {ps ps' : List (TeecType × TeecParamter)} {new : List (Bool × TeeTmpMemory)} {s s' : TeeDriver}

/-- A round that succeeds leaves the rest of the loop. -/
theorem isSome_next (hbody : body i t p s = some ⟨none, q, s'⟩) :
    (paramLoop body i ((t, p) :: ps) s).isSome = true ↔ (paramLoop body (i + 1) ps s').isSome = true := by
  rw [paramLoop, hbody, Option.isSome_map]

/-- An error ends the loop. -/
theorem isSome_stop {e : UInt32} (hbody : body i t p s = some ⟨some e, q, s'⟩) :
    (paramLoop body i ((t, p) :: ps) s).isSome = true := by
  rw [paramLoop, hbody]
  rfl

theorem isSome_wild (hbody : body i t p s = none) : (paramLoop body i ((t, p) :: ps) s).isSome = false := by
  rw [paramLoop, hbody]
  rfl

/-- A round to the secure world searches for registered memories only. -/
theorem isSome_paramToTz : (paramToTz l i t p s).isSome = true ↔
    (t.isTemp = false → t.isRegistered = true → Searchable (l.unset .memoryById) s.memories) := by
  rw [paramToTz]
  by_cases ht : t.isTemp = true
  · rw [if_pos ht]
    refine iff_of_true ?_ fun hno => absurd (ht.symm.trans hno) (by decide)
    cases (l.param i).entry with
    | none => rfl
    | some ptr =>
      cases (l.param i).buf with
      | none => rfl
      | some vaddr =>
        simp only
        split <;> rfl
  rw [if_neg ht]
  by_cases hreg : t.isRegistered = true
  · have hfound : (teeMemoryFindById l p.memid s).isSome = true ↔
        (t.isTemp = false → t.isRegistered = true → Searchable (l.unset .memoryById) s.memories) :=
      isSome_lookup.trans ⟨fun h _ _ => h, fun h => h ((Bool.not_eq_true _).mp ht) hreg⟩
    rw [if_pos hreg, ← hfound]
    cases teeMemoryFindById l p.memid s with
    | none => rfl
    | some found =>
      refine iff_of_true ?_ rfl
      cases found with
      | none => rfl
      | some mem =>
        simp only
        split <;> rfl
  · rw [if_neg hreg]
    exact iff_of_true rfl fun _ h => absurd h hreg

theorem isSome_toTz : (paramLoop (paramToTz l) i ps s).isSome = true ↔ ParamsSearched l s.memories i ps := by
  induction ps generalizing i s with
  | nil => exact iff_of_true rfl trivial
  | cons x ps ih =>
    obtain ⟨t, p⟩ := x
    rw [ParamsSearched, ← isSome_paramToTz (p := p)]
    rcases hbody : paramToTz l i t p s with _ | ⟨_ | e, p', s'⟩
    · rw [isSome_wild hbody]
      exact iff_of_false Bool.false_ne_true fun h => Bool.false_ne_true h.1
    · have hmemories : s'.memories = s.memories := (paramToTz_same hbody).memories
      rw [isSome_next hbody, ih, hmemories]
      exact ⟨fun h => ⟨rfl, fun _ => h⟩, fun h => h.2 ((paramToTz_ok_iff hbody).mp rfl)⟩
    · refine iff_of_true (isSome_stop hbody) ⟨rfl, fun h => ?_⟩
      exact absurd ((paramToTz_ok_iff hbody).mpr h) (Option.some_ne_none e)

/-- The temporary memories on record are those that the parameters call for. -/
theorem Taken.kept_eq (h : Taken l ms i ps ps' new) : kept new = newTemps l i ps := by
  induction h with
  | nil i => rfl
  | @temp i t p ps ps' new ptr vaddr ht hentry hbuf _ ih =>
    rw [newTemps, ← ih]
    cases hnode : (l.param i).node <;> simp [kept, ht, tempOf, hentry, hbuf]
  | registered ht _ _ _ ih => rw [newTemps, ← ih, ht]; rfl
  | value ht _ _ _ ih => rw [newTemps, ← ih, ht]; rfl

/-- A round for a temporary memory that the search in the list does not find. -/
theorem paramFromTz_missing (ht : t.isTemp = true) (hs : Searchable (l.unset .tmpByPaddr) s.temps)
    (hfind : s.temps.find? (fun x => x.comPaddr = p.buffer) = none) :
    paramFromTz l i t p s = some ⟨some teecErrorBadParameters, p, s⟩ := by
  have hfound : teeTmpMemoryFindByPaddr l p.buffer s = some none :=
    (lookup_of_unset hs).trans (congrArg some hfind)
  rw [paramFromTz, if_pos ht, hfound]

theorem paramFromTz_wild (ht : t.isTemp = true) (hs : ¬Searchable (l.unset .tmpByPaddr) s.temps) :
    paramFromTz l i t p s = none := by
  have hfound : teeTmpMemoryFindByPaddr l p.buffer s = none :=
    Option.not_isSome_iff_eq_none.mp fun h => hs (isSome_lookup.mp h)
  rw [paramFromTz, if_pos ht, hfound]

/-- On the way back a temporary memory is looked for by the address that it was given. -/
theorem isSome_fromTz (h : Taken l ms i ps ps' new) (hms : s.memories = ms) :
    (paramLoop (paramFromTz l) i ps' s).isSome = true ↔ TempsSearched l i s.temps ps := by
  induction h generalizing s with
  | nil i => exact iff_of_true rfl trivial
  | @temp i t p ps ps' new ptr vaddr ht hentry hbuf _ ih =>
    have hnew : tempOf l i p = some ⟨ptr, p.buffer, vaddr, l.virtToPhys vaddr, p.size⟩ := by
      rw [tempOf, hentry, hbuf]
      rfl
    rw [TempsSearched, if_pos ht, hnew]
    simp only [Option.mem_def, Option.some.injEq, forall_eq']
    by_cases hs : Searchable (l.unset .tmpByPaddr) s.temps
    · cases hfind : s.temps.find? fun x => x.comPaddr = l.virtToPhys vaddr with
      | none =>
        have hround := paramFromTz_missing (l := l) (i := i) (p := withRef p (l.virtToPhys vaddr)) ht hs hfind
        exact iff_of_true (isSome_stop hround) ⟨hs, by simp⟩
      | some mem =>
        have hround := paramFromTz_temp (l := l) (i := i) (p := withRef p (l.virtToPhys vaddr)) ht hfind
        by_cases hok : t = .memrefTempInput ∨ (l.param i).copiedOut = true
        · rw [if_pos hok] at hround
          have hrest := ih (s := teeTmpMemFree mem { s with copies := s.copies ++ tempCopy t mem }) hms
          rw [isSome_next hround, hrest]
          exact ⟨fun h => ⟨hs, fun _ hmem _ => Option.some.inj hmem ▸ h⟩, fun h => h.2 mem rfl hok⟩
        · rw [if_neg hok] at hround
          exact iff_of_true (isSome_stop hround) ⟨hs, fun _ _ h => absurd h hok⟩
    · rw [isSome_wild (paramFromTz_wild ht hs)]
      exact iff_of_false Bool.false_ne_true fun h => hs h.1
  | @registered i t p ps ps' new mem ht hreg hmem _ ih =>
    obtain ⟨m', hm', -⟩ := exists_find_of_mem (p := fun x : TeeSharedMemory => x.tzId = mem.tzId)
      (List.mem_of_find?_eq_some hmem) (decide_eq_true rfl)
    have hround := paramFromTz_registered (l := l) (i := i) (p := withRef p mem.tzId) ht hreg (hms ▸ hm')
    rw [TempsSearched, if_neg (by simp [ht])]
    by_cases hok : t = .memrefPartialInput ∨ (l.param i).copiedOut = true
    · rw [if_pos hok] at hround
      have hrest := ih (s := { s with copies := s.copies ++ memoryCopy t m' }) hms
      rw [isSome_next hround, hrest]
      exact ⟨fun h _ => h, fun h => h fun _ => hok⟩
    · rw [if_neg hok] at hround
      exact iff_of_true (isSome_stop hround) fun h => absurd (h hreg) hok
  | @value i t p ps ps' new ht hreg p' _ ih =>
    have hround : paramFromTz l i t p' s = some ⟨none, p', s⟩ := by
      rw [paramFromTz, if_neg (by simp [ht]), if_neg (by simp [hreg])]
    rw [TempsSearched, if_neg (by simp [ht]), isSome_next hround, ih hms]
    exact ⟨fun h _ => h, fun h => h fun hno => absurd (hreg.symm.trans hno) (by decide)⟩

end Params

/-! ## 3. Each operation -/

section Operations

variable {l : Linux} {a : Answer} {s s' : TeeDriver} {space : TzTeeSpace} {ret context session tz : UInt32}
  {m : RegMem} {o : Operation}

theorem isSome_orError {α : Type} {found : Option (Option α)} {f : α → Option Handled} :
    (orError found space ret s f).isSome = true ↔
      found.isSome = true ∧ ∀ x, found = some (some x) → (f x).isSome = true := by
  match found with
  | none => exact iff_of_false Bool.false_ne_true fun h => Bool.false_ne_true h.1
  | some none => exact iff_of_true rfl ⟨rfl, by simp⟩
  | some (some x) =>
    refine ⟨fun h => ⟨rfl, fun y hy => ?_⟩, fun h => h.2 x rfl⟩
    obtain rfl := Option.some.inj (Option.some.inj hy)
    exact h

/-- Where nothing can go wild after a search. -/
theorem isSome_orError_ok {α : Type} {found : Option (Option α)} {f : α → Option Handled}
    (hf : ∀ x, (f x).isSome = true) : (orError found space ret s f).isSome = true ↔ found.isSome = true :=
  isSome_orError.trans (and_iff_left fun x _ => hf x)

/-- The loop for a new id ends with one that is not there. -/
theorem isSome_afterLoop {α β : Type} {id : α → UInt32} {xs : List α} {nul : Bool} {k : UInt32}
    {r : β × TeeDriver} (hnew : k ∉ xs.map id) :
    (Added.afterLoop (lookup nul (fun x => id x = k) xs) r).isSome = true ↔ Searchable nul xs := by
  have hnone : xs.find? (fun x => id x = k) = none := by
    refine List.find?_eq_none.mpr fun x hx hk => hnew ?_
    exact List.mem_map.mpr ⟨x, hx, of_decide_eq_true hk⟩
  rw [← isSome_lookup (p := fun x => decide (id x = k))]
  by_cases hs : Searchable nul xs
  · rw [lookup_of_unset hs, hnone]
    rfl
  · rw [Option.not_isSome_iff_eq_none.mp fun h => hs (isSome_lookup.mp h)]
    rfl

/-- The search for a free id does not end in a refusal. -/
theorem afterLoop_ne_none {α β : Type} {found : Option (Option α)} {r : β × TeeDriver} :
    Added.afterLoop found r ≠ some none := by
  rcases found with _ | _ | x <;> simp [Added.afterLoop]

/-- `tee_process` comes back where both handlers do. -/
theorem isSome_teeProcess : (teeProcess l a space s).isSome = true ↔ (l.pages = true →
    (eventPre l space s).isSome = true ∧
      ∀ h, eventPre l space s = some h → h.success = true →
        (eventPost l (a.space h.space) h.driver).isSome = true) := by
  rw [teeProcess]
  by_cases hpages : l.pages = true
  · simp only [hpages, if_true, true_implies]
    cases eventPre l space s with
    | none => exact iff_of_false Bool.false_ne_true fun h => Bool.false_ne_true h.1
    | some h =>
      cases hs : h.success <;> simp [hs]
  · rw [if_neg hpages]
    exact iff_of_true rfl fun h => absurd h hpages

theorem initCtx_searched (hnew : l.newId ∉ s.contexts.map TeeContext.id) :
    (teeCtxInitPost l space tz s).isSome = true ↔ Searched l s (.initCtx context) := by
  refine (isSome_orError_ok fun x => rfl).trans ?_
  rw [teeContextAdd, Searched]
  cases l.entry with
  | none => exact iff_of_true rfl fun h => absurd h Bool.false_ne_true
  | some ptr => exact (isSome_afterLoop hnew).trans ⟨fun h _ => h, fun h => h rfl⟩

theorem finCtx_searched (hdistinct : Distinct s) {c c' : TeeContext}
    (htwin : Twin TeeContext.id TeeContext.tzId s.contexts context c c') :
    (teeCtxFinalizePost l space c.tzId s).isSome = true ↔
      SearchesEnd (l.unset .sessionByCtx) (fun x : TeeSession => x.ctx = c'.ptr) s.sessions ∧
      SearchesEnd (l.unset .memoryByCtx) (fun x : TeeSharedMemory => x.ctx = c'.ptr) s.memories := by
  have hfound : teeContextFindByTzid l c.tzId s = some (some c') := lookup_of_find htwin.2
  rw [teeCtxFinalizePost, hfound, ← isSome_purge hdistinct.sessions,
    ← isSome_purge hdistinct.memories]
  simp only
  split
  · rename_i hx hy
    exact iff_of_true rfl ⟨by rw [hx]; rfl, by rw [hy]; rfl⟩
  · rename_i hno
    refine iff_of_false Bool.false_ne_true fun h => ?_
    obtain ⟨x, hx⟩ := Option.isSome_iff_exists.mp h.1
    obtain ⟨y, hy⟩ := Option.isSome_iff_exists.mp h.2
    exact hno x y hx hy

/-- Whether an object is in a table, or its search ends where it is not. -/
theorem isSome_orError_find {α : Type} {id : α → UInt32} {xs : List α} {nul : Bool} {k : UInt32} {P : Prop}
    {f : α → Option Handled} (hf : ∀ x, (f x).isSome = true ↔ P) :
    (orError (lookup nul (fun x => id x = k) xs) space ret s f).isSome = true ↔
      Searchable nul xs ∧ ((∃ x ∈ xs, id x = k) → P) := by
  have hfind : (∃ x, lookup nul (fun x => id x = k) xs = some (some x)) ↔
      ∃ x ∈ xs, decide (id x = k) = true := exists_lookup
  have hin : (∃ x, lookup nul (fun x => id x = k) xs = some (some x)) ↔ ∃ x ∈ xs, id x = k := by
    simpa using hfind
  simp only [isSome_orError, isSome_lookup, hf, ← hin, forall_exists_index]

theorem isSome_teeMemoryAdd {c : TeeContext} (hnew : l.newId ∉ s.memories.map TeeSharedMemory.id) :
    (teeMemoryAdd l c s).isSome = true ↔
      (l.entry.isSome = true → Searchable (l.unset .memoryById) s.memories) := by
  rw [teeMemoryAdd]
  cases l.entry with
  | none => exact iff_of_true rfl fun h => absurd h Bool.false_ne_true
  | some ptr => exact (isSome_afterLoop hnew).trans ⟨fun h _ => h, fun h => h rfl⟩

theorem isSome_teeSessionAdd {c : TeeContext} (hnew : l.newId ∉ s.sessions.map TeeSession.id) :
    (teeSessionAdd l c s).isSome = true ↔
      (l.entry.isSome = true → Searchable (l.unset .sessionById) s.sessions) := by
  rw [teeSessionAdd]
  cases l.entry with
  | none => exact iff_of_true rfl fun h => absurd h Bool.false_ne_true
  | some ptr => exact (isSome_afterLoop hnew).trans ⟨fun h _ => h, fun h => h rfl⟩

theorem isSome_teeMemRegPre (hsize : ¬m.size > teecConfigSharedmemMaxSize)
    (hnew : l.newId ∉ s.memories.map TeeSharedMemory.id) :
    (teeMemRegPre l space m s).isSome = true ↔ Searchable (l.unset .contextById) s.contexts ∧
      ((∃ c ∈ s.contexts, c.id = m.context) → l.entry.isSome = true →
        Searchable (l.unset .memoryById) s.memories) := by
  rw [teeMemRegPre, if_neg hsize]
  refine isSome_orError_find fun c => ?_
  rw [← isSome_teeMemoryAdd (c := c) hnew]
  refine isSome_orError_ok fun r => ?_
  cases l.buf <;> rfl

/-- The memory is made. -/
theorem teeMemRegPre_succeeds (hsize : ¬m.size > teecConfigSharedmemMaxSize)
    (hc : ∃ c ∈ s.contexts, c.id = m.context) (hentry : l.entry.isSome = true) (hbuf : l.buf.isSome = true)
    {h : Handled} (hh : teeMemRegPre l space m s = some h) : h.success = true := by
  rw [teeMemRegPre, if_neg hsize] at hh
  obtain ⟨hno, -, -⟩ | ⟨c, -, hh⟩ := orError_cases hh
  · obtain ⟨c, hc, hid⟩ := hc
    exact absurd (decide_eq_true hid) (List.find?_eq_none.mp (lookup_eq_none hno) c hc)
  obtain ⟨ptr, hptr⟩ := Option.isSome_iff_exists.mp hentry
  obtain ⟨vaddr, hvaddr⟩ := Option.isSome_iff_exists.mp hbuf
  obtain ⟨hno, -, -⟩ | ⟨⟨mem, s'⟩, -, hh⟩ := orError_cases hh
  · rw [teeMemoryAdd, hptr] at hno
    exact absurd hno afterLoop_ne_none
  · simp only [hvaddr] at hh
    exact ok_success hh

theorem isSome_teeMemRegPost {c : TeeContext} (hc : c ∈ s.contexts) (hm : m.context = c.tzId) :
    (teeMemRegPost l space m s).isSome = true ↔ Searchable (l.unset .memoryByPaddr) s.memories := by
  obtain ⟨c', hc', -⟩ := exists_find_of_mem (p := fun x : TeeContext => x.tzId = m.context) hc
    (decide_eq_true hm.symm)
  have hfound : teeContextFindByTzid l m.context s = some (some c') := lookup_of_find hc'
  rw [teeMemRegPost, hfound, orError_some]
  exact (isSome_orError_ok fun x => rfl).trans isSome_lookup

theorem regMem_searched (hptr : ∀ p ∈ l.entry, p ∉ s.memories.map TeeSharedMemory.ptr)
    (hnew : l.newId ∉ s.memories.map TeeSharedMemory.id) :
    ((teeMemRegPre l space m s).isSome = true ∧ ∀ h, teeMemRegPre l space m s = some h → h.success = true →
      (eventPost l (a.space h.space) h.driver).isSome = true) ↔ Searched l s (.regMem m) := by
  rw [Searched]
  by_cases hsize : m.size > teecConfigSharedmemMaxSize
  · refine iff_of_true ⟨by rw [teeMemRegPre, if_pos hsize]; rfl, fun h hh hs => ?_⟩ fun hno => absurd hsize hno
    exact absurd ((if_pos hsize).symm.trans hh) (not_error hs)
  simp only [isSome_teeMemRegPre hsize hnew, hsize, not_false_iff, true_implies]
  -- the post handler searches the table with the new entry
  have hpost : ∀ h, teeMemRegPre l space m s = some h → h.success = true →
      ((eventPost l (a.space h.space) h.driver).isSome = true ↔
        l.node = true ∨ Searchable (l.unset .memoryByPaddr) s.memories) := by
    intro h hh hs
    obtain ⟨c, ptr, vaddr, hc, -, -, -, rfl⟩ := teeMemRegPre_ok hptr hs hh
    refine Iff.trans (isSome_teeMemRegPost (c := c) (List.mem_of_find?_eq_some hc) ?_) ?_
    · rfl
    cases l.node <;> simp [listAdd, Searchable]
  constructor
  · rintro ⟨⟨hcontexts, hmemories⟩, hall⟩
    refine ⟨hcontexts, fun hc hentry => ⟨hmemories hc hentry, fun hbuf => ?_⟩⟩
    have hpre : (teeMemRegPre l space m s).isSome = true :=
      (isSome_teeMemRegPre hsize hnew).mpr ⟨hcontexts, hmemories⟩
    obtain ⟨h, hh⟩ := Option.isSome_iff_exists.mp hpre
    have hs := teeMemRegPre_succeeds hsize hc hentry hbuf hh
    exact (hpost h hh hs).mp (hall h hh hs)
  · rintro ⟨hcontexts, hrest⟩
    refine ⟨⟨hcontexts, fun hc hentry => (hrest hc hentry).1⟩, fun h hh hs => (hpost h hh hs).mpr ?_⟩
    obtain ⟨c, ptr, vaddr, hc, hentry, hbuf, -, -⟩ := teeMemRegPre_ok hptr hs hh
    have hin : ∃ c ∈ s.contexts, c.id = m.context :=
      ⟨c, List.mem_of_find?_eq_some hc, by simpa using List.find?_some hc⟩
    exact (hrest hin (by rw [hentry]; rfl)).2 (by rw [hbuf]; rfl)

/-- What `pre` has found, `post` finds by the other id. -/
theorem isSome_orError_tzId {α : Type} {tzId : α → UInt32} {xs : List α} {nul : Bool} {x : α} (hx : x ∈ xs)
    {f : α → Option Handled} {P : Prop} (hf : ∀ y, (f y).isSome = true ↔ P) :
    (orError (lookup nul (fun y => tzId y = tzId x) xs) space ret s f).isSome = true ↔ P := by
  obtain ⟨y, hy, -⟩ := exists_find_of_mem (p := fun y => tzId y = tzId x) hx (decide_eq_true rfl)
  rw [lookup_of_find hy, orError_some]
  exact hf y

theorem relMem_searched : ((teeMemRelPre l space m s).isSome = true ∧
    ∀ h, teeMemRelPre l space m s = some h → h.success = true →
      (eventPost l (a.space h.space) h.driver).isSome = true) ↔ Searched l s (.relMem m) := by
  have hpre : (teeMemRelPre l space m s).isSome = true ↔ Searched l s (.relMem m) := by
    refine (isSome_orError_ok fun x => ?_).trans isSome_lookup
    repeat' split
    all_goals rfl
  refine (and_iff_left fun h hh hs => ?_).trans hpre
  obtain ⟨x, hx, rfl⟩ := teeMemRelPre_ok hs hh
  exact (isSome_orError_tzId (List.mem_of_find?_eq_some hx) fun y => iff_of_true rfl trivial).mpr trivial

theorem closeSession_searched : ((teeSessionClosePre l space session s).isSome = true ∧
    ∀ h, teeSessionClosePre l space session s = some h → h.success = true →
      (eventPost l (a.space h.space) h.driver).isSome = true) ↔ Searched l s (.closeSession session) := by
  have hpre : (teeSessionClosePre l space session s).isSome = true ↔ Searched l s (.closeSession session) :=
    (isSome_orError_ok fun x => rfl).trans isSome_lookup
  refine (and_iff_left fun h hh hs => ?_).trans hpre
  obtain ⟨x, hx, rfl⟩ := teeSessionClosePre_ok hs hh
  exact (isSome_orError_tzId (List.mem_of_find?_eq_some hx) fun y => iff_of_true rfl trivial).mpr trivial

/-- With a context, `tee_session_open_pre` adds a session and goes on to the parameters. -/
theorem isSome_sessionAdded (hnew : l.newId ∉ s.sessions.map TeeSession.id) (c : TeeContext) :
    (orError (teeSessionAdd l c s) space teecErrorOutOfMemory s fun (new, s) =>
      if o.valid = 1 then
        Handled.translated space o (.openSession c.tzId session new.id)
          (paramLoop (paramToTz l) 0 o.params s)
      else Handled.ok space (.openSession c.tzId session new.id o) s).isSome = true ↔
      (l.entry.isSome = true → Searchable (l.unset .sessionById) s.sessions ∧
        (o.valid = 1 → ParamsSearched l s.memories 0 o.params)) := by
  have hadd := isSome_teeSessionAdd (c := c) hnew
  rw [isSome_orError, hadd]
  cases hentry : l.entry with
  | none =>
    have hno : ¬(none : Option UInt32).isSome = true := Bool.false_ne_true
    refine iff_of_true ⟨fun h => absurd h hno, fun new hnew' => ?_⟩ fun h => absurd h hno
    simp [teeSessionAdd, hentry] at hnew'
  | some ptr =>
    -- the rest is the loop over the parameters
    have hrest : ∀ new s', teeSessionAdd l c s = some (some (new, s')) →
        ((if o.valid = 1 then
            Handled.translated space o (.openSession c.tzId session new.id)
              (paramLoop (paramToTz l) 0 o.params s')
          else Handled.ok space (.openSession c.tzId session new.id o) s').isSome = true ↔
        (o.valid = 1 → ParamsSearched l s.memories 0 o.params)) := by
      intro new s' hnew'
      simp only [teeSessionAdd, hentry] at hnew'
      obtain ⟨-, hnew'⟩ := afterLoop_eq hnew'
      obtain ⟨rfl, rfl⟩ := Prod.mk.inj hnew'
      by_cases hvalid : o.valid = 1
      · rw [if_pos hvalid, Handled.translated, Option.isSome_map, isSome_toTz]
        exact ⟨fun h _ => h, fun h => h hvalid⟩
      · rw [if_neg hvalid]
        exact iff_of_true rfl fun h => absurd h hvalid
    rw [hentry] at hadd
    simp only [Option.isSome_some, true_implies] at hadd ⊢
    refine and_congr_right fun hsessions => ⟨fun h => ?_, fun h x hx => (hrest x.1 x.2 hx).mpr h⟩
    obtain ⟨added, hadded⟩ := Option.isSome_iff_exists.mp (hadd.mpr hsessions)
    cases added with
    | none =>
      rw [teeSessionAdd, hentry] at hadded
      exact absurd hadded afterLoop_ne_none
    | some x => exact (hrest x.1 x.2 hadded).mp (h x hadded)

theorem openSession_searched (hnew : l.newId ∉ s.sessions.map TeeSession.id) (tmpid : UInt32) :
    ((teeSessionOpenPre l space context session o s).isSome = true ∧
      ∀ h, teeSessionOpenPre l space context session o s = some h → h.success = true →
        (eventPost l (a.space h.space) h.driver).isSome = true) ↔
      Searched l s (.openSession context session tmpid o) := by
  refine (and_iff_left fun h hh hs => ?_).trans (isSome_orError_find (isSome_sessionAdded hnew))
  obtain ⟨c, ptr, hc, hentry, hfresh, ps, s', hloop, rfl⟩ := teeSessionOpenPre_ok hs hh
  have hsame : SameTables (withNewSession l c ptr s) s' := by
    split at hloop
    · exact toTz_same hloop
    · obtain ⟨-, -, rfl⟩ := ParamsDone.mk.inj (Option.some.inj hloop)
      exact .refl _
  -- the new session is looked for in the table that it is added to
  have hsearch : Searchable (l.unset .sessionById) s'.sessions := by
    have hbefore : Searchable (l.unset .sessionById) s.sessions :=
      (isSome_lookup (p := fun x : TeeSession => x.id = l.newId)).mp (by rw [hfresh]; rfl)
    rw [hsame.sessions]
    refine hbefore.mono fun x hx => ?_
    rw [withNewSession, listAdd]
    split
    · exact List.mem_append_left _ hx
    · exact hx
  have hctx : c ∈ s'.contexts := hsame.contexts ▸ List.mem_of_find?_eq_some hc
  exact (isSome_orError_tzId hctx fun y =>
    (isSome_orError_ok fun x => rfl).trans isSome_lookup).mpr hsearch

theorem invokeCommand_searched : ((teeInvokePre l space session o s).isSome = true ∧
    ∀ h, teeInvokePre l space session o s = some h → h.success = true →
      (eventPost l (a.space h.space) h.driver).isSome = true) ↔
      Searched l s (.invokeCommand session o) := by
  have hpre : (teeInvokePre l space session o s).isSome = true ↔
      Searchable (l.unset .sessionById) s.sessions ∧
        ((∃ x ∈ s.sessions, x.id = session) → ParamsSearched l s.memories 0 o.params) := by
    refine isSome_orError_find fun x => ?_
    rw [Handled.translated, Option.isSome_map, isSome_toTz]
  have hpost : ∀ h, teeInvokePre l space session o s = some h → h.success = true →
      ((eventPost l (a.space h.space) h.driver).isSome = true ↔
        TempsSearched l 0 (s.temps ++ newTemps l 0 o.params) o.params) := by
    intro h hh hs
    obtain ⟨x, ps, s', hx, hloop, rfl⟩ := teeInvokePre_ok hs hh
    obtain ⟨new, htaken, hs'⟩ := toTz_taken hloop
    subst hs'
    refine Iff.trans (isSome_orError_tzId (List.mem_of_find?_eq_some hx) fun y => ?_) Iff.rfl
    rw [Handled.translated, Option.isSome_map, ← htaken.kept_eq]
    exact isSome_fromTz (htaken.answer a) rfl
  rw [Searched, hpre]
  constructor
  · rintro ⟨⟨hsessions, hparams⟩, hall⟩
    refine ⟨hsessions, fun hin => ⟨hparams hin, fun hacc => ?_⟩⟩
    obtain ⟨h, hh⟩ := Option.isSome_iff_exists.mp (hpre.mpr ⟨hsessions, hparams⟩)
    have hs : h.success = true := by
      obtain ⟨hno, -, -⟩ | ⟨x, -, hh⟩ := orError_cases hh
      · obtain ⟨x, hx, hid⟩ := hin
        exact absurd (decide_eq_true hid) (List.find?_eq_none.mp (lookup_eq_none hno) x hx)
      · obtain ⟨r, hr, rfl⟩ := Option.map_eq_some_iff.mp hh
        exact decide_eq_true ((toTz_ok_iff hr).mpr hacc)
    exact (hpost h hh hs).mp (hall h hh hs)
  · rintro ⟨hsessions, hrest⟩
    refine ⟨⟨hsessions, fun hin => (hrest hin).1⟩, fun h hh hs => (hpost h hh hs).mpr ?_⟩
    obtain ⟨x, ps, s', hx, hloop, -⟩ := teeInvokePre_ok hs hh
    have hin : ∃ x ∈ s.sessions, x.id = session :=
      ⟨x, List.mem_of_find?_eq_some hx, by simpa using List.find?_some hx⟩
    exact (hrest hin).2 ((toTz_ok_iff hloop).mp rfl)

/-- **The requests that come back.** -/
theorem isSome_teeProcess_iff (hdistinct : Distinct s) (hfresh : l.Fresh s space.params) :
    (teeProcess l a space s).isSome = true ↔ (l.pages = true → Searched l s space.params) := by
  rw [isSome_teeProcess]
  refine forall_congr' fun _ => ?_
  obtain ⟨ret, params⟩ := space
  cases params with
  | initCtx context =>
    have hpost : (teeCtxInitPost l (a.space ⟨ret, .initCtx 0xDEADC⟩) a.id s).isSome = true ↔
        Searched l s (.initCtx context) := initCtx_searched hfresh.newId
    refine ⟨fun h => hpost.mp (h.2 _ rfl rfl), fun h => ⟨rfl, fun h' hh _ => ?_⟩⟩
    obtain rfl := Option.some.inj hh
    exact hpost.mpr h
  | finCtx context =>
    have hpre : (teeCtxFinalizePre l ⟨ret, .finCtx context⟩ context s).isSome = true ↔
      Searchable (l.unset .contextById) s.contexts := (isSome_orError_ok fun x => rfl).trans isSome_lookup
    refine and_congr hpre ⟨fun h c c' htwin => ?_, fun h h' hh hs => ?_⟩
    · have hfound : teeContextFindById l context s = some (some c) := lookup_of_find htwin.1
      have hh : eventPre l ⟨ret, .finCtx context⟩ s = some ⟨true, ⟨ret, .finCtx c.tzId⟩, s⟩ := by
        simp only [eventPre, teeCtxFinalizePre, hfound]
        rfl
      exact (finCtx_searched hdistinct htwin).mp (h _ hh rfl)
    · obtain ⟨c, hc, rfl⟩ := teeCtxFinalizePre_ok hs hh
      obtain ⟨c', htwin⟩ := exists_twin TeeContext.tzId hc
      exact (finCtx_searched hdistinct htwin).mpr (h c c' htwin)
  | regMem m => exact regMem_searched hfresh.memory hfresh.newId
  | relMem m => exact relMem_searched
  | openSession context session tmpid o => exact openSession_searched hfresh.newId tmpid
  | closeSession session => exact closeSession_searched
  | invokeCommand session o => exact invokeCommand_searched
  | other op =>
    refine iff_of_true ⟨rfl, fun h hh hs => ?_⟩ trivial
    exact absurd hh (not_error hs)

end Operations

end AndixOs.Driver
