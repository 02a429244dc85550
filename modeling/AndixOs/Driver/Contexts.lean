/-
# Who owns a context

A context is to belong to the process that made it, until that process finalises it or closes the device.
`tee_context_add` looks for an id that no context has, and then writes the `pid` of the process to the
field `id` as well: the field `pid` is never written.  `tz_driver_release` searches for it all the same,
until a search finds nothing, and that is not what a search in an empty table finds (`Lib.Table`).

So the table is right exactly in the runs in which no request searches an empty table in vain, a process
makes a context where it has none, in memory that happens to hold its `pid` already, and it closes the
device where another process has contexts or the result of the last search happens to be `NULL`
(`contexts_kept_iff`).
-/
import AndixOs.Driver.Searches
import AndixOs.Lib.Run

namespace AndixOs.Driver

open AndixOs AndixOs.Swi

/-! ## 1. The device -/

/-- The driver, and what the fields `pid` of its contexts hold, by address.  On record is which process
made the context at an address. -/
structure ContextWorld where
  driver : TeeDriver
  pid : Nat → UInt32
  creator : Nat → UInt32

/-- `tee_context_find_by_pid`.  `unset` is whether its result happens to be `NULL` at first. -/
def teeContextFindByPid (unset : Bool) (pid : UInt32) (w : ContextWorld) : Option (Option TeeContext) :=
  lookup unset (fun x => w.pid x.ptr = pid) w.driver.contexts

/-- The loop of `tz_driver_release`. -/
def releaseLoop (unset : Bool) (pid : UInt32) : Nat → ContextWorld → Option ContextWorld
  | 0, _ => none
  | fuel + 1, w =>
    match teeContextFindByPid unset pid w with
    | none => none
    | some none => some w
    | some (some ctx) => releaseLoop unset pid fuel { w with driver := teeContextFree ctx w.driver }

/-- `tz_driver_release`, where `current` is the process `pid`.  It has no value where it goes wild; every
round takes a context from the table. -/
def tzDriverRelease (unset : Bool) (pid : UInt32) (w : ContextWorld) : Option ContextWorld :=
  releaseLoop unset pid (w.driver.contexts.length + 1) w

/-! ## 2. Runs -/

/-- What processes do with the device, and what the rest of the kernel writes to memory. -/
inductive DeviceCall where
  | request (e : Request)
  | release (unset : Bool) (pid : UInt32)
  | other (pid : Nat → UInt32)

/-- After a request, what is new was made by the process that made the request. -/
def ContextWorld.after (w : ContextWorld) (e : Request) (s : TeeDriver) : ContextWorld where
  driver := s
  pid := w.pid
  creator p := if p ∈ w.driver.contexts.map TeeContext.ptr then w.creator p else e.linux.pid

/-- One call; `none` is a kernel that went wild.  `kmalloc` returns no memory that is in use, and the rest
of the kernel leaves the contexts alone. -/
inductive DeviceStep : Option ContextWorld → DeviceCall → Option ContextWorld → Prop where
  | request {w : ContextWorld} {e : Request} :
    e.linux.Fresh w.driver e.space.params →
      DeviceStep (some w) (.request e)
        ((teeProcess e.linux e.answer e.space w.driver).map fun h => w.after e h.driver)
  | release {w : ContextWorld} {unset : Bool} {pid : UInt32} :
    DeviceStep (some w) (.release unset pid) (tzDriverRelease unset pid w)
  | other {w : ContextWorld} {pid : Nat → UInt32} :
    (∀ c ∈ w.driver.contexts, pid c.ptr = w.pid c.ptr) →
      DeviceStep (some w) (.other pid) (some { w with pid := pid })

/-- Different contexts have different ids, each has the `pid` of its creator, and a release took out those
that the process made. -/
structure ContextsKept (w : ContextWorld) (a : DeviceCall) (w' : ContextWorld) : Prop where
  ids : (w'.driver.contexts.map TeeContext.id).Nodup
  owners : ∀ c ∈ w'.driver.contexts, w'.pid c.ptr = w'.creator c.ptr
  released : ∀ unset pid, a = .release unset pid →
    w'.driver.contexts = w.driver.contexts.filter fun c => w.creator c.ptr ≠ pid

/-- The call came back, and kept the contexts. -/
def CallKept (s : Option ContextWorld) (a : DeviceCall) (t : Option ContextWorld) : Prop :=
  ∃ w w', s = some w ∧ t = some w' ∧ ContextsKept w a w'

/-- The request puts a new context at this address into the table. -/
def Request.Adds (e : Request) (ptr : Nat) : Prop :=
  e.linux.pages = true ∧ e.linux.entry = some ptr ∧ e.linux.node = true ∧
    ∃ context, e.space.params = .initCtx context

/-- No search of a request goes wild.  A process makes a context when it has none, where its `pid` happens
to stand already, and closes the device when another process has a context, or `NULL` happens to be
found. -/
def alone (s : Option ContextWorld) : DeviceCall → Prop
  | .request e => ∀ w ∈ s, (e.linux.pages = true → Searched e.linux w.driver e.space.params) ∧
    ∀ ptr, e.Adds ptr →
      (∀ c ∈ w.driver.contexts, w.creator c.ptr ≠ e.linux.pid) ∧ w.pid ptr = e.linux.pid
  | .release unset pid => ∀ w ∈ s, unset = true ∨ ∃ c ∈ w.driver.contexts, w.creator c.ptr ≠ pid
  | .other _ => True

/-! ## 3. What a request does to the table of contexts -/

section Requests

variable {l : Linux} {a : Answer} {s s' : TeeDriver} {space : TzTeeSpace} {h : Handled} {ctx : TeeContext}

theorem teeMemoryAdd_contexts {mem : TeeSharedMemory} (hadd : teeMemoryAdd l ctx s = some (some (mem, s'))) :
    s'.contexts = s.contexts := by
  rw [teeMemoryAdd] at hadd
  split at hadd
  · cases Option.some.inj hadd
  · obtain ⟨-, hr⟩ := afterLoop_eq hadd
    rw [(Prod.mk.inj hr).2]

theorem teeSessionAdd_contexts {new : TeeSession} (hadd : teeSessionAdd l ctx s = some (some (new, s'))) :
    s'.contexts = s.contexts := by
  rw [teeSessionAdd] at hadd
  split at hadd
  · cases Option.some.inj hadd
  · obtain ⟨-, hr⟩ := afterLoop_eq hadd
    rw [(Prod.mk.inj hr).2]

theorem ok_driver {q : TeeParams} (hh : Handled.ok space q s = some h) : h.driver = s := by
  obtain rfl := Option.some.inj hh
  rfl

def TeeParams.isInitCtx : TeeParams → Bool
  | .initCtx _ => true
  | _ => false

/-- What a `pre` handler keeps. -/
structure PreKeeps (space : TzTeeSpace) (s : TeeDriver) (h : Handled) : Prop where
  contexts : h.driver.contexts = s.contexts
  isInitCtx : h.space.params.isInitCtx = space.params.isInitCtx

theorem PreKeeps.ok {q : TeeParams} (hh : Handled.ok space q s' = some h)
    (hc : s'.contexts = s.contexts) (hq : q.isInitCtx = space.params.isInitCtx) : PreKeeps space s h := by
  obtain rfl := Option.some.inj hh
  exact ⟨hc, hq⟩

theorem PreKeeps.error {ret : UInt32} (hh : Handled.error space ret s' = some h)
    (hc : s'.contexts = s.contexts) : PreKeeps space s h := by
  obtain rfl := Option.some.inj hh
  exact ⟨hc, rfl⟩

theorem PreKeeps.translated {o : Operation} {p : Operation → TeeParams} {i : Nat}
    {ps : List (TeecType × TeecParamter)}
    (hh : Handled.translated space o p (paramLoop (paramToTz l) i ps s') = some h)
    (hc : s'.contexts = s.contexts) (hp : ∀ o, (p o).isInitCtx = space.params.isInitCtx) :
    PreKeeps space s h := by
  obtain ⟨r, hr, rfl⟩ := Option.map_eq_some_iff.mp hh
  exact ⟨(toTz_same hr).contexts.trans hc, hp _⟩

theorem PreKeeps.orError {α : Type} {found : Option (Option α)} {ret : UInt32} {f : α → Option Handled}
    (hh : orError found space ret s f = some h)
    (hf : ∀ x, found = some (some x) → f x = some h → PreKeeps space s h) : PreKeeps space s h := by
  match found, hh with
  | some none, hh => exact .error hh rfl
  | some (some x), hh => exact hf x rfl hh

/-- No `pre` handler touches the contexts, or makes another operation of the request. -/
theorem eventPre_keeps (hh : eventPre l space s = some h) : PreKeeps space s h := by
  obtain ⟨ret, params⟩ := space
  cases params with
  | initCtx context => exact .ok hh rfl rfl
  | finCtx context => exact .orError hh fun c _ hh => .ok hh rfl rfl
  | regMem m =>
    replace hh : teeMemRegPre l ⟨ret, .regMem m⟩ m s = some h := hh
    rw [teeMemRegPre] at hh
    split at hh
    · exact .error hh rfl
    refine .orError hh fun c _ hh => .orError hh fun new hadd hh => ?_
    obtain ⟨mem, s'⟩ := new
    have hsame := teeMemoryAdd_contexts hadd
    cases hbuf : l.buf with
    | none =>
      simp only [hbuf] at hh
      exact .error hh hsame
    | some vaddr =>
      simp only [hbuf] at hh
      exact .ok hh hsame rfl
  | relMem m =>
    refine .orError hh fun x _ hh => ?_
    repeat' split at hh
    all_goals first | exact .error hh rfl | exact .ok hh rfl rfl
  | openSession context session tmpid o =>
    refine .orError hh fun c _ hh => .orError hh fun added hadd hh => ?_
    obtain ⟨new, s'⟩ := added
    have hsame := teeSessionAdd_contexts hadd
    by_cases hvalid : o.valid = 1
    · simp only [if_pos hvalid] at hh
      exact .translated hh hsame fun _ => rfl
    · simp only [if_neg hvalid] at hh
      exact .ok hh hsame rfl
  | closeSession session => exact .orError hh fun x _ hh => .ok hh rfl rfl
  | invokeCommand session o => exact .orError hh fun x _ hh => .translated hh rfl fun _ => rfl
  | other op => exact .error hh rfl

theorem answer_isInitCtx (a : Answer) (space : TzTeeSpace) :
    (a.space space).params.isInitCtx = space.params.isInitCtx := by
  obtain ⟨ret, params⟩ := space
  cases params <;> rfl

/-- `tee_ctx_finalize_post` takes out a context at most. -/
theorem teeCtxFinalizePost_sublist {context : UInt32} (hh : teeCtxFinalizePost l space context s = some h) :
    h.driver.contexts.Sublist s.contexts := by
  rw [teeCtxFinalizePost] at hh
  split at hh
  · cases hh
  · obtain rfl := Option.some.inj hh
    exact .refl _
  · split at hh
    · rw [ok_driver hh]
      exact remove_sublist _
    · cases hh

/-- No `post` handler but that of `initCtx` adds a context. -/
theorem eventPost_sublist (hnot : space.params.isInitCtx = false)
    (hh : eventPost l space s = some h) : h.driver.contexts.Sublist s.contexts := by
  obtain ⟨ret, params⟩ := space
  cases params with
  | initCtx context => exact absurd hnot nofun
  | finCtx context => exact teeCtxFinalizePost_sublist hh
  | regMem m =>
    obtain ⟨-, -, hd⟩ | ⟨c, -, hh⟩ := orError_cases hh
    · rw [hd]
    obtain ⟨-, -, hd⟩ | ⟨mem, -, hh⟩ := orError_cases hh
    · rw [hd]
    · rw [ok_driver hh]
  | relMem m =>
    obtain ⟨-, -, hd⟩ | ⟨mem, -, hh⟩ := orError_cases hh
    · rw [hd]
    · rw [ok_driver hh]
      exact .refl _
  | openSession context session tmpid o =>
    obtain ⟨-, -, hd⟩ | ⟨c, -, hh⟩ := orError_cases hh
    · rw [hd]
    obtain ⟨-, -, hd⟩ | ⟨new, -, hh⟩ := orError_cases hh
    · rw [hd]
    · rw [ok_driver hh]
  | closeSession session =>
    obtain ⟨-, -, hd⟩ | ⟨x, -, hh⟩ := orError_cases hh
    · rw [hd]
    · rw [ok_driver hh]
      exact .refl _
  | invokeCommand session o => rw [(teeInvokePost_tables hh).contexts]
  | other op => rw [error_driver hh]

theorem Distinct.congr (hd : Distinct s) (hsame : SameTables s s') : Distinct s' :=
  ⟨hsame.sessions ▸ hd.sessions, hsame.memories ▸ hd.memories⟩

/-- A new entry, where it gets its list node. -/
theorem nodup_listAdd {α : Type} {ptr : α → Nat} {node : Bool} {x : α} {xs : List α} (hxs : (xs.map ptr).Nodup)
    (hx : ptr x ∉ xs.map ptr) : ((listAdd node x xs).map ptr).Nodup := by
  rw [listAdd]
  split
  · rw [List.map_append]
    exact nodup_snoc hxs hx
  · exact hxs

theorem Distinct.withNewSession {ptr : Nat} (hd : Distinct s) (hptr : ptr ∉ s.sessions.map TeeSession.ptr) :
    Distinct (withNewSession l ctx ptr s) :=
  ⟨nodup_listAdd hd.sessions hptr, hd.memories⟩

/-- A `pre` handler adds one entry at most. -/
theorem eventPre_distinct (hd : Distinct s) (hfresh : l.Fresh s space.params)
    (hh : eventPre l space s = some h) : Distinct h.driver := by
  by_cases hopen : ∃ context session tmpid o, space.params = .openSession context session tmpid o
  · obtain ⟨context, session, tmpid, o, hp⟩ := hopen
    rw [eventPre, hp] at hh
    obtain ⟨-, -, hsame⟩ | ⟨c, ptr, -, hentry, -, hsame⟩ := teeSessionOpenPre_cases hh
    · exact hsame ▸ hd
    · exact (hd.withNewSession (hfresh.session ptr hentry)).congr hsame
  cases hs : h.success with
  | false =>
    refine hd.congr (pre_fails hfresh.memory (fun context session tmpid o hp => hopen ?_) hh hs)
    exact ⟨context, session, tmpid, o, hp⟩
  | true =>
    obtain ⟨ret, params⟩ := space
    cases params with
    | initCtx context => exact ok_driver hh ▸ hd
    | finCtx context =>
      obtain ⟨c, -, rfl⟩ := teeCtxFinalizePre_ok hs hh
      exact hd
    | regMem m =>
      obtain ⟨c, ptr, vaddr, -, hentry, -, -, rfl⟩ := teeMemRegPre_ok hfresh.memory hs hh
      exact ⟨hd.sessions, nodup_listAdd hd.memories (hfresh.memory ptr hentry)⟩
    | relMem m =>
      obtain ⟨x, -, rfl⟩ := teeMemRelPre_ok hs hh
      exact hd
    | openSession context session tmpid o => exact absurd ⟨context, session, tmpid, o, rfl⟩ hopen
    | closeSession session =>
      obtain ⟨x, -, rfl⟩ := teeSessionClosePre_ok hs hh
      exact hd
    | invokeCommand session o =>
      obtain ⟨x, ps, s', -, hloop, rfl⟩ := teeInvokePre_ok hs hh
      exact hd.congr (toTz_same hloop)
    | other op => exact absurd hh (not_error hs)

/-- A `post` handler adds no session and no memory. -/
theorem eventPost_distinct (hd : Distinct s) (hh : eventPost l space s = some h) : Distinct h.driver := by
  obtain ⟨ret, params⟩ := space
  cases params with
  | initCtx context =>
    obtain ⟨-, -, hsame⟩ | ⟨⟨ctx, s'⟩, hadd, hh⟩ := orError_cases hh
    · exact hsame ▸ hd
    · rw [teeContextAdd] at hadd
      split at hadd
      · cases Option.some.inj hadd
      · obtain ⟨-, hr⟩ := afterLoop_eq hadd
        obtain ⟨-, rfl⟩ := Prod.mk.inj hr
        exact ok_driver hh ▸ ⟨hd.sessions, hd.memories⟩
  | finCtx context =>
    replace hh : teeCtxFinalizePost l ⟨ret, .finCtx context⟩ context s = some h := hh
    rw [teeCtxFinalizePost] at hh
    split at hh
    · cases hh
    · obtain rfl := Option.some.inj hh
      exact hd
    · split at hh
      · rename_i hsessions hmemories
        exact ok_driver hh ▸ ⟨hd.sessions.sublist ((purge_sublist hsessions).map _),
          hd.memories.sublist ((purge_sublist hmemories).map _)⟩
      · cases hh
  | regMem m =>
    obtain ⟨-, -, hsame⟩ | ⟨c, -, hh⟩ := orError_cases hh
    · exact hsame ▸ hd
    obtain ⟨-, -, hsame⟩ | ⟨mem, -, hh⟩ := orError_cases hh
    · exact hsame ▸ hd
    · have hptrs : (modify TeeSharedMemory.ptr mem.ptr ({ · with tzId := m.memid }) s.memories).map
          TeeSharedMemory.ptr = s.memories.map TeeSharedMemory.ptr := map_modify fun _ => rfl
      exact ok_driver hh ▸ ⟨hd.sessions, hptrs ▸ hd.memories⟩
  | relMem m =>
    obtain ⟨-, -, hsame⟩ | ⟨mem, -, hh⟩ := orError_cases hh
    · exact hsame ▸ hd
    · exact ok_driver hh ▸ ⟨hd.sessions, hd.memories.sublist ((remove_sublist _).map _)⟩
  | openSession context session tmpid o =>
    obtain ⟨-, -, hsame⟩ | ⟨c, -, hh⟩ := orError_cases hh
    · exact hsame ▸ hd
    obtain ⟨-, -, hsame⟩ | ⟨new, -, hh⟩ := orError_cases hh
    · exact hsame ▸ hd
    · have hptrs : (modify TeeSession.ptr new.ptr ({ · with tzId := session }) s.sessions).map
          TeeSession.ptr = s.sessions.map TeeSession.ptr := map_modify fun _ => rfl
      exact ok_driver hh ▸ ⟨hptrs ▸ hd.sessions, hd.memories⟩
  | closeSession session =>
    obtain ⟨-, -, hsame⟩ | ⟨x, -, hh⟩ := orError_cases hh
    · exact hsame ▸ hd
    · exact ok_driver hh ▸ ⟨hd.sessions.sublist ((remove_sublist _).map _), hd.memories⟩
  | invokeCommand session o => exact hd.congr (teeInvokePost_tables hh)
  | other op => exact error_driver hh ▸ hd

theorem teeProcess_distinct (hd : Distinct s) (hfresh : l.Fresh s space.params)
    (hr : teeProcess l a space s = some h) : Distinct h.driver := by
  obtain ⟨-, hsame⟩ | ⟨h', -, hpre, ⟨-, hsame⟩ | ⟨-, r, hpost, hsame⟩⟩ := teeProcess_cases hr
  · exact hsame ▸ hd
  · exact hsame ▸ eventPre_distinct hd hfresh hpre
  · exact hsame ▸ eventPost_distinct (eventPre_distinct hd hfresh hpre) hpost

end Requests

/-! ## 4. What `tz_driver_release` takes out -/

section Release

variable {unset : Bool} {pid : UInt32} {w : ContextWorld}

/-- The table after a release. -/
def ContextWorld.withContexts (w : ContextWorld) (cs : List TeeContext) : ContextWorld :=
  { w with driver := { w.driver with contexts := cs } }

theorem releaseLoop_eq (fuel : Nat) : releaseLoop unset pid fuel w =
    (purge unset (fun x => w.pid x.ptr = pid) TeeContext.ptr fuel w.driver.contexts).map w.withContexts := by
  induction fuel generalizing w with
  | zero => rfl
  | succ fuel ih =>
    rw [releaseLoop, purge, teeContextFindByPid]
    cases lookup unset (fun x => w.pid x.ptr = pid) w.driver.contexts with
    | none => rfl
    | some found =>
      cases found with
      | none => rfl
      | some ctx => exact ih

/-- Between calls: the id of a context, and its field `pid`, are the process that made it. -/
structure ContextWorld.Inv (w : ContextWorld) : Prop where
  ptrs : (w.driver.contexts.map TeeContext.ptr).Nodup
  ids : (w.driver.contexts.map TeeContext.id).Nodup
  made : ∀ c ∈ w.driver.contexts, c.id = w.creator c.ptr
  owners : ∀ c ∈ w.driver.contexts, w.pid c.ptr = w.creator c.ptr
  distinct : Distinct w.driver

/-- With fewer contexts. -/
theorem ContextWorld.Inv.sublist (hinv : w.Inv) {cs : List TeeContext}
    (hsub : cs.Sublist w.driver.contexts) : (w.withContexts cs).Inv where
  ptrs := hinv.ptrs.sublist (hsub.map _)
  ids := hinv.ids.sublist (hsub.map _)
  made c hc := hinv.made c (hsub.subset hc)
  owners c hc := hinv.owners c (hsub.subset hc)
  distinct := ⟨hinv.distinct.sessions, hinv.distinct.memories⟩

/-- A release that ends takes out what the process made. -/
theorem tzDriverRelease_eq (hinv : w.Inv)
    (hend : unset = true ∨ ∃ c ∈ w.driver.contexts, w.creator c.ptr ≠ pid) :
    tzDriverRelease unset pid w =
      some (w.withContexts (w.driver.contexts.filter fun c => w.creator c.ptr ≠ pid)) := by
  have hends : SearchesEnd unset (fun x => w.pid x.ptr = pid) w.driver.contexts := by
    refine hend.imp_right fun ⟨c, hc, hne⟩ => ⟨c, hc, decide_eq_false ?_⟩
    rwa [hinv.owners c hc]
  rw [tzDriverRelease, releaseLoop_eq, purge_eq hinv.ptrs (Nat.lt_succ_self _) hends, Option.map_some]
  refine congrArg (fun cs => some (w.withContexts cs)) (List.filter_congr fun c hc => ?_)
  rw [hinv.owners c hc]
  exact (decide_not (p := w.creator c.ptr = pid)).symm

/-- Otherwise it takes out all there is and goes wild. -/
theorem tzDriverRelease_eq_none (hinv : w.Inv)
    (hend : ¬(unset = true ∨ ∃ c ∈ w.driver.contexts, w.creator c.ptr ≠ pid)) :
    tzDriverRelease unset pid w = none := by
  have hends : ¬SearchesEnd unset (fun x => w.pid x.ptr = pid) w.driver.contexts := by
    refine fun h => hend (h.imp_right fun ⟨c, hc, hne⟩ => ⟨c, hc, ?_⟩)
    rw [← hinv.owners c hc]
    exact of_decide_eq_false hne
  rw [tzDriverRelease, releaseLoop_eq, purge_eq_none _ hends, Option.map_none]

end Release

/-! ## 5. One call -/

section Step

variable {w : ContextWorld} {e : Request} {h : Handled} {s t : Option ContextWorld} {a : DeviceCall}

/-- A request that puts a new context into the table. -/
theorem contexts_of_adds {ptr : Nat} (hadds : e.Adds ptr)
    (hfresh : ∀ p ∈ e.linux.entry, p ∉ w.driver.contexts.map TeeContext.ptr)
    (hr : teeProcess e.linux e.answer e.space w.driver = some h) :
    h.driver.contexts = w.driver.contexts ++ [⟨ptr, e.linux.pid, e.answer.id⟩] := by
  obtain ⟨l, ⟨ret, params⟩, a⟩ := e
  obtain ⟨hpages, hentry, hnode, context, rfl⟩ := hadds
  dsimp only at hpages hentry hnode hfresh hr
  obtain ⟨hno, -⟩ | ⟨h', -, hpre, ⟨hs, -⟩ | ⟨-, r, hpost, hd⟩⟩ := teeProcess_cases hr
  · exact absurd (hno.symm.trans hpages) nofun
  · obtain rfl := Option.some.inj hpre
    exact absurd hs nofun
  · obtain rfl := Option.some.inj hpre
    obtain ⟨hnone, -⟩ | ⟨ptr', hentry', hsame⟩ := teeCtxInitPost_tables hfresh hpost
    · exact absurd (hnone.symm.trans hentry) nofun
    · obtain rfl := Option.some.inj (hentry.symm.trans hentry')
      rw [hd, hsame.contexts, hnode]
      rfl

/-- Any other request. -/
theorem contexts_sublist (hadds : ∀ ptr, ¬e.Adds ptr)
    (hfresh : ∀ p ∈ e.linux.entry, p ∉ w.driver.contexts.map TeeContext.ptr)
    (hr : teeProcess e.linux e.answer e.space w.driver = some h) :
    h.driver.contexts.Sublist w.driver.contexts := by
  obtain ⟨l, space, a⟩ := e
  dsimp only at hfresh hr
  obtain ⟨-, hd⟩ | ⟨h', hpages, hpre, ⟨-, hd⟩ | ⟨-, r, hpost, hd⟩⟩ := teeProcess_cases hr
  · rw [hd]
  · rw [hd, (eventPre_keeps hpre).contexts]
  rw [hd, ← (eventPre_keeps hpre).contexts]
  cases hinit : space.params.isInitCtx with
  | false =>
    have hnot := ((answer_isInitCtx a h'.space).trans (eventPre_keeps hpre).isInitCtx).trans hinit
    exact eventPost_sublist hnot hpost
  | true =>
    obtain ⟨ret, params⟩ := space
    match params, hinit with
    | .initCtx context, _ =>
      obtain rfl := Option.some.inj hpre
      obtain ⟨-, hsame⟩ | ⟨ptr, hentry, hsame⟩ := teeCtxInitPost_tables hfresh hpost
      · rw [hsame.contexts]
      · cases hnode : l.node with
        | false =>
          rw [hsame.contexts, hnode]
          exact .refl _
        | true => exact absurd ⟨hpages, hentry, hnode, context, rfl⟩ (hadds ptr)

/-- What was in the table keeps its creator. -/
theorem after_creator {s : TeeDriver} {c : TeeContext} (hc : c ∈ w.driver.contexts) :
    (w.after e s).creator c.ptr = w.creator c.ptr :=
  if_pos (List.mem_map_of_mem hc)

theorem after_inv (hinv : w.Inv) {s : TeeDriver} (hsub : s.contexts.Sublist w.driver.contexts)
    (hd : Distinct s) : (w.after e s).Inv where
  ptrs := hinv.ptrs.sublist (hsub.map _)
  ids := hinv.ids.sublist (hsub.map _)
  made c hc := (hinv.made c (hsub.subset hc)).trans (after_creator (hsub.subset hc)).symm
  owners c hc := (hinv.owners c (hsub.subset hc)).trans (after_creator (hsub.subset hc)).symm
  distinct := hd

theorem after_inv_of_adds (hinv : w.Inv) {s : TeeDriver} {ptr : Nat} {tzId : UInt32}
    (hptr : ptr ∉ w.driver.contexts.map TeeContext.ptr)
    (hnone : ∀ c ∈ w.driver.contexts, w.creator c.ptr ≠ e.linux.pid) (hpid : w.pid ptr = e.linux.pid)
    (hs : s.contexts = w.driver.contexts ++ [⟨ptr, e.linux.pid, tzId⟩]) (hd : Distinct s) :
    (w.after e s).Inv := by
  have hnew : (w.after e s).creator ptr = e.linux.pid := if_neg hptr
  have hid : e.linux.pid ∉ w.driver.contexts.map TeeContext.id := by
    intro hin
    obtain ⟨c, hc, hcid⟩ := List.mem_map.mp hin
    exact hnone c hc ((hinv.made c hc).symm.trans hcid)
  have hall : ∀ c ∈ s.contexts, c ∈ w.driver.contexts ∨ c = ⟨ptr, e.linux.pid, tzId⟩ := by
    intro c hc
    exact (List.mem_append.mp (hs ▸ hc)).imp_right List.mem_singleton.mp
  refine ⟨?_, ?_, fun c hc => ?_, fun c hc => ?_, hd⟩
  · simp only [ContextWorld.after, hs, List.map_append]
    exact nodup_snoc hinv.ptrs hptr
  · simp only [ContextWorld.after, hs, List.map_append]
    exact nodup_snoc hinv.ids hid
  · obtain hc | rfl := hall c hc
    · exact (hinv.made c hc).trans (after_creator hc).symm
    · exact hnew.symm
  · obtain hc | rfl := hall c hc
    · exact (hinv.owners c hc).trans (after_creator hc).symm
    · exact hpid.trans hnew.symm

/-- Between calls. -/
def DeviceInv (s : Option ContextWorld) : Prop := ∃ w, s = some w ∧ w.Inv

theorem ContextWorld.Inv.kept {w' : ContextWorld} (hinv : w'.Inv)
    (hreleased : ∀ unset pid, a = .release unset pid →
      w'.driver.contexts = w.driver.contexts.filter fun c => w.creator c.ptr ≠ pid) :
    CallKept (some w) a (some w') :=
  ⟨w, w', rfl, rfl, hinv.ids, hinv.owners, hreleased⟩

/-- **One call as the contexts need it.** -/
theorem deviceStep_kept (hinv : DeviceInv s) (hstep : DeviceStep s a t) (ha : alone s a) :
    DeviceInv t ∧ CallKept s a t := by
  obtain ⟨w, rfl, hinv⟩ := hinv
  cases hstep with
  | @request _ e hfresh =>
    obtain ⟨hsearched, halone⟩ := ha w rfl
    obtain ⟨h, hr⟩ := Option.isSome_iff_exists.mp ((isSome_teeProcess_iff hinv.distinct hfresh).mpr hsearched)
    have hd := teeProcess_distinct hinv.distinct hfresh hr
    have hnext : (w.after e h.driver).Inv := by
      by_cases hadds : ∃ ptr, e.Adds ptr
      · obtain ⟨ptr, hadds⟩ := hadds
        obtain ⟨hnone, hpid⟩ := halone ptr hadds
        exact after_inv_of_adds hinv (hfresh.context ptr hadds.2.1) hnone hpid
          (contexts_of_adds hadds hfresh.context hr) hd
      · exact after_inv hinv (contexts_sublist (not_exists.mp hadds) hfresh.context hr) hd
    rw [hr]
    exact ⟨⟨_, rfl, hnext⟩, hnext.kept nofun⟩
  | @release _ unset pid =>
    rw [tzDriverRelease_eq hinv (ha w rfl)]
    have hsub : (w.driver.contexts.filter fun c => w.creator c.ptr ≠ pid).Sublist w.driver.contexts :=
      List.filter_sublist
    have hnext := hinv.sublist hsub
    refine ⟨⟨_, rfl, hnext⟩, hnext.kept fun unset' pid' heq => ?_⟩
    obtain ⟨-, rfl⟩ := DeviceCall.release.inj heq
    rfl
  | @other _ pid hpid =>
    have hnext : ({ w with pid := pid } : ContextWorld).Inv :=
      ⟨hinv.ptrs, hinv.ids, hinv.made, fun c hc => (hpid c hc).trans (hinv.owners c hc), hinv.distinct⟩
    exact ⟨⟨_, rfl, hnext⟩, hnext.kept nofun⟩

/-- **Any other call.** -/
theorem deviceStep_not_kept (hinv : DeviceInv s) (hstep : DeviceStep s a t) (ha : ¬alone s a) :
    ¬CallKept s a t := by
  obtain ⟨w, rfl, hinv⟩ := hinv
  rintro ⟨_, w', hw, hw', hkept⟩
  obtain rfl := Option.some.inj hw
  cases hstep with
  | @request _ e hfresh =>
    obtain ⟨h, hr, rfl⟩ := Option.map_eq_some_iff.mp hw'
    refine ha fun _ hw => ?_
    obtain rfl := Option.some.inj hw
    refine ⟨(isSome_teeProcess_iff hinv.distinct hfresh).mp (by rw [hr]; rfl), fun ptr hadds => ?_⟩
    have hcs := contexts_of_adds hadds hfresh.context hr
    refine ⟨fun c hc hcreator => ?_, ?_⟩
    · have hids : (h.driver.contexts.map TeeContext.id).Nodup := hkept.ids
      rw [hcs, List.map_append] at hids
      have hne := (List.nodup_append.mp hids).2.2 c.id (List.mem_map_of_mem hc) e.linux.pid
      exact hne (List.mem_singleton.mpr rfl) ((hinv.made c hc).trans hcreator)
    · have hmem : ⟨ptr, e.linux.pid, e.answer.id⟩ ∈ h.driver.contexts :=
        hcs ▸ List.mem_append_right _ (List.mem_singleton.mpr rfl)
      exact (hkept.owners _ hmem).trans (if_neg (hfresh.context ptr hadds.2.1))
  | @release _ unset pid =>
    refine ha fun _ hw => ?_
    obtain rfl := Option.some.inj hw
    by_contra hend
    rw [tzDriverRelease_eq_none hinv hend] at hw'
    exact absurd hw' nofun
  | other => exact ha trivial

end Step

/-! ## 6. Every run -/

/-- The driver after `tee_context_init`, with whatever the memory holds. -/
def contextStart (pid creator : Nat → UInt32) : ContextWorld :=
  ⟨⟨[], [], [], [], [], []⟩, pid, creator⟩

theorem contextStart_inv (pid creator : Nat → UInt32) : (contextStart pid creator).Inv :=
  ⟨List.nodup_nil, List.nodup_nil, nofun, nofun, List.nodup_nil, List.nodup_nil⟩

/-- **The runs that keep the contexts** are those in which no search of a request goes wild, and every
process that makes one or closes the device is alone with it. -/
theorem contexts_kept_iff (pid creator : Nat → UInt32) (as : List DeviceCall) (t : Option ContextWorld) :
    Run (fun s a t => DeviceStep s a t ∧ CallKept s a t) (some (contextStart pid creator)) as t ↔
      Run (Guarded alone DeviceStep) (some (contextStart pid creator)) as t := by
  refine Run.decided_iff DeviceInv (fun s a t hinv hstep ha => ?_) (fun s a t hinv hstep ha => ?_)
    ⟨_, rfl, contextStart_inv pid creator⟩
  · exact deviceStep_kept hinv hstep ha
  · exact deviceStep_not_kept hinv hstep ha

/-- A new context, in the memory at `ptr`. -/
def newContext (ptr : Nat) : Request :=
  ⟨{ calmLinux with entry := some ptr }, ⟨0, .initCtx 0⟩, ⟨teecSuccess, 9, fun _ => ⟨0, 0, 0⟩⟩⟩

/-- **Two contexts of one process**, in memory that held zeros: they have one id, their field `pid` is that
of no process, and when the process closes the device they stay. -/
theorem two_contexts_clash :
    ∃ w, Run DeviceStep (some (contextStart (fun _ => 0) fun _ => 0))
        [.request (newContext 10), .request (newContext 12)] (some w) ∧
      w.driver.contexts.map TeeContext.id = [42, 42] ∧ w.creator 10 = 42 ∧ w.pid 10 = 0 ∧
      DeviceStep (some w) (.release true 42) (some w) ∧
      ¬CallKept (some w) (.release true 42) (some w) := by
  have hfirst : calmLinux.Fresh ⟨[], [], [], [], [], []⟩ (.initCtx 0) := ⟨nofun, nofun, nofun, nofun⟩
  refine ⟨_, .cons (.request hfirst) (.cons (.request ⟨?_, nofun, nofun, ?_⟩) (.nil _)), rfl, rfl, rfl,
    .release, ?_⟩
  · rintro p hp
    obtain rfl := Option.some.inj hp
    decide
  · decide
  · rintro ⟨_, w', -, hw', hkept⟩
    obtain rfl := Option.some.inj hw'
    exact absurd hkept.ids (by decide)

end AndixOs.Driver
