/-
# The tables of the two worlds

The secure world has contexts, sessions and memories of its own, and reports in its answers what it makes
and releases.  The driver's tables are to hold the same objects.  It adds some of them before it asks the
secure world and some after, and it never looks at the answer: an error of the secure world changes the
tables as a success would.

`tables_run_iff` says which runs keep the tables in step.
-/
import AndixOs.Driver.ParamRefs

namespace AndixOs.Driver

open AndixOs AndixOs.Swi

/-! ## 1. What the secure world reports -/

/-- The objects of the secure world by their ids; sessions and memories with the context they are in. -/
structure Objects where
  contexts : List UInt32
  sessions : List (UInt32 × UInt32)
  memories : List (UInt32 × UInt32)

/-- The objects after a success.  The end of a context is the end of what is in it. -/
def Objects.after (o : Objects) (id : UInt32) : TeeParams → Objects
  | .initCtx _ => { o with contexts := o.contexts ++ [id] }
  | .finCtx context =>
    { contexts := o.contexts.filter (· ≠ context)
      sessions := o.sessions.filter (·.1 ≠ context)
      memories := o.memories.filter (·.1 ≠ context) }
  | .regMem m => { o with memories := o.memories ++ [(m.context, id)] }
  | .relMem m => { o with memories := o.memories.filter (·.2 ≠ m.memid) }
  | .openSession context _ _ _ => { o with sessions := o.sessions ++ [(context, id)] }
  | .closeSession session => { o with sessions := o.sessions.filter (·.2 ≠ session) }
  | .invokeCommand _ _ | .other _ => o

/-- The objects after an answer. -/
def Objects.report (o : Objects) (a : Answer) (p : TeeParams) : Objects :=
  if a.ret = teecSuccess then o.after a.id p else o

/-- The id that the secure world has for the context at an address. -/
def tzOf (cs : List TeeContext) (ptr : Nat) : Option UInt32 :=
  (cs.find? fun c => c.ptr = ptr).map TeeContext.tzId

/-- A table of the driver, in the ids of the secure world. -/
def tzView {α : Type} (ctx : α → Nat) (tzId : α → UInt32) (cs : List TeeContext) (xs : List α) :
    List (Option UInt32 × UInt32) := xs.map fun x => (tzOf cs (ctx x), tzId x)

/-- The objects of a table as the secure world has them. -/
def objectView (os : List (UInt32 × UInt32)) : List (Option UInt32 × UInt32) :=
  os.map fun y => (some y.1, y.2)

/-- **The tables are in step.** -/
structure InStep (s : TeeDriver) (o : Objects) : Prop where
  contexts : s.contexts.map TeeContext.tzId = o.contexts
  sessions : tzView TeeSession.ctx TeeSession.tzId s.contexts s.sessions = objectView o.sessions
  memories : tzView TeeSharedMemory.ctx TeeSharedMemory.tzId s.contexts s.memories = objectView o.memories

/-- The tables are as they were. -/
structure SameTables (s s' : TeeDriver) : Prop where
  contexts : s'.contexts = s.contexts
  sessions : s'.sessions = s.sessions
  memories : s'.memories = s.memories

theorem SameTables.refl (s : TeeDriver) : SameTables s s := ⟨rfl, rfl, rfl⟩

theorem SameTables.trans {s t u : TeeDriver} (h : SameTables s t) (h' : SameTables t u) : SameTables s u :=
  ⟨h'.contexts.trans h.contexts, h'.sessions.trans h.sessions, h'.memories.trans h.memories⟩

/-! ## 2. Requests -/

/-- A request with what Linux does in it and what the secure world answers. -/
structure Request where
  linux : Linux
  space : TzTeeSpace
  answer : Answer

/-- The ids that are taken where a request makes a new object. -/
def Objects.taken (o : Objects) : TeeParams → List UInt32
  | .initCtx _ => o.contexts
  | .regMem _ => o.memories.map Prod.snd
  | .openSession .. => o.sessions.map Prod.snd
  | _ => []

/-- A parameter that `tee_translate_parameter_to_tz` takes. -/
def ParamAccepted (l : Linux) (ms : List TeeSharedMemory) (i : Nat) (t : TeecType) (p : TeecParamter) :
    Prop :=
  (t.isTemp = true → (l.param i).entry.isSome ∧ (l.param i).buf.isSome ∧
    (t = .memrefTempOutput ∨ (l.param i).copiedIn = true)) ∧
  (t.isTemp = false → t.isRegistered = true → (∃ m ∈ ms, m.id = p.memid) ∧
    (t = .memrefPartialOutput ∨ (l.param i).copiedIn = true))

def ParamsAccepted (l : Linux) (ms : List TeeSharedMemory) : Nat → List (TeecType × TeecParamter) → Prop
  | _, [] => True
  | i, (t, p) :: ps => ParamAccepted l ms i t p ∧ ParamsAccepted l ms (i + 1) ps

/-! ## 3. Tables in the ids of the secure world -/

section Owned

variable {α : Type} {ptr ctx : α → Nat} {tzId : α → UInt32} {cs : List TeeContext} {xs : List α}
  {os : List (UInt32 × UInt32)} {c : TeeContext} {x : α}

/-- A table of objects in contexts, and the same objects in the secure world. -/
structure Owned (ptr ctx : α → Nat) (tzId : α → UInt32) (cs : List TeeContext) (xs : List α)
    (os : List (UInt32 × UInt32)) : Prop where
  view : tzView ctx tzId cs xs = objectView os
  ptrs : (xs.map ptr).Nodup
  ids : (xs.map tzId).Nodup
  ctxs : ∀ x ∈ xs, ctx x ∈ cs.map TeeContext.ptr

theorem tzOf_of_mem (hcs : (cs.map TeeContext.ptr).Nodup) (hc : c ∈ cs) : tzOf cs c.ptr = some c.tzId := by
  obtain ⟨y, hy, hp⟩ := exists_find_of_mem (p := fun d : TeeContext => d.ptr = c.ptr) hc (decide_eq_true rfl)
  obtain rfl := List.inj_on_of_nodup_map hcs (List.mem_of_find?_eq_some hy) hc (of_decide_eq_true hp)
  rw [tzOf, hy, Option.map_some]

theorem tzOf_append {p : Nat} (hp : p ∈ cs.map TeeContext.ptr) (ds : List TeeContext) :
    tzOf (cs ++ ds) p = tzOf cs p := by
  obtain ⟨d, hd, rfl⟩ := List.mem_map.mp hp
  obtain ⟨y, hy, -⟩ := exists_find_of_mem (p := fun e : TeeContext => e.ptr = d.ptr) hd (decide_eq_true rfl)
  rw [tzOf, tzOf, List.find?_append, hy, Option.some_or]

theorem Owned.snd_eq (h : Owned ptr ctx tzId cs xs os) : os.map Prod.snd = xs.map tzId := by
  have hview := congrArg (List.map Prod.snd) h.view
  simp only [tzView, objectView, List.map_map] at hview
  exact hview.symm

/-- A new context. -/
theorem Owned.addContext (h : Owned ptr ctx tzId cs xs os) (ds : List TeeContext) :
    Owned ptr ctx tzId (cs ++ ds) xs os where
  view := by
    rw [← h.view]
    exact List.map_congr_left fun x hx => by rw [tzOf_append (h.ctxs x hx)]
  ptrs := h.ptrs
  ids := h.ids
  ctxs := fun x hx => by
    rw [List.map_append]
    exact List.mem_append_left _ (h.ctxs x hx)

/-- The end of a context, with all that is in it. -/
theorem Owned.removeContext (h : Owned ptr ctx tzId cs xs os) (hptr : (cs.map TeeContext.ptr).Nodup)
    (htz : (cs.map TeeContext.tzId).Nodup) (hc : c ∈ cs) :
    Owned ptr ctx tzId (remove TeeContext.ptr c.ptr cs) (xs.filter fun x => !decide (ctx x = c.ptr))
      (os.filter (·.1 ≠ c.tzId)) where
  view := by
    have hout : ∀ x ∈ xs, (!decide (ctx x = c.ptr)) = decide (tzOf cs (ctx x) ≠ some c.tzId) := by
      intro x hx
      obtain ⟨d, hd, hdx⟩ := List.mem_map.mp (h.ctxs x hx)
      rw [← hdx, tzOf_of_mem hptr hd]
      by_cases heq : d = c
      · simp [heq]
      · have hne : d.ptr ≠ c.ptr := fun hp => heq (List.inj_on_of_nodup_map hptr hd hc hp)
        have hne' : d.tzId ≠ c.tzId := fun ht => heq (List.inj_on_of_nodup_map htz hd hc ht)
        simp [hne, hne']
    have hkeep : ∀ x ∈ xs.filter (fun x => !decide (ctx x = c.ptr)),
        tzOf (remove TeeContext.ptr c.ptr cs) (ctx x) = tzOf cs (ctx x) := by
      intro x hx
      have hne : ctx x ≠ c.ptr := by simpa using (List.mem_filter.mp hx).2
      rw [tzOf, tzOf, remove_eq_filter hptr, List.find?_filter]
      refine congrArg (Option.map _) (congrArg (List.find? · cs) (funext fun d => ?_))
      by_cases hd : d.ptr = ctx x
      · simp [hd, hne]
      · simp [hd]
    have hobjects : (objectView os).filter (fun y => y.1 ≠ some c.tzId) =
        objectView (os.filter (·.1 ≠ c.tzId)) := by
      rw [objectView, objectView, List.filter_map]
      exact congrArg _ (List.filter_congr fun y _ => by simp)
    rw [← hobjects, ← h.view, tzView, tzView, List.filter_map, List.filter_congr hout]
    refine List.map_congr_left fun x hx => ?_
    rw [hkeep x (by rw [List.filter_congr hout]; exact hx)]
  ptrs := h.ptrs.sublist (List.filter_sublist.map ptr)
  ids := h.ids.sublist (List.filter_sublist.map tzId)
  ctxs := fun x hx => by
    obtain ⟨hx, hne⟩ := List.mem_filter.mp hx
    obtain ⟨d, hd, hdx⟩ := List.mem_map.mp (h.ctxs x hx)
    have hne : d.ptr ≠ c.ptr := by simpa [hdx] using hne
    exact List.mem_map.mpr ⟨d, mem_remove_of_ne hd hne, hdx⟩

theorem nodup_snoc {β : Type} {ys : List β} {y : β} (h : ys.Nodup) (hy : y ∉ ys) : (ys ++ [y]).Nodup :=
  List.nodup_append.mpr ⟨h, List.nodup_singleton y, fun _ ha _ hb he =>
    hy (List.mem_singleton.mp hb ▸ he ▸ ha)⟩

/-- A new object. -/
theorem Owned.add (h : Owned ptr ctx tzId cs xs os) (hcs : (cs.map TeeContext.ptr).Nodup) (hc : c ∈ cs)
    (hctx : ctx x = c.ptr) (hptr : ptr x ∉ xs.map ptr) (hid : tzId x ∉ os.map Prod.snd) :
    Owned ptr ctx tzId cs (xs ++ [x]) (os ++ [(c.tzId, tzId x)]) where
  view := by
    have hview := h.view
    rw [tzView, objectView] at hview ⊢
    rw [List.map_append, List.map_append, hview, List.map_singleton, List.map_singleton, hctx,
      tzOf_of_mem hcs hc]
  ptrs := by
    rw [List.map_append]
    exact nodup_snoc h.ptrs hptr
  ids := by
    rw [List.map_append]
    exact nodup_snoc h.ids (h.snd_eq ▸ hid)
  ctxs := fun y hy => by
    obtain hy | hy := List.mem_append.mp hy
    · exact h.ctxs y hy
    · rw [List.mem_singleton.mp hy, hctx]
      exact List.mem_map.mpr ⟨c, hc, rfl⟩

/-- An object that is released. -/
theorem Owned.remove (h : Owned ptr ctx tzId cs xs os) (hx : x ∈ xs) :
    Owned ptr ctx tzId cs (remove ptr (ptr x) xs) (os.filter (·.2 ≠ tzId x)) where
  view := by
    have hsame : ∀ y ∈ xs, decide (ptr y ≠ ptr x) = decide (tzId y ≠ tzId x) := by
      intro y hy
      by_cases heq : y = x
      · simp [heq]
      · have hne : ptr y ≠ ptr x := fun hp => heq (List.inj_on_of_nodup_map h.ptrs hy hx hp)
        have hne' : tzId y ≠ tzId x := fun ht => heq (List.inj_on_of_nodup_map h.ids hy hx ht)
        simp [hne, hne']
    have hobjects : (objectView os).filter (fun y => y.2 ≠ tzId x) = objectView (os.filter (·.2 ≠ tzId x)) := by
      rw [objectView, objectView, List.filter_map]
      rfl
    rw [← hobjects, ← h.view, tzView, tzView, List.filter_map, remove_eq_filter h.ptrs,
      List.filter_congr hsame]
    rfl
  ptrs := h.ptrs.sublist ((remove_sublist _).map ptr)
  ids := h.ids.sublist ((remove_sublist _).map tzId)
  ctxs := fun y hy => h.ctxs y ((remove_sublist _).subset hy)

end Owned

/-! ## 4. Before the secure world -/

section Pre

variable {l : Linux} {i : Nat} {t : TeecType} {p : TeecParamter} {ps : List (TeecType × TeecParamter)}
  {s s' : TeeDriver} {d : ParamDone} {r : ParamsDone} {space : TzTeeSpace} {h : Handled}
  {context session : UInt32} {m : RegMem} {o : Operation}

theorem paramToTz_same (hd : paramToTz l i t p s = some d) : SameTables s d.driver := by
  rw [paramToTz] at hd
  by_cases ht : t.isTemp = true
  · rw [if_pos ht] at hd
    cases hentry : (l.param i).entry with
    | none =>
      rw [hentry] at hd
      obtain rfl := Option.some.inj hd
      exact .refl s
    | some ptr =>
      cases hbuf : (l.param i).buf with
      | none =>
        rw [hentry, hbuf] at hd
        obtain rfl := Option.some.inj hd
        exact ⟨rfl, rfl, rfl⟩
      | some vaddr =>
        rw [hentry, hbuf] at hd
        simp only at hd
        split at hd <;> obtain rfl := Option.some.inj hd <;> exact ⟨rfl, rfl, rfl⟩
  rw [if_neg ht] at hd
  by_cases hreg : t.isRegistered = true
  · rw [if_pos hreg] at hd
    rcases hfind : teeMemoryFindById l p.memid s with _ | _ | mem
    · rw [hfind] at hd
      cases hd
    · rw [hfind] at hd
      obtain rfl := Option.some.inj hd
      exact .refl s
    · rw [hfind] at hd
      simp only at hd
      split at hd <;> obtain rfl := Option.some.inj hd <;> exact .refl s
  · rw [if_neg hreg] at hd
    obtain rfl := Option.some.inj hd
    exact .refl s

theorem toTz_same (hr : paramLoop (paramToTz l) i ps s = some r) : SameTables s r.driver := by
  obtain ⟨rest, hrest⟩ := paramLoop_inv (P := fun _ s' => SameTables s s')
    (fun hd hs => hs.trans (paramToTz_same hd)) hr (.refl s)
  exact hrest

theorem fromTz_same (hr : paramLoop (paramFromTz l) i ps s = some r) : SameTables s r.driver := by
  obtain ⟨rest, hrest⟩ := paramLoop_inv (P := fun _ s' => SameTables s s')
    (fun hd hs => hs.trans
      ⟨(paramFromTz_round hd).contexts, (paramFromTz_round hd).sessions, (paramFromTz_round hd).memories⟩)
    hr (.refl s)
  exact hrest

/-- A round succeeds exactly on the parameters that are taken. -/
theorem paramToTz_ok_iff (hd : paramToTz l i t p s = some d) :
    d.error = none ↔ ParamAccepted l s.memories i t p := by
  rw [paramToTz] at hd
  by_cases ht : t.isTemp = true
  · rw [if_pos ht] at hd
    simp only [ParamAccepted, ht, true_implies, Bool.true_eq_false, false_implies, and_true]
    cases hentry : (l.param i).entry with
    | none =>
      rw [hentry] at hd
      obtain rfl := Option.some.inj hd
      simp
    | some ptr =>
      cases hbuf : (l.param i).buf with
      | none =>
        rw [hentry, hbuf] at hd
        obtain rfl := Option.some.inj hd
        simp
      | some vaddr =>
        rw [hentry, hbuf] at hd
        simp only at hd
        split at hd
        · rename_i hcopy
          obtain rfl := Option.some.inj hd
          simpa using hcopy
        · rename_i hcopy
          obtain rfl := Option.some.inj hd
          simpa [or_iff_not_imp_left] using hcopy
  · have ht' : t.isTemp = false := by simpa using ht
    rw [if_neg ht] at hd
    simp only [ParamAccepted, ht', true_implies, Bool.false_eq_true, false_implies, true_and]
    by_cases hreg : t.isRegistered = true
    · rw [if_pos hreg] at hd
      simp only [hreg, true_implies]
      rcases hfind : teeMemoryFindById l p.memid s with _ | _ | mem
      · rw [hfind] at hd
        cases hd
      · rw [hfind] at hd
        obtain rfl := Option.some.inj hd
        have hnone := List.find?_eq_none.mp (lookup_eq_none hfind)
        refine iff_of_false (Option.some_ne_none _) fun hin => ?_
        obtain ⟨⟨m, hm, hid⟩, -⟩ := hin
        exact hnone m hm (decide_eq_true hid)
      · rw [hfind] at hd
        have hfound := lookup_eq_some hfind
        have hin : ∃ m ∈ s.memories, m.id = p.memid :=
          ⟨mem, List.mem_of_find?_eq_some hfound, by simpa using List.find?_some hfound⟩
        simp only [hin, true_and]
        simp only at hd
        split at hd
        · rename_i hcopy
          obtain rfl := Option.some.inj hd
          simpa using hcopy
        · rename_i hcopy
          obtain rfl := Option.some.inj hd
          simpa [or_iff_not_imp_left] using hcopy
    · rw [if_neg hreg] at hd
      obtain rfl := Option.some.inj hd
      simp [hreg]

theorem toTz_ok_iff (hr : paramLoop (paramToTz l) i ps s = some r) :
    r.error = none ↔ ParamsAccepted l s.memories i ps := by
  induction ps generalizing i s r with
  | nil =>
    obtain rfl := Option.some.inj hr
    exact iff_of_true rfl trivial
  | cons x ps ih =>
    obtain ⟨t, p⟩ := x
    rw [paramLoop] at hr
    rcases hbody : paramToTz l i t p s with _ | ⟨_ | e, p', s'⟩
    · rw [hbody] at hr
      cases hr
    · rw [hbody] at hr
      obtain ⟨r', hr', rfl⟩ := Option.map_eq_some_iff.mp hr
      have hmem := (paramToTz_same hbody).memories
      refine (ih hr').trans ?_
      rw [hmem, ParamsAccepted]
      exact ⟨fun h => ⟨(paramToTz_ok_iff hbody).mp rfl, h⟩, fun h => h.2⟩
    · rw [hbody] at hr
      obtain rfl := Option.some.inj hr
      refine iff_of_false (Option.some_ne_none e) fun h => ?_
      exact Option.some_ne_none e ((paramToTz_ok_iff hbody).mpr h.1)

theorem orError_cases {α : Type} {found : Option (Option α)} {ret : UInt32} {f : α → Option Handled}
    (hh : orError found space ret s f = some h) :
    (found = some none ∧ h.success = false ∧ h.driver = s) ∨ ∃ x, found = some (some x) ∧ f x = some h := by
  match found, hh with
  | some none, hh =>
    obtain rfl := Option.some.inj hh
    exact .inl ⟨rfl, rfl, rfl⟩
  | some (some x), hh => exact .inr ⟨x, rfl, hh⟩

theorem error_driver {ret : UInt32} (hh : Handled.error space ret s = some h) : h.driver = s := by
  obtain rfl := Option.some.inj hh
  rfl

theorem ok_success {q : TeeParams} (hh : Handled.ok space q s = some h) : h.success = true := by
  obtain rfl := Option.some.inj hh
  rfl

/-- `tee_mem_reg_pre` takes back what it has added. -/
theorem teeMemRegPre_fails (hptr : ∀ a ∈ l.entry, a ∉ s.memories.map TeeSharedMemory.ptr)
    (hh : teeMemRegPre l space m s = some h) (hs : h.success = false) : SameTables s h.driver := by
  rw [teeMemRegPre] at hh
  split at hh
  · rw [error_driver hh]
    exact .refl s
  obtain ⟨-, -, hd⟩ | ⟨c, -, hh⟩ := orError_cases hh
  · exact hd ▸ .refl s
  obtain ⟨-, -, hd⟩ | ⟨⟨mem, s'⟩, hadd, hh⟩ := orError_cases hh
  · exact hd ▸ .refl s
  cases hentry : l.entry with
  | none => simp [teeMemoryAdd, hentry] at hadd
  | some ptr =>
    simp only [teeMemoryAdd, hentry] at hadd
    obtain ⟨-, hadd⟩ := afterLoop_eq hadd
    obtain ⟨rfl, rfl⟩ := Prod.mk.inj hadd
    cases hbuf : l.buf with
    | none =>
      simp only [hbuf] at hh
      rw [error_driver hh]
      exact ⟨rfl, rfl, remove_listAdd _ (hptr ptr hentry)⟩
    | some vaddr =>
      simp only [hbuf] at hh
      rw [ok_success hh] at hs
      cases hs

/-- `tee_session_open_pre` keeps the session that it has added, whatever becomes of the operation. -/
theorem teeSessionOpenPre_cases (hh : teeSessionOpenPre l space context session o s = some h) :
    (¬((∃ c ∈ s.contexts, c.id = context) ∧ l.entry.isSome) ∧ h.success = false ∧ h.driver = s) ∨
    (∃ c ptr, s.contexts.find? (fun x => x.id = context) = some c ∧ l.entry = some ptr ∧
      (h.success = true ↔ (o.valid = 1 → ParamsAccepted l s.memories 0 o.params)) ∧
      SameTables (withNewSession l c ptr s) h.driver) := by
  obtain ⟨hfound, hs, hd⟩ | ⟨c, hc, hh⟩ := orError_cases hh
  · refine .inl ⟨?_, hs, hd⟩
    rintro ⟨⟨c, hc, hid⟩, -⟩
    exact List.find?_eq_none.mp (lookup_eq_none hfound) c hc (decide_eq_true hid)
  have hc := lookup_eq_some hc
  obtain ⟨hadd, hs, hd⟩ | ⟨⟨new, s'⟩, hadd, hh⟩ := orError_cases hh
  · refine .inl ⟨?_, hs, hd⟩
    rintro ⟨-, hentry⟩
    obtain ⟨ptr, hentry⟩ := Option.isSome_iff_exists.mp hentry
    simp only [teeSessionAdd, hentry] at hadd
    rcases hfind : teeSessionFindById l l.newId s with _ | _ | found
    · rw [hfind] at hadd
      cases hadd
    · rw [hfind] at hadd
      cases hadd
    · rw [hfind] at hadd
      cases hadd
  cases hentry : l.entry with
  | none => simp [teeSessionAdd, hentry] at hadd
  | some ptr =>
    simp only [teeSessionAdd, hentry] at hadd
    obtain ⟨-, hadd⟩ := afterLoop_eq hadd
    obtain ⟨rfl, rfl⟩ := Prod.mk.inj hadd
    refine .inr ⟨c, ptr, hc, rfl, ?_⟩
    by_cases hvalid : o.valid = 1
    · simp only [if_pos hvalid] at hh
      obtain ⟨r, hr, rfl⟩ := Option.map_eq_some_iff.mp hh
      refine ⟨?_, toTz_same hr⟩
      rw [decide_eq_true_iff, toTz_ok_iff hr]
      exact ⟨fun h _ => h, fun h => h hvalid⟩
    · simp only [if_neg hvalid] at hh
      obtain rfl := Option.some.inj hh
      exact ⟨iff_of_true rfl fun h => absurd h hvalid, .refl _⟩

/-- Where `pre` fails, the tables are as they were, but for the session of an operation that is not
accepted. -/
theorem pre_fails (hptr : ∀ a ∈ l.entry, a ∉ s.memories.map TeeSharedMemory.ptr)
    (hnot : ∀ context session tmpid o, space.params ≠ .openSession context session tmpid o)
    (hh : eventPre l space s = some h) (hs : h.success = false) : SameTables s h.driver := by
  obtain ⟨ret, params⟩ := space
  cases params with
  | initCtx context => exact absurd (hs.symm.trans (ok_success hh)) nofun
  | finCtx context =>
    obtain ⟨-, -, hd⟩ | ⟨c, -, hh⟩ := orError_cases hh
    · exact hd ▸ .refl s
    · exact absurd (hs.symm.trans (ok_success hh)) nofun
  | regMem m => exact teeMemRegPre_fails hptr hh hs
  | relMem m =>
    obtain ⟨-, -, hd⟩ | ⟨x, -, hh⟩ := orError_cases hh
    · exact hd ▸ .refl s
    repeat' split at hh
    all_goals first | exact error_driver hh ▸ .refl s | exact absurd (hs.symm.trans (ok_success hh)) nofun
  | openSession context session tmpid o => exact absurd rfl (hnot context session tmpid o)
  | closeSession session =>
    obtain ⟨-, -, hd⟩ | ⟨x, -, hh⟩ := orError_cases hh
    · exact hd ▸ .refl s
    · exact absurd (hs.symm.trans (ok_success hh)) nofun
  | invokeCommand session o =>
    obtain ⟨-, -, hd⟩ | ⟨x, -, hh⟩ := orError_cases hh
    · exact hd ▸ .refl s
    · obtain ⟨r, hr, rfl⟩ := Option.map_eq_some_iff.mp hh
      exact toTz_same hr
  | other op => exact error_driver hh ▸ .refl s

end Pre

/-! ## 5. After the secure world -/

section Post

variable {l : Linux} {s : TeeDriver} {space : TzTeeSpace} {h : Handled} {tz session tmpid : UInt32}
  {m : RegMem} {o : Operation}

theorem SameTables.of_ok {s' : TeeDriver} {q : TeeParams} (hh : Handled.ok space q s' = some h) :
    SameTables s' h.driver := by
  obtain rfl := Option.some.inj hh
  exact .refl _

theorem teeCtxInitPost_tables (hptr : ∀ a ∈ l.entry, a ∉ s.contexts.map TeeContext.ptr)
    (hh : teeCtxInitPost l space tz s = some h) :
    (l.entry = none ∧ SameTables s h.driver) ∨ ∃ ptr, l.entry = some ptr ∧
      SameTables { s with contexts := listAdd l.node ⟨ptr, l.pid, tz⟩ s.contexts } h.driver := by
  cases hentry : l.entry with
  | none =>
    rw [teeCtxInitPost, teeContextAdd, hentry] at hh
    exact .inl ⟨rfl, error_driver hh ▸ .refl s⟩
  | some ptr =>
    obtain ⟨hadd, -, hd⟩ | ⟨⟨c, s'⟩, hadd, hh⟩ := orError_cases hh
    · simp only [teeContextAdd, hentry] at hadd
      revert hadd
      cases teeContextFindById l l.newId s with
      | none => exact nofun
      | some found => cases found <;> exact nofun
    · simp only [teeContextAdd, hentry] at hadd
      obtain ⟨-, hadd⟩ := afterLoop_eq hadd
      obtain ⟨rfl, rfl⟩ := Prod.mk.inj hadd
      have hmod := modify_listAdd (x := (⟨ptr, l.pid, l.junk⟩ : TeeContext)) l.node
        ({ · with tzId := tz }) (hptr ptr hentry)
      exact .inr ⟨ptr, rfl, hmod ▸ .of_ok hh⟩

theorem teeCtxFinalizePost_tables {kill : TeeContext} (hsessions : (s.sessions.map TeeSession.ptr).Nodup)
    (hmemories : (s.memories.map TeeSharedMemory.ptr).Nodup)
    (hkill : s.contexts.find? (fun x => x.tzId = tz) = some kill)
    (hh : teeCtxFinalizePost l space tz s = some h) :
    SameTables (teeContextFree kill { s with
      sessions := s.sessions.filter fun x => !decide (x.ctx = kill.ptr)
      memories := s.memories.filter fun x => !decide (x.ctx = kill.ptr) }) h.driver := by
  have hfound : teeContextFindByTzid l tz s = some (some kill) := lookup_of_find hkill
  rw [teeCtxFinalizePost, hfound] at hh
  by_cases hs : SearchesEnd (l.unset .sessionByCtx) (fun x : TeeSession => x.ctx = kill.ptr) s.sessions
  · by_cases hm : SearchesEnd (l.unset .memoryByCtx) (fun x : TeeSharedMemory => x.ctx = kill.ptr) s.memories
    · simp only [purge_eq hsessions (Nat.lt_succ_self _) hs, purge_eq hmemories (Nat.lt_succ_self _) hm] at hh
      exact .of_ok hh
    · simp only [purge_eq hsessions (Nat.lt_succ_self _) hs, purge_eq_none _ hm] at hh
      cases hh
  · simp only [purge_eq_none _ hs] at hh
    cases hh

theorem teeMemRegPost_tables {c : TeeContext} (hc : s.contexts.find? (fun x => x.tzId = m.context) = some c)
    (hh : teeMemRegPost l space m s = some h) :
    (s.memories.find? (fun x => x.comPaddr = m.paddr) = none ∧ SameTables s h.driver) ∨
    ∃ y, s.memories.find? (fun x => x.comPaddr = m.paddr) = some y ∧
      SameTables { s with
        memories := modify TeeSharedMemory.ptr y.ptr ({ · with tzId := m.memid }) s.memories } h.driver := by
  have hfound : teeContextFindByTzid l m.context s = some (some c) := lookup_of_find hc
  rw [teeMemRegPost, hfound, orError_some] at hh
  obtain ⟨hnone, -, hd⟩ | ⟨y, hy, hh⟩ := orError_cases hh
  · exact .inl ⟨lookup_eq_none hnone, hd ▸ .refl s⟩
  · exact .inr ⟨y, lookup_eq_some hy, .of_ok hh⟩

theorem teeMemRelPost_tables {y : TeeSharedMemory}
    (hy : s.memories.find? (fun x => x.tzId = m.memid) = some y) (hh : teeMemRelPost l space m s = some h) :
    SameTables (teeMemoryFree y s) h.driver := by
  have hfound : teeMemoryFindByTzid l m.memid s = some (some y) := lookup_of_find hy
  rw [teeMemRelPost, hfound] at hh
  exact .of_ok hh

theorem teeSessionOpenPost_tables {c : TeeContext} (hc : s.contexts.find? (fun x => x.tzId = tz) = some c)
    (hh : teeSessionOpenPost l space tz session tmpid o s = some h) :
    (s.sessions.find? (fun x => x.id = tmpid) = none ∧ SameTables s h.driver) ∨
    ∃ y, s.sessions.find? (fun x => x.id = tmpid) = some y ∧
      SameTables { s with
        sessions := modify TeeSession.ptr y.ptr ({ · with tzId := session }) s.sessions } h.driver := by
  have hfound : teeContextFindByTzid l tz s = some (some c) := lookup_of_find hc
  rw [teeSessionOpenPost, hfound, orError_some] at hh
  obtain ⟨hnone, -, hd⟩ | ⟨y, hy, hh⟩ := orError_cases hh
  · exact .inl ⟨lookup_eq_none hnone, hd ▸ .refl s⟩
  · exact .inr ⟨y, lookup_eq_some hy, .of_ok hh⟩

theorem teeSessionClosePost_tables {y : TeeSession}
    (hy : s.sessions.find? (fun x => x.tzId = session) = some y)
    (hh : teeSessionClosePost l space session s = some h) : SameTables (teeSessionFree y s) h.driver := by
  have hfound : teeSessionFindByTzid l session s = some (some y) := lookup_of_find hy
  rw [teeSessionClosePost, hfound] at hh
  exact .of_ok hh

theorem teeInvokePost_tables (hh : teeInvokePost l space session o s = some h) : SameTables s h.driver := by
  obtain ⟨-, -, hd⟩ | ⟨y, -, hh⟩ := orError_cases hh
  · exact hd ▸ .refl s
  · obtain ⟨r, hr, rfl⟩ := Option.map_eq_some_iff.mp hh
    exact fromTz_same hr

end Post

end AndixOs.Driver
