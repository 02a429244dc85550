/-
# Runs that keep the tables in step

A request that comes back changes the tables in one way, whatever the secure world answers.  `Settled` says
for an operation that this is the right change exactly under a condition, and `teeProcess_decided` puts the
conditions of all operations together.  A request with a search that goes wild does not come back
(`Driver.Searches`), and a run ends with it.

* `tables_run_iff`: the runs that keep the tables in step.
* `error_adds_context`: an error of the secure world that the driver takes for a success.
-/
import AndixOs.Driver.Searches
import AndixOs.Lib.Run

namespace AndixOs.Driver

open AndixOs AndixOs.Swi

/-! ## 1. Runs -/

/-- The driver and the objects of the secure world. -/
abbrev World : Type := TeeDriver × Objects

/-- The objects after a request: the secure world answers what `pre` has accepted. -/
def Request.objects (e : Request) (w : World) : Objects :=
  match eventPre e.linux e.space w.1 with
  | none => w.2
  | some h => if e.linux.pages && h.success then w.2.report e.answer h.space.params else w.2

/-- Neither Linux nor the secure world gives what is in use. -/
structure Request.Fresh (e : Request) (w : World) : Prop extends e.linux.Fresh w.1 e.space.params where
  id : e.answer.ret = teecSuccess → e.answer.id ∉ w.2.taken e.space.params

/-- One request; `none` is a kernel that went wild in it. -/
def requestStep (s : Option World) (e : Request) (t : Option World) : Prop :=
  ∃ w, s = some w ∧ e.Fresh w ∧
    t = (teeProcess e.linux e.answer e.space w.1).map fun h => (h.driver, e.objects w)

/-- What a request is to do: the tables are in step after it, and as they were where `pre` fails or the
secure world reports an error. -/
structure Keeps (w : World) (e : Request) (w' : World) : Prop where
  inStep : InStep w'.1 w'.2
  unchanged : ¬Accepted e.linux e.space w.1 ∨ e.answer.ret ≠ teecSuccess → SameTables w.1 w'.1

/-- The request came back, and kept the tables. -/
def RequestKept (s : Option World) (e : Request) (t : Option World) : Prop :=
  ∃ w w', s = some w ∧ t = some w' ∧ Keeps w e w'

/-- Where the answer fits what the driver has done.

* A release succeeds.
* What is to be made is made on both sides or on neither.
* The address of a new memory does not lead to another one, unless that has its id already.
* A session whose operation is not accepted is not in the list. -/
def Matched (w : World) (e : Request) : Prop :=
  match e.space.params with
  | .initCtx _ => Accepted e.linux e.space w.1 →
    (e.answer.ret = teecSuccess ↔ e.linux.entry.isSome ∧ e.linux.node = true)
  | .finCtx _ | .relMem _ | .closeSession _ =>
    Accepted e.linux e.space w.1 → e.answer.ret = teecSuccess
  | .regMem _ => Accepted e.linux e.space w.1 → (e.answer.ret = teecSuccess ↔ e.linux.node = true) ∧
    ∀ vaddr ∈ e.linux.buf, ∀ y, w.1.memories.find? (fun x => x.comPaddr = e.linux.virtToPhys vaddr) = some y →
      y.tzId = e.answer.id
  | .openSession context _ _ o =>
    (Accepted e.linux e.space w.1 → (e.answer.ret = teecSuccess ↔ e.linux.node = true)) ∧
    (e.linux.pages = true → (∃ c ∈ w.1.contexts, c.id = context) → e.linux.entry.isSome →
      e.linux.node = true → o.valid = 1 → ParamsAccepted e.linux w.1.memories 0 o.params)
  | _ => True

/-- Where the driver keeps in step: no search goes wild, and the answer fits. -/
def Orderly (s : Option World) (e : Request) : Prop :=
  ∀ w ∈ s, (e.linux.pages = true → Searched e.linux w.1 e.space.params) ∧ Matched w e

/-! ## 2. The invariant -/

/-- The tables are in step, the addresses of the entries are different, and so are the ids of the secure
world. -/
structure TablesInv (s : TeeDriver) (o : Objects) : Prop where
  contexts : s.contexts.map TeeContext.tzId = o.contexts
  ptrs : (s.contexts.map TeeContext.ptr).Nodup
  ids : (s.contexts.map TeeContext.tzId).Nodup
  sessions : Owned TeeSession.ptr TeeSession.ctx TeeSession.tzId s.contexts s.sessions o.sessions
  memories : Owned TeeSharedMemory.ptr TeeSharedMemory.ctx TeeSharedMemory.tzId s.contexts s.memories
    o.memories

section Settled

variable {l : Linux} {a : Answer} {s s' s₁ : TeeDriver} {o : Objects} {p : TeeParams} {ok : Prop}
  {space : TzTeeSpace} {h : Handled} {context session k : UInt32} {m : RegMem} {op : Operation}

theorem TablesInv.inStep (hinv : TablesInv s o) : InStep s o :=
  ⟨hinv.contexts, hinv.sessions.view, hinv.memories.view⟩

theorem TablesInv.congr (hinv : TablesInv s o) (hsame : SameTables s s') : TablesInv s' o where
  contexts := hsame.contexts ▸ hinv.contexts
  ptrs := hsame.contexts ▸ hinv.ptrs
  ids := hsame.contexts ▸ hinv.ids
  sessions := hsame.contexts ▸ hsame.sessions ▸ hinv.sessions
  memories := hsame.contexts ▸ hsame.memories ▸ hinv.memories

theorem InStep.congr (hin : InStep s o) (hsame : SameTables s s') : InStep s' o where
  contexts := hsame.contexts ▸ hin.contexts
  sessions := hsame.contexts ▸ hsame.sessions ▸ hin.sessions
  memories := hsame.contexts ▸ hsame.memories ▸ hin.memories

theorem SameTables.symm (hsame : SameTables s s') : SameTables s' s :=
  ⟨hsame.contexts.symm, hsame.sessions.symm, hsame.memories.symm⟩

/-- The one context, session or memory with an id is found by it. -/
theorem find_of_ids {α : Type} {tzId : α → UInt32} {xs : List α} {x : α} (hids : (xs.map tzId).Nodup)
    (hx : x ∈ xs) : xs.find? (fun y => tzId y = tzId x) = some x := by
  obtain ⟨y, hy, ht⟩ := exists_find_of_mem (p := fun y => tzId y = tzId x) hx (decide_eq_true rfl)
  obtain rfl := List.inj_on_of_nodup_map hids (List.mem_of_find?_eq_some hy) hx (of_decide_eq_true ht)
  exact hy

/-! ## 3. What an answer settles -/

/-- An accepted request does what it is to do exactly where `ok` holds. -/
structure Settled (ok : Prop) (a : Answer) (p : TeeParams) (s : TeeDriver) (o : Objects) (s' : TeeDriver) :
    Prop where
  right : ok → TablesInv s' (o.report a p) ∧ (a.ret ≠ teecSuccess → SameTables s s')
  wrong : ¬ok → ¬(InStep s' (o.report a p) ∧ (a.ret ≠ teecSuccess → SameTables s s'))

theorem report_error (ha : a.ret ≠ teecSuccess) : o.report a p = o := if_neg ha

theorem report_success (ha : a.ret = teecSuccess) : o.report a p = o.after a.id p := if_pos ha

/-- An error is to leave the tables alone, a success to report what they hold. -/
theorem settled_of (hinv : TablesInv s o) (herror : a.ret ≠ teecSuccess → (ok ↔ SameTables s s'))
    (hright : a.ret = teecSuccess → ok → TablesInv s' (o.report a p))
    (hwrong : a.ret = teecSuccess → ¬ok → ¬InStep s' (o.report a p)) : Settled ok a p s o s' := by
  by_cases ha : a.ret = teecSuccess
  · exact ⟨fun hok => ⟨hright ha hok, fun hne => absurd ha hne⟩, fun hno h => hwrong ha hno h.1⟩
  · refine ⟨fun hok => ?_, fun hno h => hno ((herror ha).mpr (h.2 ha))⟩
    have hsame := (herror ha).mp hok
    rw [report_error ha]
    exact ⟨hinv.congr hsame, fun _ => hsame⟩

/-- A release is right where it succeeds: the entry is gone in any case. -/
theorem settled_release (hinv : TablesInv s o) (hgone : ¬SameTables s s')
    (hright : a.ret = teecSuccess → TablesInv s' (o.report a p)) :
    Settled (a.ret = teecSuccess) a p s o s' :=
  settled_of hinv (fun ha => iff_of_false ha hgone) (fun ha _ => hright ha) fun ha hno => absurd ha hno

/-- An object that the driver has not made is not to be made on the other side. -/
theorem settled_unmade {made : Prop} (hinv : TablesInv s o) (hmade : ¬made) (hsame : SameTables s s')
    (hmissing : ¬InStep s (o.after a.id p)) : Settled (a.ret = teecSuccess ↔ made) a p s o s' := by
  refine settled_of hinv (fun ha => iff_of_true (iff_of_false ha hmade) hsame) (fun ha hok => ?_) fun ha _ hin => ?_
  · exact absurd (hok.mp ha) hmade
  · rw [report_success ha] at hin
    exact hmissing (hin.congr hsame.symm)

/-- An object that the driver has made is to be made on the other side. -/
theorem settled_made {made : Prop} (hinv : TablesInv s o) (hmade : made) (hdiff : ¬SameTables s s')
    (hright : a.ret = teecSuccess → TablesInv s' (o.after a.id p)) :
    Settled (a.ret = teecSuccess ↔ made) a p s o s' := by
  refine settled_of hinv (fun ha => iff_of_false (fun hok => ha (hok.mpr hmade)) hdiff) (fun ha _ => ?_)
    fun ha hno => absurd (iff_of_true ha hmade) hno
  rw [report_success ha]
  exact hright ha

theorem Settled.congr {ok' : Prop} (hok : ok' ↔ ok) (h : Settled ok a p s o s') : Settled ok' a p s o s' :=
  ⟨fun h' => h.right (hok.mp h'), fun h' => h.wrong fun hn => h' (hok.mpr hn)⟩

/-- A new object makes a table longer. -/
theorem Owned.not_longer {α : Type} {ptr ctx : α → Nat} {tzId : α → UInt32} {cs cs' : List TeeContext}
    {xs xs' : List α} {os : List (UInt32 × UInt32)} {y : UInt32 × UInt32} (h : Owned ptr ctx tzId cs xs os)
    (hlen : xs'.length = xs.length) : tzView ctx tzId cs' xs' ≠ objectView (os ++ [y]) := fun heq => by
  have hold := congrArg List.length h.view
  have hnew := congrArg List.length heq
  simp only [tzView, objectView, List.length_map, List.length_append, List.length_singleton] at hold hnew
  omega

/-! ## 4. Each operation -/

/-- What is released is gone. -/
theorem remove_ne {α : Type} {key : α → Nat} {x : α} {xs : List α} (hx : x ∈ xs) :
    remove key (key x) xs ≠ xs := fun heq => by
  have hlen := length_remove key hx
  rw [heq] at hlen
  exact Nat.succ_ne_self _ hlen

theorem finCtx_settled (hinv : TablesInv s o) {c : TeeContext} (hc : c ∈ s.contexts)
    (hh : teeCtxFinalizePost l space c.tzId s = some h) :
    Settled (a.ret = teecSuccess) a (.finCtx c.tzId) s o h.driver := by
  have htables := teeCtxFinalizePost_tables hinv.sessions.ptrs hinv.memories.ptrs (find_of_ids hinv.ids hc) hh
  refine settled_release hinv (fun hsame => ?_) fun ha => ?_
  · exact remove_ne hc (htables.contexts.symm.trans hsame.contexts)
  · have hids : (remove TeeContext.ptr c.ptr s.contexts).map TeeContext.tzId =
        o.contexts.filter (· ≠ c.tzId) := by
      rw [← hinv.contexts, List.filter_map, remove_eq_filter hinv.ptrs]
      refine congrArg _ (List.filter_congr fun d hd => ?_)
      by_cases heq : d = c
      · simp [heq]
      · have hne : d.ptr ≠ c.ptr := fun hp => heq (List.inj_on_of_nodup_map hinv.ptrs hd hc hp)
        have hne' : d.tzId ≠ c.tzId := fun ht => heq (List.inj_on_of_nodup_map hinv.ids hd hc ht)
        simp [hne, hne']
    rw [report_success ha]
    refine TablesInv.congr ?_ htables
    exact ⟨hids, hinv.ptrs.sublist ((remove_sublist _).map _), hinv.ids.sublist ((remove_sublist _).map _),
      hinv.sessions.removeContext hinv.ptrs hinv.ids hc, hinv.memories.removeContext hinv.ptrs hinv.ids hc⟩

theorem relMem_settled (hinv : TablesInv s o) {x : TeeSharedMemory} (hx : x ∈ s.memories)
    (hh : teeMemRelPost l space { m with memid := x.tzId } s = some h) :
    Settled (a.ret = teecSuccess) a (.relMem { m with memid := x.tzId }) s o h.driver := by
  have htables := teeMemRelPost_tables (m := { m with memid := x.tzId }) (find_of_ids hinv.memories.ids hx) hh
  refine settled_release hinv (fun hsame => ?_) fun ha => ?_
  · exact remove_ne hx (htables.memories.symm.trans hsame.memories)
  · rw [report_success ha]
    refine TablesInv.congr ?_ htables
    exact ⟨hinv.contexts, hinv.ptrs, hinv.ids, hinv.sessions, hinv.memories.remove hx⟩

theorem closeSession_settled (hinv : TablesInv s o) {x : TeeSession} (hx : x ∈ s.sessions)
    (hh : teeSessionClosePost l space x.tzId s = some h) :
    Settled (a.ret = teecSuccess) a (.closeSession x.tzId) s o h.driver := by
  have htables := teeSessionClosePost_tables (find_of_ids hinv.sessions.ids hx) hh
  refine settled_release hinv (fun hsame => ?_) fun ha => ?_
  · exact remove_ne hx (htables.sessions.symm.trans hsame.sessions)
  · rw [report_success ha]
    refine TablesInv.congr ?_ htables
    exact ⟨hinv.contexts, hinv.ptrs, hinv.ids, hinv.sessions.remove hx, hinv.memories⟩

theorem invokeCommand_settled (hinv : TablesInv s o) (hpre : SameTables s s₁)
    (hh : teeInvokePost l space session op s₁ = some h) (k : UInt32) (op' : Operation) :
    Settled True a (.invokeCommand k op') s o h.driver := by
  have hsame := hpre.trans (teeInvokePost_tables hh)
  have hnone : o.report a (.invokeCommand k op') = o := by
    rw [Objects.report]
    split <;> rfl
  refine ⟨fun _ => ⟨?_, fun _ => hsame⟩, fun hno => absurd trivial hno⟩
  rw [hnone]
  exact hinv.congr hsame

theorem append_singleton_ne {α : Type} (xs : List α) (x : α) : xs ++ [x] ≠ xs := fun heq =>
  List.cons_ne_nil x [] (List.append_right_eq_self.mp heq)

theorem initCtx_settled (hinv : TablesInv s o) (hptr : ∀ a ∈ l.entry, a ∉ s.contexts.map TeeContext.ptr)
    (hid : a.ret = teecSuccess → a.id ∉ o.contexts) (hh : teeCtxInitPost l space a.id s = some h) :
    Settled (a.ret = teecSuccess ↔ l.entry.isSome ∧ l.node = true) a (.initCtx context) s o h.driver := by
  have hmissing : ¬InStep s (o.after a.id (.initCtx context)) := fun hin =>
    append_singleton_ne _ _ (hin.contexts.symm.trans hinv.contexts)
  obtain ⟨hentry, hsame⟩ | ⟨ptr, hentry, hsame⟩ := teeCtxInitPost_tables hptr hh
  · exact settled_unmade hinv (by simp [hentry]) hsame hmissing
  cases hnode : l.node with
  | false =>
    rw [hnode] at hsame
    exact settled_unmade hinv (by simp) hsame hmissing
  | true =>
    rw [hnode] at hsame
    refine settled_made hinv (by simp [hentry]) (fun h => ?_) fun ha => TablesInv.congr ?_ hsame
    · exact append_singleton_ne _ _ (hsame.contexts.symm.trans h.contexts)
    · simp only [listAdd, if_true]
      refine ⟨?_, ?_, ?_, hinv.sessions.addContext _, hinv.memories.addContext _⟩
      · rw [List.map_append, hinv.contexts]
        rfl
      · rw [List.map_append]
        exact nodup_snoc hinv.ptrs (hptr ptr hentry)
      · rw [List.map_append]
        exact nodup_snoc hinv.ids (hinv.contexts ▸ hid ha)

theorem openSession_settled (hinv : TablesInv s o) {c : TeeContext} (hc : c ∈ s.contexts) {ptr : Nat}
    (hptr : ptr ∉ s.sessions.map TeeSession.ptr)
    (hid : a.ret = teecSuccess → a.id ∉ o.sessions.map Prod.snd)
    (hnew : s.sessions.find? (fun x => x.id = l.newId) = none)
    (hpre : SameTables (withNewSession l c ptr s) s₁)
    (hh : teeSessionOpenPost l space c.tzId a.id l.newId op s₁ = some h) (op' : Operation) :
    Settled (a.ret = teecSuccess ↔ l.node = true) a (.openSession c.tzId session k op') s o h.driver := by
  have hctx : s₁.contexts.find? (fun x => x.tzId = c.tzId) = some c :=
    hpre.contexts ▸ find_of_ids hinv.ids hc
  have hfound := teeSessionOpenPost_tables hctx hh
  rw [hpre.sessions] at hfound
  cases hnode : l.node with
  | false =>
    simp only [withNewSession, listAdd, hnode, Bool.false_eq_true, if_false] at hfound hpre
    obtain ⟨-, hsame⟩ | ⟨y, hy, -⟩ := hfound
    · refine settled_unmade hinv (by simp) (hpre.trans hsame) fun hin => ?_
      exact hinv.sessions.not_longer rfl hin.sessions
    · cases hy.symm.trans hnew
  | true =>
    have hfind := find_snoc (p := fun x : TeeSession => x.id = l.newId) (x := newSession l c ptr)
      (fun x hx => by simpa using List.find?_eq_none.mp hnew x hx) (decide_eq_true rfl)
    simp only [withNewSession, listAdd, hnode, if_true] at hfound hpre
    obtain ⟨hnone, -⟩ | ⟨y, hy, hsame⟩ := hfound
    · cases hnone.symm.trans hfind
    obtain rfl := Option.some.inj (hy.symm.trans hfind)
    have hmod := modify_snoc TeeSession.ptr (x := newSession l c ptr) (f := ({ · with tzId := a.id })) hptr
    have hcontexts := hsame.contexts.trans hpre.contexts
    have hsessions := hsame.sessions.trans hmod
    have hmemories := hsame.memories.trans hpre.memories
    refine settled_made hinv rfl (fun h => ?_) fun ha => ?_
    · exact append_singleton_ne _ _ (hsessions.symm.trans h.sessions)
    · have hnext : TablesInv { s with sessions := s.sessions ++ [{ newSession l c ptr with tzId := a.id }] }
          (o.after a.id (.openSession c.tzId session k op')) :=
        ⟨hinv.contexts, hinv.ptrs, hinv.ids, hinv.sessions.add hinv.ptrs hc rfl hptr (hid ha), hinv.memories⟩
      exact hnext.congr ⟨hcontexts, hsessions, hmemories⟩

/-- What `tee_mem_reg_post` makes of the first memory with the address. -/
def written (id : UInt32) (y : TeeSharedMemory) (ms : List TeeSharedMemory) : List TeeSharedMemory :=
  modify TeeSharedMemory.ptr y.ptr ({ · with tzId := id }) ms

theorem length_written {id : UInt32} {y : TeeSharedMemory} {ms : List TeeSharedMemory} :
    (written id y ms).length = ms.length := List.length_map _

theorem mem_written (id : UInt32) {y : TeeSharedMemory} {ms : List TeeSharedMemory} (hy : y ∈ ms) :
    { y with tzId := id } ∈ written id y ms := List.mem_map.mpr ⟨y, hy, if_pos rfl⟩

/-- Writing to a memory the id that it has. -/
theorem written_eq_iff {id : UInt32} {y : TeeSharedMemory} {ms : List TeeSharedMemory}
    (hptrs : (ms.map TeeSharedMemory.ptr).Nodup) (hy : y ∈ ms) : written id y ms = ms ↔ y.tzId = id := by
  constructor
  · intro heq
    have hin := mem_written id hy
    rw [heq] at hin
    have hsame := List.inj_on_of_nodup_map hptrs hin hy rfl
    exact (congrArg TeeSharedMemory.tzId hsame).symm
  · rintro rfl
    refine (List.map_congr_left fun x hx => ?_).trans (List.map_id ms)
    split
    · rename_i hp
      obtain rfl := List.inj_on_of_nodup_map hptrs hx hy hp
      rfl
    · rfl

/-- The address of the new memory leads to an older one: that is written to instead. -/
theorem regMem_older (hinv : TablesInv s o) {c : TeeContext} {x y : TeeSharedMemory} {node : Bool}
    (hy : y ∈ s.memories) (hid : a.ret = teecSuccess → a.id ∉ o.memories.map Prod.snd)
    (hsame : SameTables { s with memories := written a.id y (listAdd node x s.memories) } s')
    (hp : p = .regMem { m with context := c.tzId }) :
    Settled ((a.ret = teecSuccess ↔ node = true) ∧ y.tzId = a.id) a p s o s' := by
  subst hp
  have hold : a.ret = teecSuccess → y.tzId ≠ a.id := fun ha heq => by
    refine hid ha ?_
    rw [hinv.memories.snd_eq, ← heq]
    exact List.mem_map.mpr ⟨y, hy, rfl⟩
  cases node with
  | false =>
    simp only [listAdd, Bool.false_eq_true, if_false] at hsame
    refine settled_of hinv (fun ha => ?_) (fun ha hok => absurd hok.2 (hold ha)) fun ha _ hin => ?_
    · simp only [ha, Bool.false_eq_true, true_and]
      refine (written_eq_iff hinv.memories.ptrs hy).symm.trans ⟨fun heq => ?_, fun h => ?_⟩
      · exact ⟨hsame.contexts, hsame.sessions, hsame.memories.trans heq⟩
      · exact hsame.memories.symm.trans h.memories
    · rw [report_success ha] at hin
      exact hinv.memories.not_longer length_written (hsame.memories ▸ hin.memories)
  | true =>
    simp only [listAdd, if_true] at hsame
    refine settled_of hinv (fun ha => iff_of_false (fun hok => ha (hok.1.mpr rfl)) fun h => ?_)
      (fun ha hok => absurd hok.2 (hold ha)) fun ha _ hin => ?_
    · have hlen := congrArg List.length (hsame.memories.symm.trans h.memories)
      rw [length_written, List.length_append] at hlen
      exact Nat.succ_ne_self _ hlen
    · -- the older memory has the new id, so the new one has another
      rw [report_success ha] at hin
      have hview : tzView TeeSharedMemory.ctx TeeSharedMemory.tzId s'.contexts
          (written a.id y s.memories ++ written a.id y [x]) = objectView (o.memories ++ [(c.tzId, a.id)]) := by
        refine Eq.trans ?_ hin.memories
        rw [hsame.memories, written, written, written, modify, modify, modify, List.map_append]
      have hids := congrArg (List.map Prod.snd) hview
      simp only [tzView, objectView, List.map_append, List.map_map] at hids
      have hlen : s.memories.length = o.memories.length := by
        simpa using congrArg List.length hinv.memories.snd_eq.symm
      have hleft := List.append_inj_left hids (by simp [length_written, hlen])
      refine hid ha ?_
      rw [show o.memories.map Prod.snd = (written a.id y s.memories).map TeeSharedMemory.tzId from hleft.symm]
      exact List.mem_map.mpr ⟨_, mem_written a.id hy, rfl⟩

/-- **`REGISTER_MEM`.** -/
theorem regMem_settled (hinv : TablesInv s o) {c : TeeContext} (hc : c ∈ s.contexts) {ptr vaddr : Nat}
    (hptr : ptr ∉ s.memories.map TeeSharedMemory.ptr)
    (hid : a.ret = teecSuccess → a.id ∉ o.memories.map Prod.snd)
    (hh : teeMemRegPost l space ⟨c.tzId, l.virtToPhys vaddr, m.size, m.flags, a.id⟩
      { s with memories := listAdd l.node (newMemory l c m ptr vaddr) s.memories } = some h) :
    Settled ((a.ret = teecSuccess ↔ l.node = true) ∧
        ∀ y, s.memories.find? (fun x => x.comPaddr = l.virtToPhys vaddr) = some y → y.tzId = a.id)
      a (.regMem { m with paddr := l.virtToPhys vaddr, context := c.tzId }) s o h.driver := by
  have hfound := teeMemRegPost_tables (s := { s with memories := listAdd l.node (newMemory l c m ptr vaddr) s.memories })
    (m := ⟨c.tzId, l.virtToPhys vaddr, m.size, m.flags, a.id⟩) (find_of_ids hinv.ids hc) hh
  cases hold : s.memories.find? (fun x => x.comPaddr = l.virtToPhys vaddr) with
  | some y =>
    have hfind : (listAdd l.node (newMemory l c m ptr vaddr) s.memories).find?
        (fun x => x.comPaddr = l.virtToPhys vaddr) = some y := by
      rw [listAdd]
      split
      · rw [List.find?_append, hold, Option.some_or]
      · exact hold
    obtain ⟨hnone, -⟩ | ⟨y', hy', hsame⟩ := hfound
    · cases hnone.symm.trans hfind
    obtain rfl := Option.some.inj (hy'.symm.trans hfind)
    have hsettled := regMem_older (m := { m with paddr := l.virtToPhys vaddr }) (c := c) hinv
      (List.mem_of_find?_eq_some hold) hid hsame rfl
    exact hsettled.congr (and_congr_right' (by simp))
  | none =>
    refine Settled.congr (and_iff_left (by simp) : _ ↔ (a.ret = teecSuccess ↔ l.node = true)) ?_
    cases hnode : l.node with
    | false =>
      simp only [hnode, listAdd, Bool.false_eq_true, if_false] at hfound
      obtain ⟨-, hsame⟩ | ⟨y, hy, -⟩ := hfound
      · exact settled_unmade hinv (by simp) hsame fun hin => hinv.memories.not_longer rfl hin.memories
      · cases hy.symm.trans hold
    | true =>
      have hfind := find_snoc (p := fun x : TeeSharedMemory => x.comPaddr = l.virtToPhys vaddr)
        (x := newMemory l c m ptr vaddr) (fun x hx => by simpa using List.find?_eq_none.mp hold x hx)
        (decide_eq_true rfl)
      simp only [hnode, listAdd, if_true] at hfound
      obtain ⟨hnone, -⟩ | ⟨y, hy, hsame⟩ := hfound
      · cases hnone.symm.trans hfind
      obtain rfl := Option.some.inj (hy.symm.trans hfind)
      have hmod := modify_snoc TeeSharedMemory.ptr (x := newMemory l c m ptr vaddr)
        (f := ({ · with tzId := a.id })) hptr
      have hmemories := hsame.memories.trans hmod
      refine settled_made hinv rfl (fun h => ?_) fun ha => ?_
      · exact append_singleton_ne _ _ (hmemories.symm.trans h.memories)
      · have hnext : TablesInv
            { s with memories := s.memories ++ [{ newMemory l c m ptr vaddr with tzId := a.id }] }
            (o.after a.id (.regMem { m with paddr := l.virtToPhys vaddr, context := c.tzId })) :=
          ⟨hinv.contexts, hinv.ptrs, hinv.ids, hinv.sessions,
            hinv.memories.add hinv.ptrs hc rfl hptr (hid ha)⟩
        exact hnext.congr ⟨hsame.contexts, hsame.sessions, hmemories⟩

end Settled

/-! ## 5. One request -/

section Step

variable {w w' : World} {e : Request} {s' : TeeDriver} {h : Handled} {ok : Prop} {p : TeeParams}

theorem accepted_iff (hpages : e.linux.pages = true) (hpre : eventPre e.linux e.space w.1 = some h) :
    Accepted e.linux e.space w.1 ↔ h.success = true := by
  constructor
  · rintro ⟨-, h', hpre', hs⟩
    obtain rfl := Option.some.inj (hpre.symm.trans hpre')
    exact hs
  · exact fun hs => ⟨hpages, h, hpre, hs⟩

theorem objects_of_accepted (hpages : e.linux.pages = true) (hpre : eventPre e.linux e.space w.1 = some h)
    (hs : h.success = true) : e.objects w = w.2.report e.answer h.space.params := by
  simp [Request.objects, hpre, hpages, hs]

theorem objects_of_rejected (hnot : ¬Accepted e.linux e.space w.1) : e.objects w = w.2 := by
  rw [Request.objects]
  split
  · rfl
  · rename_i h hpre
    refine if_neg fun hand => hnot ?_
    obtain ⟨hpages, hs⟩ := (Bool.and_eq_true _ _).mp hand
    exact ⟨hpages, h, hpre, hs⟩

/-- What one request is to show: those with the right answer keep everything, and the others do not. -/
def Decided (w : World) (e : Request) (w' : World) : Prop :=
  (Matched w e → TablesInv w'.1 w'.2 ∧ Keeps w e w') ∧ (¬Matched w e → ¬Keeps w e w')

theorem Settled.decided (h : Settled ok e.answer p w.1 w.2 s') (hacc : Accepted e.linux e.space w.1)
    (hok : Matched w e ↔ ok) : Decided w e (s', w.2.report e.answer p) := by
  refine ⟨fun ho => ?_, fun ho hk => h.wrong (fun hn => ho (hok.mpr hn)) ?_⟩
  · obtain ⟨hinv, hsame⟩ := h.right (hok.mp ho)
    exact ⟨hinv, hinv.inStep, fun hor => hor.elim (fun hno => absurd hacc hno) hsame⟩
  · exact ⟨hk.inStep, fun ha => hk.unchanged (.inr ha)⟩

theorem decided_of_same (hinv : TablesInv w.1 w.2) (hsame : SameTables w.1 s') (ho : Matched w e) :
    Decided w e (s', w.2) :=
  ⟨fun _ => ⟨hinv.congr hsame, (hinv.congr hsame).inStep, fun _ => hsame⟩, fun hno => absurd ho hno⟩

/-- Nothing is asked of a request that is not accepted, but for the session of its operation. -/
theorem matched_of_rejected (hnot : ¬Accepted e.linux e.space w.1)
    (hopen : ∀ context session tmpid o, e.space.params = .openSession context session tmpid o →
      e.linux.pages = true → (∃ c ∈ w.1.contexts, c.id = context) → e.linux.entry.isSome →
      e.linux.node = true → o.valid = 1 → ParamsAccepted e.linux w.1.memories 0 o.params) :
    Matched w e := by
  rw [Matched]
  split
  · exact fun hacc => absurd hacc hnot
  · exact fun hacc => absurd hacc hnot
  · exact fun hacc => absurd hacc hnot
  · exact fun hacc => absurd hacc hnot
  · exact fun hacc => absurd hacc hnot
  · rename_i context session tmpid o hp
    exact ⟨fun hacc => absurd hacc hnot, hopen context session tmpid o hp⟩
  · trivial

theorem rejected_decided (hinv : TablesInv w.1 w.2) (hfresh : e.Fresh w) (hpages : e.linux.pages = true)
    (hpre : eventPre e.linux e.space w.1 = some h) (hs : h.success = false)
    (hnot : ¬Accepted e.linux e.space w.1) : Decided w e (h.driver, w.2) := by
  by_cases hopen : ∃ context session tmpid o, e.space.params = .openSession context session tmpid o
  · obtain ⟨context, session, tmpid, o, hp⟩ := hopen
    rw [eventPre, hp] at hpre
    obtain ⟨hnone, -, hd⟩ | ⟨c, ptr, hc, hentry, hsuccess, hsame⟩ := teeSessionOpenPre_cases hpre
    · refine decided_of_same hinv (hd ▸ .refl _) (matched_of_rejected hnot ?_)
      rintro _ _ _ _ hp' - hfound hentry
      obtain ⟨rfl, -, -, -⟩ := TeeParams.openSession.inj (hp.symm.trans hp')
      exact absurd ⟨hfound, hentry⟩ hnone
    have hparams : o.valid = 1 ∧ ¬ParamsAccepted e.linux w.1.memories 0 o.params := by
      rw [hs] at hsuccess
      simpa using hsuccess
    cases hnode : e.linux.node with
    | false =>
      rw [withNewSession, hnode] at hsame
      refine decided_of_same hinv hsame (matched_of_rejected hnot ?_)
      rintro _ _ _ _ - - - - hnode'
      rw [hnode] at hnode'
      exact absurd hnode' Bool.false_ne_true
    | true =>
      -- the session stays
      rw [withNewSession, hnode] at hsame
      refine ⟨fun ho => ?_, fun _ hk => ?_⟩
      · rw [Matched, hp] at ho
        have hfound : ∃ c ∈ w.1.contexts, c.id = context :=
          ⟨c, List.mem_of_find?_eq_some hc, by simpa using List.find?_some hc⟩
        exact absurd (ho.2 hpages hfound (by rw [hentry]; rfl) hnode hparams.1) hparams.2
      · have hsessions := (hk.unchanged (.inl hnot)).sessions
        exact absurd (hsame.sessions.symm.trans hsessions) (append_singleton_ne _ _)
  · refine decided_of_same hinv (pre_fails hfresh.memory ?_ hpre hs) (matched_of_rejected hnot ?_)
    · exact fun context session tmpid o hp => hopen ⟨context, session, tmpid, o, hp⟩
    · exact fun context session tmpid o hp => absurd ⟨context, session, tmpid, o, hp⟩ hopen

theorem accepted_decided (hinv : TablesInv w.1 w.2) (hfresh : e.Fresh w) {r : Handled}
    (hacc : Accepted e.linux e.space w.1) (hpre : eventPre e.linux e.space w.1 = some h)
    (hs : h.success = true) (hpost : eventPost e.linux (e.answer.space h.space) h.driver = some r) :
    Decided w e (r.driver, w.2.report e.answer h.space.params) := by
  obtain ⟨l, ⟨ret, params⟩, a⟩ := e
  obtain ⟨s, o⟩ := w
  cases params with
  | initCtx context =>
    obtain rfl := Option.some.inj hpre
    exact (initCtx_settled hinv hfresh.context hfresh.id hpost).decided hacc
      ⟨fun h => h hacc, fun h _ => h⟩
  | finCtx context =>
    obtain ⟨c, hc, rfl⟩ := teeCtxFinalizePre_ok hs hpre
    exact (finCtx_settled hinv (List.mem_of_find?_eq_some hc) hpost).decided hacc
      ⟨fun h => h hacc, fun h _ => h⟩
  | regMem m =>
    obtain ⟨c, ptr, vaddr, hc, hentry, hbuf, -, rfl⟩ := teeMemRegPre_ok hfresh.memory hs hpre
    replace hpost : teeMemRegPost l ⟨a.ret, _⟩ ⟨c.tzId, l.virtToPhys vaddr, m.size, m.flags, a.id⟩
      { s with memories := listAdd l.node (newMemory l c m ptr vaddr) s.memories } = some r := hpost
    refine (regMem_settled hinv (List.mem_of_find?_eq_some hc) (hfresh.memory ptr hentry) hfresh.id
      hpost).decided hacc ⟨fun h => ?_, fun h _ => ⟨h.1, fun v hv => ?_⟩⟩
    · exact ⟨(h hacc).1, (h hacc).2 vaddr hbuf⟩
    · obtain rfl := Option.some.inj (hbuf.symm.trans hv)
      exact h.2
  | relMem m =>
    obtain ⟨x, hx, rfl⟩ := teeMemRelPre_ok hs hpre
    exact (relMem_settled hinv (List.mem_of_find?_eq_some hx) hpost).decided hacc
      ⟨fun h => h hacc, fun h _ => h⟩
  | openSession context session tmpid op =>
    have hparams : op.valid = 1 → ParamsAccepted l s.memories 0 op.params := by
      obtain ⟨-, hs', -⟩ | ⟨-, -, -, -, hsuccess, -⟩ := teeSessionOpenPre_cases hpre
      · exact absurd (hs.symm.trans hs') nofun
      · exact hsuccess.mp hs
    obtain ⟨c, ptr, hc, hentry, hnew, ps, s₁, hloop, rfl⟩ := teeSessionOpenPre_ok hs hpre
    have hsame : SameTables (withNewSession l c ptr s) s₁ := by
      split at hloop
      · exact toTz_same hloop
      · obtain ⟨-, -, rfl⟩ := ParamsDone.mk.inj (Option.some.inj hloop)
        exact .refl _
    exact (openSession_settled hinv (List.mem_of_find?_eq_some hc) (hfresh.session ptr hentry) hfresh.id
      (lookup_eq_none hnew) hsame hpost _).decided hacc
      ⟨fun h => h.1 hacc, fun h => ⟨fun _ => h, fun _ _ _ _ => hparams⟩⟩
  | closeSession session =>
    obtain ⟨x, hx, rfl⟩ := teeSessionClosePre_ok hs hpre
    exact (closeSession_settled hinv (List.mem_of_find?_eq_some hx) hpost).decided hacc
      ⟨fun h => h hacc, fun h _ => h⟩
  | invokeCommand session op =>
    obtain ⟨x, ps, s₁, -, hloop, rfl⟩ := teeInvokePre_ok hs hpre
    exact (invokeCommand_settled hinv (toTz_same hloop) hpost _ _).decided hacc ⟨fun h => h, fun h => h⟩
  | other op => exact absurd hpre (not_error hs)

/-- A request that comes back. -/
theorem teeProcess_decided (hinv : TablesInv w.1 w.2) (hfresh : e.Fresh w) {r : Handled}
    (hr : teeProcess e.linux e.answer e.space w.1 = some r) : Decided w e (r.driver, e.objects w) := by
  obtain ⟨hpages, hd⟩ | ⟨h, hpages, hpre, ⟨hs, hd⟩ | ⟨hs, r', hpost, hd⟩⟩ := teeProcess_cases hr
  · have hnot : ¬Accepted e.linux e.space w.1 := fun hacc =>
      absurd (hpages.symm.trans hacc.1) nofun
    rw [hd, objects_of_rejected hnot]
    refine decided_of_same hinv (.refl _) (matched_of_rejected hnot ?_)
    rintro _ _ _ _ - hpages'
    rw [hpages] at hpages'
    exact absurd hpages' nofun
  · have hnot : ¬Accepted e.linux e.space w.1 := fun hacc => by
      rw [accepted_iff hpages hpre, hs] at hacc
      exact absurd hacc nofun
    rw [hd, objects_of_rejected hnot]
    exact rejected_decided hinv hfresh hpages hpre hs hnot
  · have hacc := (accepted_iff hpages hpre).mpr hs
    rw [hd, objects_of_accepted hpages hpre hs]
    exact accepted_decided hinv hfresh hacc hpre hs hpost

/-- Outside of `Searched` a request does not come back. -/
theorem teeProcess_searched (hinv : TablesInv w.1 w.2) (hfresh : e.Fresh w) :
    (teeProcess e.linux e.answer e.space w.1).isSome = true ↔
      (e.linux.pages = true → Searched e.linux w.1 e.space.params) :=
  isSome_teeProcess_iff ⟨hinv.sessions.ptrs, hinv.memories.ptrs⟩ hfresh.toFresh

/-- What holds of the tables as long as the kernel has not gone wild. -/
def WorldInv (s : Option World) : Prop := ∀ w ∈ s, TablesInv w.1 w.2

/-- **An orderly request** keeps the tables. -/
theorem requestStep_kept {s t : Option World} (hinv : WorldInv s) (hstep : requestStep s e t)
    (hok : Orderly s e) : WorldInv t ∧ RequestKept s e t := by
  obtain ⟨w, rfl, hfresh, rfl⟩ := hstep
  obtain ⟨hsearched, hmatched⟩ := hok w rfl
  obtain ⟨r, hr⟩ := Option.isSome_iff_exists.mp ((teeProcess_searched (hinv w rfl) hfresh).mpr hsearched)
  obtain ⟨hnext, hkeeps⟩ := (teeProcess_decided (hinv w rfl) hfresh hr).1 hmatched
  rw [hr]
  exact ⟨fun w' hw' => Option.some.inj hw' ▸ hnext, w, _, rfl, rfl, hkeeps⟩

/-- Any other does not. -/
theorem requestStep_not_kept {s t : Option World} (hinv : WorldInv s) (hstep : requestStep s e t)
    (hno : ¬Orderly s e) : ¬RequestKept s e t := by
  obtain ⟨w, rfl, hfresh, rfl⟩ := hstep
  rintro ⟨v, w', hv, hw', hkeeps⟩
  obtain rfl := Option.some.inj hv
  obtain ⟨r, hr, rfl⟩ := Option.map_eq_some_iff.mp hw'
  -- it came back, so it is the answer that does not fit
  refine hno fun v hv => ?_
  obtain rfl := Option.some.inj hv
  refine ⟨(teeProcess_searched (hinv w rfl) hfresh).mp (by rw [hr]; rfl), ?_⟩
  by_contra hmatched
  exact (teeProcess_decided (hinv w rfl) hfresh hr).2 hmatched hkeeps

end Step

/-! ## 6. Every run -/

/-- The driver after `tee_init`, before the secure world has made anything. -/
def worldStart : World := (⟨[], [], [], [], [], []⟩, ⟨[], [], []⟩)

theorem tablesInv_start : TablesInv worldStart.1 worldStart.2 where
  contexts := rfl
  ptrs := List.nodup_nil
  ids := List.nodup_nil
  sessions := ⟨rfl, List.nodup_nil, List.nodup_nil, nofun⟩
  memories := ⟨rfl, List.nodup_nil, List.nodup_nil, nofun⟩

/-- **The runs that keep the tables in step** are those of orderly requests. -/
theorem tables_run_iff (es : List Request) (s : Option World) :
    Run (fun s e t => requestStep s e t ∧ RequestKept s e t) (some worldStart) es s ↔
      Run (Guarded Orderly requestStep) (some worldStart) es s := by
  refine Run.decided_iff WorldInv (fun s e t hinv hstep hok => ?_) (fun s e t hinv hstep hno => ?_) ?_
  · exact requestStep_kept hinv hstep hok
  · exact requestStep_not_kept hinv hstep hno
  · exact fun w hw => Option.some.inj hw ▸ tablesInv_start

/-- A new context that the secure world refuses. -/
def refused : Request :=
  ⟨calmLinux, ⟨0, .initCtx 0⟩, ⟨teecErrorOutOfMemory, 9, fun _ => ⟨0, 0, 0⟩⟩⟩

/-- **An error adds a context**: `tee_ctx_init_post` does not look at the answer. -/
theorem error_adds_context : ∃ w, Run requestStep (some worldStart) [refused] (some w) ∧
    w.1.contexts = [⟨10, 42, 9⟩] ∧ w.2.contexts = [] ∧ ¬InStep w.1 w.2 ∧
    ¬RequestKept (some worldStart) refused (some w) := by
  have hfresh : refused.Fresh worldStart := ⟨⟨nofun, nofun, nofun, nofun⟩, nofun⟩
  have hnot : ¬InStep ⟨[⟨10, 42, 9⟩], [], [], [], [], []⟩ ⟨[], [], []⟩ := fun hin =>
    absurd hin.contexts (by decide)
  refine ⟨_, .cons ⟨_, rfl, hfresh, rfl⟩ (.nil _), rfl, rfl, hnot, ?_⟩
  rintro ⟨w, w', -, hw', hk⟩
  obtain rfl := Option.some.inj hw'
  exact hnot hk.inStep

end AndixOs.Driver
