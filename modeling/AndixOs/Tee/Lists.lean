/-
# The lists of contexts, sessions and memories

`tee_context.c`, `tee_session.c` and `tee_memory.c` keep their objects in lists of `list.c`.  An
object is created under an id that is drawn until no object of its list has it, and it is found by
walking the list for its `_id`.

On every run of creating and removing, each list holds the objects that were created and not
removed since, no two of them have the same id, and an id leads to the object created with it while
it is in the list and to `NULL` otherwise (`ids_kept`).
-/
import AndixOs.Lib.Run
import AndixOs.Tee.KernelList
import AndixOs.Tee.Memory

namespace AndixOs.Tee.Lists

open AndixOs

/-! ## 1. The lists -/

/-- What the lists are for. -/
inductive TeeKind where
  | context
  | session
  | memory
  deriving DecidableEq

/-- `tee_context_list`, `tee_session_list` and `tee_memory_list`, the `_id` of each object, and the
`mappedtasks` of each memory. -/
structure TeeLists where
  lists : KernelLists
  head : TeeKind → Nat
  ids : Nat → UInt32
  mappedtasks : Nat → Nat

def TeeLists.kmalloc (t : TeeLists) (block : Nat) : TeeLists :=
  { t with lists := t.lists.kmalloc block }

def TeeLists.kfree (t : TeeLists) (block : Nat) : TeeLists :=
  { t with lists := t.lists.kfree block }

def TeeLists.setId (t : TeeLists) (obj : Nat) (id : UInt32) : TeeLists :=
  { t with ids := Function.update t.ids obj id }

/-- One of `tee_context_initialize`, `tee_session_initialize` and `tee_memory_initialize`, with the
block that `kmalloc` returns. -/
def teeInitialize (t : TeeLists) (k : TeeKind) (block : Nat) : TeeLists :=
  { t with
    lists := listInit (t.lists.kmalloc block) block 0
    head := Function.update t.head k block }

/-- The lists after the boot, in a memory that holds anything. -/
def TeeLists.init (mem : TeeLists) (context session memory : Nat) : TeeLists :=
  let t := { mem with lists := { mem.lists with live := [] } }
  teeInitialize (teeInitialize (teeInitialize t .context context) .session session) .memory memory

/-! ## 2. Finding and drawing -/

/-- The walk for an id; the outer `none` where it does not come back. -/
def teeFind (t : TeeLists) (k : TeeKind) (id : UInt32) : Option (Option Nat) :=
  let found := fun pos => t.lists.data pos != 0 && t.ids (t.lists.data pos) == id
  (findNode t.lists.links found (t.head k) t.lists.fuel (t.lists.links.next (t.head k))).map
    (Option.map t.lists.data)

/-- `tee_context_find`. -/
def teeContextFind (t : TeeLists) (id : UInt32) : Option (Option Nat) := teeFind t .context id

/-- `tee_session_find`. -/
def teeSessionFind (t : TeeLists) (id : UInt32) : Option (Option Nat) := teeFind t .session id

/-- `tee_memory_find`. -/
def teeMemoryFind (t : TeeLists) (id : UInt32) : Option (Option Nat) := teeFind t .memory id

/-- The `do … while` that draws an id; `none`: it is still drawing. -/
def drawId (t : TeeLists) (k : TeeKind) : List UInt32 → Option UInt32
  | [] => none
  | id :: draws =>
    match teeFind t k id with
    | none => none
    | some none => some id
    | some (some _) => drawId t k draws

/-! ## 3. Creating -/

/-- What `kmalloc` returns for the object, the `mappedtasks` of a memory and the node, and what
`random_next32` returns. -/
structure CreateCall where
  obj : Option Nat
  mapped : Option Nat
  draws : List UInt32
  node : Option Nat

/-- The blocks are new, and not `NULL`. -/
def CreateCall.fresh (c : CreateCall) (live : List Nat) : Prop :=
  (c.obj.toList ++ c.mapped.toList ++ c.node.toList).Nodup ∧
    ∀ b ∈ c.obj.toList ++ c.mapped.toList ++ c.node.toList, b ∉ live ∧ b ≠ 0

instance (c : CreateCall) (live : List Nat) : Decidable (c.fresh live) :=
  inferInstanceAs (Decidable (_ ∧ _))

/-- The object gets an id and goes into the list.  The inner `none` is `NULL`. -/
def addObject (t : TeeLists) (k : TeeKind) (obj : Nat) (c : CreateCall) :
    Option (Option Nat × TeeLists) :=
  (drawId t k c.draws).map fun id =>
    let t := t.setId obj id
    match listAdd t.lists (t.head k) obj c.node with
    | none => (none, t.kfree obj)
    | some lists => (some obj, { t with lists := lists })

/-- `tee_context_create`. -/
def teeContextCreate (t : TeeLists) (c : CreateCall) : Option (Option Nat × TeeLists) :=
  match c.obj with
  | none => some (none, t)
  | some obj => addObject (t.kmalloc obj) .context obj c

/-- `tee_session_create`. -/
def teeSessionCreate (t : TeeLists) (ctx : Nat) (c : CreateCall) :
    Option (Option Nat × TeeLists) :=
  if ctx = 0 then some (none, t)
  else
    match c.obj with
    | none => some (none, t)
    | some obj => addObject (t.kmalloc obj) .session obj c

/-- `mappedtasks` of a new memory. -/
def initMapped (t : TeeLists) (obj mapped : Nat) : TeeLists :=
  { t with
    lists := listInit (t.lists.kmalloc mapped) mapped 0
    mappedtasks := Function.update t.mappedtasks obj mapped }

/-- `tee_memory_create`.  Where there is no memory for the node, `mappedtasks` is not freed. -/
def teeMemoryCreate (t : TeeLists) (ctx : Nat) (c : CreateCall) :
    Option (Option Nat × TeeLists) :=
  if ctx = 0 then some (none, t)
  else
    match c.obj with
    | none => some (none, t)
    | some obj =>
      let t := t.kmalloc obj
      match c.mapped with
      | none => some (none, t.kfree obj)
      | some mapped => addObject (initMapped t obj mapped) .memory obj c

/-! ## 4. Removing -/

/-- The node of an object is taken out; the object is not freed. -/
def removeObject (t : TeeLists) (k : TeeKind) (obj : Nat) : Option TeeLists :=
  (listFindData t.lists (t.head k) obj).map fun entry =>
    match entry with
    | none => t
    | some node => { t with lists := listRemove t.lists node }

/-- `tee_context_remove`. -/
def teeContextRemove (t : TeeLists) (ctx : Nat) : Option TeeLists :=
  if ctx = 0 then some t else removeObject t .context ctx

/-- `tee_session_destroy`. -/
def teeSessionDestroy (t : TeeLists) (session : Nat) : Option TeeLists :=
  if session = 0 then some t else removeObject t .session session

/-- The loop of `tee_memory_destroy`: the mappings are freed with their nodes. -/
def destroyMapped (f : KernelLists) (head : Nat) : Nat → Nat → Option KernelLists
  | 0, _ => none
  | fuel + 1, pos =>
    if pos = head then some f
    else
      let next := f.links.next pos
      if f.data pos = 0 then destroyMapped f head fuel next
      else destroyMapped (listRemove (f.kfree (f.data pos)) pos) head fuel next

/-- `tee_memory_destroy`. -/
def teeMemoryDestroy (t : TeeLists) (memory : Nat) : Option TeeLists :=
  if memory = 0 then some t
  else
    let mapped := t.mappedtasks memory
    match destroyMapped t.lists mapped t.lists.fuel (t.lists.links.next mapped) with
    | none => none
    | some lists => removeObject { t with lists := lists.kfree mapped } .memory memory

/-! ## 5. Runs -/

/-- An object as its creation left it. -/
structure TeeObject where
  ptr : Nat
  id : UInt32
  deriving DecidableEq

/-- The lists, and the objects that were created and not removed since. -/
structure TeeRun where
  lists : TeeLists
  objects : TeeKind → List TeeObject

def TeeRun.init (mem : TeeLists) (context session memory : Nat) : TeeRun :=
  ⟨.init mem context session memory, fun _ => []⟩

/-- The operations; `ctx` is the context of a session or a memory. -/
inductive ListCall where
  | create (k : TeeKind) (ctx : Nat) (c : CreateCall)
  | remove (k : TeeKind) (obj : Nat)

def create (t : TeeLists) : TeeKind → Nat → CreateCall → Option (Option Nat × TeeLists)
  | .context, _, c => teeContextCreate t c
  | .session, ctx, c => teeSessionCreate t ctx c
  | .memory, ctx, c => teeMemoryCreate t ctx c

def find (t : TeeLists) : TeeKind → UInt32 → Option (Option Nat)
  | .context => teeContextFind t
  | .session => teeSessionFind t
  | .memory => teeMemoryFind t

def remove (t : TeeLists) : TeeKind → Nat → Option TeeLists
  | .context, obj => teeContextRemove t obj
  | .session, obj => teeSessionDestroy t obj
  | .memory, obj => teeMemoryDestroy t obj

/-- What was created, as it is after the call. -/
def recordCreate (objects : TeeKind → List TeeObject) (k : TeeKind) (t : TeeLists) :
    Option Nat → TeeKind → List TeeObject
  | none => objects
  | some obj => Function.update objects k (objects k ++ [⟨obj, t.ids obj⟩])

def recordRemove (objects : TeeKind → List TeeObject) (k : TeeKind) (obj : Nat) :
    TeeKind → List TeeObject :=
  Function.update objects k ((objects k).filter fun o => o.ptr != obj)

/-- What may be handed to the removing functions.  `tee_memory_destroy` reads and frees
`mappedtasks`, so it is for `NULL` and what `tee_memory_find` returns, as in `tee_release_mem`. -/
def Removable (t : TeeLists) : TeeKind → Nat → Prop
  | .memory, obj => obj = 0 ∨ ∃ id, teeMemoryFind t id = some (some obj)
  | .context, _ | .session, _ => True

/-- One operation. -/
inductive ListStep : TeeRun → ListCall → TeeRun → Prop where
  | create {s : TeeRun} {k : TeeKind} {ctx : Nat} {c : CreateCall} {obj : Option Nat}
      {t : TeeLists} :
    c.fresh s.lists.lists.live → create s.lists k ctx c = some (obj, t) →
      ListStep s (.create k ctx c) ⟨t, recordCreate s.objects k t obj⟩
  | remove {s : TeeRun} {k : TeeKind} {obj : Nat} {t : TeeLists} :
    Removable s.lists k obj → remove s.lists k obj = some t →
      ListStep s (.remove k obj) ⟨t, recordRemove s.objects k obj⟩

/-- Each list holds the objects that were created and not removed; their ids are distinct; and an
id leads to the object created with it while it is in the list, and to `NULL` otherwise. -/
structure IdsKept (s : TeeRun) : Prop where
  listed : ∀ k, listData s.lists.lists (s.lists.head k) = some ((s.objects k).map (·.ptr))
  ids : ∀ k, ∀ o ∈ s.objects k, s.lists.ids o.ptr = o.id
  distinct : ∀ k, ((s.objects k).map (·.id)).Nodup
  found : ∀ k id obj, find s.lists k id = some (some obj) ↔ ⟨obj, id⟩ ∈ s.objects k
  null : ∀ k id, find s.lists k id = some none ↔ ∀ o ∈ s.objects k, o.id ≠ id

/-! ## 6. What the lists hold -/

/-- The lists by name: the three, and the `mappedtasks` of each memory. -/
inductive ListName where
  | tee (k : TeeKind)
  | mappedtasks (memory : Nat)

/-- Each of the three lists holds these objects, in this order. -/
structure Holds (t : TeeLists) (use : Nat → Option (Use ListName)) (nodes : Nat → List Nat)
    (objects : TeeKind → List TeeObject) : Prop where
  used : Used t.lists use nodes
  head : ∀ k, use (t.head k) = some (.head (.tee k))
  data : ∀ k, (nodes (t.head k)).map t.lists.data = (objects k).map (·.ptr)
  ids : ∀ k, ∀ o ∈ objects k, t.ids o.ptr = o.id
  distinct : ∀ k, ((objects k).map (·.id)).Nodup

/-- The memory has an empty list of mappings. -/
def Unmapped (t : TeeLists) (use : Nat → Option (Use ListName)) (nodes : Nat → List Nat)
    (memory : Nat) : Prop :=
  use (t.mappedtasks memory) = some (.head (.mappedtasks memory)) ∧
    nodes (t.mappedtasks memory) = []

section

variable {t t' : TeeLists} {use use' : Nat → Option (Use ListName)} {nodes nodes' : Nat → List Nat}
  {objects : TeeKind → List TeeObject} {k : TeeKind} {o : TeeObject} {obj mapped : Nat}
  {id : UInt32} {c : CreateCall} {r : Option Nat}

/-- An object in a list is the data of a node. -/
theorem Holds.node_of (h : Holds t use nodes objects) (ho : o ∈ objects k) :
    ∃ x ∈ nodes (t.head k), t.lists.data x = o.ptr := by
  have hmem : o.ptr ∈ (nodes (t.head k)).map t.lists.data := by
    rw [h.data k]
    exact List.mem_map_of_mem ho
  exact List.mem_map.mp hmem

/-- An object in a list has a use. -/
theorem Holds.ptr_use (h : Holds t use nodes objects) (ho : o ∈ objects k) :
    ∃ x, use o.ptr = some (.data x) := by
  obtain ⟨x, hx, hdata⟩ := h.node_of ho
  exact ⟨x, hdata ▸ h.used.data _ _ (h.head k) x hx⟩

theorem Holds.ptr_ne (h : Holds t use nodes objects) (hobj : use obj = none) (ho : o ∈ objects k) :
    o.ptr ≠ obj := by
  obtain ⟨x, hx⟩ := h.ptr_use ho
  exact ne_of_unused hobj hx

theorem Holds.ptr_ne_zero (h : Holds t use nodes objects) (ho : o ∈ objects k) : o.ptr ≠ 0 := by
  obtain ⟨x, hx⟩ := h.ptr_use ho
  exact (h.used.live _ _ hx).2

/-- **The walk for an id** finds the object with it. -/
theorem Holds.find_eq (h : Holds t use nodes objects) (k : TeeKind) (id : UInt32) :
    teeFind t k id = some (((objects k).find? fun o => o.id == id).map (·.ptr)) := by
  have hring := h.used.ring _ _ (h.head k)
  have hsame : ((objects k).find? fun o => o.ptr != 0 && t.ids o.ptr == id) =
      (objects k).find? fun o => o.id == id :=
    List.find?_congr fun o ho => by simp [h.ids k o ho, h.ptr_ne_zero ho]
  have hdata : ((nodes (t.head k)).find?
        fun pos => t.lists.data pos != 0 && t.ids (t.lists.data pos) == id).map t.lists.data =
      ((objects k).find? fun o => o.ptr != 0 && t.ids o.ptr == id).map (·.ptr) := by
    have hmap := List.find?_map (p := fun p => p != 0 && t.ids p == id) (f := t.lists.data)
      (l := nodes (t.head k))
    rw [h.data k, List.find?_map] at hmap
    exact hmap.symm
  rw [teeFind]
  simp only [findNode_ring hring (h.used.length_lt (h.head k)), Option.map_some, hdata, hsame]

/-- A drawn id is not the one of an object in the list. -/
theorem Holds.drawId_fresh (h : Holds t use nodes objects) :
    ∀ {draws : List UInt32}, drawId t k draws = some id → ∀ o ∈ objects k, o.id ≠ id
  | [], hdraw => nomatch hdraw
  | d :: draws, hdraw => by
    rw [drawId, h.find_eq] at hdraw
    cases hfind : (objects k).find? fun o => o.id == d with
    | some o =>
      rw [hfind] at hdraw
      exact h.drawId_fresh hdraw
    | none =>
      rw [hfind] at hdraw
      obtain rfl := Option.some.inj hdraw
      intro o ho
      simpa using List.find?_eq_none.mp hfind o ho

/-! ## 7. The blocks -/

theorem Holds.kmalloc (h : Holds t use nodes objects) (b : Nat) :
    Holds (t.kmalloc b) use nodes objects :=
  ⟨h.used.kmalloc, h.head, h.data, h.ids, h.distinct⟩

theorem Holds.kfree (h : Holds t use nodes objects) (hobj : use obj = none) :
    Holds (t.kfree obj) use nodes objects :=
  ⟨h.used.kfree hobj, h.head, h.data, h.ids, h.distinct⟩

theorem Holds.setId (h : Holds t use nodes objects) (hobj : use obj = none) :
    Holds (t.setId obj id) use nodes objects where
  used := h.used
  head := h.head
  data := h.data
  ids k o ho := (Function.update_of_ne (h.ptr_ne hobj ho) _ _).trans (h.ids k o ho)
  distinct := h.distinct

theorem Holds.head_ne (h : Holds t use nodes objects) {b : Nat} {n : ListName}
    (hb : use b = some (.head n)) (hne : n ≠ .tee k) : b ≠ t.head k := by
  rintro rfl
  rw [h.head k] at hb
  exact hne (by simpa using hb.symm)

/-- A new `mappedtasks` is an empty list. -/
theorem Holds.initMapped (h : Holds t use nodes objects) (obj : Nat)
    (hmapped : mapped ∉ t.lists.live) (h0 : mapped ≠ 0) :
    Holds (initMapped t obj mapped)
      (Function.update use mapped (some (.head (.mappedtasks obj))))
      (Function.update nodes mapped []) objects := by
  have hfree := h.used.unused hmapped
  have hhead : ∀ k, t.head k ≠ mapped := fun k => ne_of_unused hfree (h.head k)
  refine ⟨h.used.kmalloc.listInit List.mem_cons_self hfree h0 _, fun k => ?_, fun k => ?_, h.ids,
    h.distinct⟩
  · exact (Function.update_of_ne (hhead k) _ _).trans (h.head k)
  · have hnodes : Function.update nodes mapped [] (t.head k) = nodes (t.head k) :=
      Function.update_of_ne (hhead k) _ _
    have hdata : (nodes (t.head k)).map (Lists.initMapped t obj mapped).lists.data =
        (nodes (t.head k)).map t.lists.data :=
      List.map_congr_left fun y hy =>
        Function.update_of_ne (ne_of_unused hfree (h.used.node _ _ (h.head k) y hy)) _ _
    exact ((congrArg _ hnodes).trans hdata).trans (h.data k)

/-- What an operation on one list leaves of the others. -/
def KeepsOthers (head : Nat) (use use' : Nat → Option (Use ListName))
    (nodes nodes' : Nat → List Nat) : Prop :=
  ∀ b n, use b = some (.head n) → b ≠ head → use' b = some (.head n) ∧ nodes' b = nodes b

theorem Unmapped.keep {head memory : Nat} (h : Unmapped t use nodes memory)
    (hkeep : KeepsOthers head use use' nodes nodes') (hsame : t'.mappedtasks = t.mappedtasks)
    (hne : t.mappedtasks memory ≠ head) : Unmapped t' use' nodes' memory := by
  obtain ⟨huse, hnodes⟩ := hkeep _ _ h.1 hne
  rw [Unmapped, hsame]
  exact ⟨huse, hnodes.trans h.2⟩

/-! ## 8. Objects come and go -/

/-- An object at the end of one list. -/
theorem Holds.addObject (h : Holds t use nodes objects) (hlive : obj ∈ t.lists.live)
    (hfree : use obj = none) (h0 : obj ≠ 0) (hnode : ∀ x ∈ c.node, x ∉ t.lists.live ∧ x ≠ 0)
    (hadd : addObject t k obj c = some (r, t')) :
    ∃ use' nodes', Holds t' use' nodes' (recordCreate objects k t' r) ∧
      KeepsOthers (t.head k) use use' nodes nodes' ∧ t'.mappedtasks = t.mappedtasks ∧
      (r = none ∨ r = some obj) := by
  obtain ⟨id, hdraw, hrest⟩ := Option.map_eq_some_iff.mp hadd
  have hfresh := h.drawId_fresh hdraw
  have hset : Holds (t.setId obj id) use nodes objects := h.setId hfree
  cases hn : c.node with
  | none =>
    rw [hn] at hrest
    obtain ⟨rfl, rfl⟩ := Prod.mk.inj hrest
    exact ⟨use, nodes, hset.kfree hfree, fun _ _ hb _ => ⟨hb, rfl⟩, rfl, Or.inl rfl⟩
  | some x =>
    obtain ⟨hxlive, hx0⟩ := hnode x (by simp [hn])
    obtain ⟨f, hlist, hused, hdata, hdx, -⟩ :=
      hset.used.listAdd (hset.head k) hlive hfree h0 hxlive hx0
    have hxfree := h.used.unused hxlive
    simp only [hn] at hrest
    rw [hlist] at hrest
    obtain ⟨rfl, rfl⟩ := Prod.mk.inj hrest
    have huse : ∀ {b u}, use b = some u → addUse use (t.head k) x obj b = some u := fun hb =>
      (addUse_of_ne (ne_of_unused hfree hb) (ne_of_unused hxfree hb)).trans hb
    have hold : ∀ k', (nodes (t.head k')).map f.data = (objects k').map (·.ptr) := fun k' => by
      rw [← h.data k']
      refine List.map_congr_left fun y hy => hdata y ?_
      exact ne_of_unused hxfree (h.used.node _ _ (h.head k') y hy)
    have hid : (t.setId obj id).ids obj = id := Function.update_self ..
    refine ⟨_, _, ⟨hused, fun k' => huse (h.head k'),
      (Function.forall_update_iff objects fun k' l =>
        (Function.update nodes _ _ (t.head k')).map f.data = l.map (·.ptr)).mpr
          ⟨?_, fun k' hk => ?_⟩,
      (Function.forall_update_iff objects fun _ l =>
        ∀ o ∈ l, (t.setId obj id).ids o.ptr = o.id).mpr ⟨fun o ho => ?_, fun k' _ => hset.ids k'⟩,
      (Function.forall_update_iff objects fun _ l =>
        (l.map (·.id)).Nodup).mpr ⟨?_, fun k' _ => h.distinct k'⟩⟩,
      fun b n hb hne => ⟨huse hb, Function.update_of_ne hne _ _⟩, rfl, Or.inr rfl⟩
    · have hnodes : Function.update nodes (t.head k) (nodes (t.head k) ++ [x]) (t.head k) =
          nodes (t.head k) ++ [x] := Function.update_self ..
      refine (congrArg _ hnodes).trans ?_
      rw [List.map_append, List.map_append, hold k, List.map_singleton, List.map_singleton, hdx]
    · have hne : t.head k' ≠ t.head k := h.head_ne (h.head k') (by simpa using hk)
      have hnodes : Function.update nodes (t.head k) (nodes (t.head k) ++ [x]) (t.head k') =
          nodes (t.head k') := Function.update_of_ne hne _ _
      exact (congrArg _ hnodes).trans (hold k')
    · rcases List.mem_append.mp ho with ho | ho
      · exact hset.ids k o ho
      · rw [List.mem_singleton.mp ho]
    · rw [List.map_append, List.map_singleton, hid]
      refine (h.distinct k).append (List.nodup_singleton id) ?_
      simpa using hfresh

/-- An object is taken out of one list. -/
theorem Holds.removeObject (h : Holds t use nodes objects)
    (hremove : removeObject t k obj = some t') :
    ∃ use' nodes', Holds t' use' nodes' (recordRemove objects k obj) ∧
      KeepsOthers (t.head k) use use' nodes nodes' ∧ t'.mappedtasks = t.mappedtasks := by
  obtain ⟨entry, hentry, hrest⟩ := Option.map_eq_some_iff.mp hremove
  rw [h.used.listFindData_eq (h.head k)] at hentry
  have hfind := Option.some.inj hentry
  cases entry with
  | none =>
    obtain rfl := hrest
    have hall : ∀ o ∈ objects k, (o.ptr != obj) = true := by
      intro o ho
      obtain ⟨x, hx, hdata⟩ := h.node_of ho
      have hne := List.find?_eq_none.mp hfind x hx
      exact bne_iff_ne.mpr fun e => hne (beq_iff_eq.mpr (hdata.trans e))
    have hsame : recordRemove objects k obj = objects := by
      rw [recordRemove, List.filter_eq_self.mpr hall, Function.update_eq_self]
    rw [hsame]
    exact ⟨use, nodes, h, fun _ _ hb _ => ⟨hb, rfl⟩, rfl⟩
  | some x =>
    obtain rfl := hrest
    have hx := List.mem_of_find?_eq_some hfind
    obtain rfl : t.lists.data x = obj := by simpa using List.find?_some hfind
    have hxuse := h.used.node _ _ (h.head k) x hx
    have hduse := h.used.data _ _ (h.head k) x hx
    have hhead : ∀ {b n}, use b = some (.head n) →
        dropUse use x (t.lists.data x) b = some (.head n) := by
      intro b n hb
      refine (dropUse_of_ne ?_ ?_).trans hb
      · rintro rfl
        exact nomatch hb.symm.trans hduse
      · rintro rfl
        exact nomatch hb.symm.trans hxuse
    refine ⟨_, _, ⟨h.used.listRemove (h.head k) hx, fun k' => hhead (h.head k'),
      (Function.forall_update_iff objects fun k' l =>
        (Function.update nodes _ _ (t.head k')).map t.lists.data = l.map (·.ptr)).mpr
          ⟨?_, fun k' hk => ?_⟩,
      (Function.forall_update_iff objects fun _ l => ∀ o ∈ l, t.ids o.ptr = o.id).mpr
        ⟨fun o ho => h.ids k o (List.mem_of_mem_filter ho), fun k' _ => h.ids k'⟩,
      (Function.forall_update_iff objects fun _ l => (l.map (·.id)).Nodup).mpr
        ⟨(h.distinct k).sublist (List.filter_sublist.map _), fun k' _ => h.distinct k'⟩⟩,
      fun b n hb hne => ⟨hhead hb, Function.update_of_ne hne _ _⟩, rfl⟩
    · rw [Function.update_self, h.used.map_erase (h.head k) hx, h.data k, List.filter_map]
      rfl
    · have hne : t.head k' ≠ t.head k := h.head_ne (h.head k') (by simpa using hk)
      rw [Function.update_of_ne hne]
      exact h.data k'

/-! ## 9. The operations -/

/-- The lists hold these objects, and no memory is mapped. -/
structure Listed (t : TeeLists) (use : Nat → Option (Use ListName)) (nodes : Nat → List Nat)
    (objects : TeeKind → List TeeObject) : Prop where
  holds : Holds t use nodes objects
  unmapped : ∀ o ∈ objects .memory, Unmapped t use nodes o.ptr

theorem Listed.kmalloc (h : Listed t use nodes objects) (b : Nat) :
    Listed (t.kmalloc b) use nodes objects :=
  ⟨h.holds.kmalloc b, h.unmapped⟩

theorem Listed.kfree (h : Listed t use nodes objects) (hobj : use obj = none) :
    Listed (t.kfree obj) use nodes objects :=
  ⟨h.holds.kfree hobj, h.unmapped⟩

/-- A new `mappedtasks`, for an object that is not in a list yet. -/
theorem Listed.initMapped (h : Listed t use nodes objects) (hobj : use obj = none)
    (hmapped : mapped ∉ t.lists.live) (h0 : mapped ≠ 0) :
    Listed (initMapped t obj mapped)
        (Function.update use mapped (some (.head (.mappedtasks obj))))
        (Function.update nodes mapped []) objects ∧
      Unmapped (initMapped t obj mapped)
        (Function.update use mapped (some (.head (.mappedtasks obj))))
        (Function.update nodes mapped []) obj := by
  have hfree := h.holds.used.unused hmapped
  refine ⟨⟨h.holds.initMapped obj hmapped h0, fun o ho => ?_⟩, ?_⟩
  · obtain ⟨huse, hnodes⟩ := h.unmapped o ho
    have hptr : o.ptr ≠ obj := h.holds.ptr_ne hobj ho
    have hsame : (Lists.initMapped t obj mapped).mappedtasks o.ptr = t.mappedtasks o.ptr :=
      Function.update_of_ne hptr _ _
    have hne : t.mappedtasks o.ptr ≠ mapped := ne_of_unused hfree huse
    rw [Unmapped, hsame, Function.update_of_ne hne, Function.update_of_ne hne]
    exact ⟨huse, hnodes⟩
  · have hself : (Lists.initMapped t obj mapped).mappedtasks obj = mapped := Function.update_self ..
    rw [Unmapped, hself, Function.update_self, Function.update_self]
    exact ⟨rfl, rfl⟩

/-- The common end of the three that create. -/
theorem Listed.addObject (h : Listed t use nodes objects) (hlive : obj ∈ t.lists.live)
    (hfree : use obj = none) (h0 : obj ≠ 0) (hnode : ∀ x ∈ c.node, x ∉ t.lists.live ∧ x ≠ 0)
    (hnew : k = .memory → Unmapped t use nodes obj) (hadd : addObject t k obj c = some (r, t')) :
    ∃ use' nodes', Listed t' use' nodes' (recordCreate objects k t' r) := by
  obtain ⟨use', nodes', hholds, hkeep, hsame, hr⟩ :=
    h.holds.addObject hlive hfree h0 hnode hadd
  have hstay : ∀ p, Unmapped t use nodes p → Unmapped t' use' nodes' p := fun p hp =>
    hp.keep hkeep hsame (h.holds.head_ne hp.1 (by simp))
  refine ⟨use', nodes', hholds, fun o ho => ?_⟩
  rcases hr with rfl | rfl
  · exact hstay _ (h.unmapped o ho)
  · by_cases hk : k = .memory
    · subst hk
      have hobjs : recordCreate objects .memory t' (some obj) .memory =
          objects .memory ++ [⟨obj, t'.ids obj⟩] := by rw [recordCreate, Function.update_self]
      rw [hobjs] at ho
      rcases List.mem_append.mp ho with ho | ho
      · exact hstay _ (h.unmapped o ho)
      · rw [List.mem_singleton.mp ho]
        exact hstay _ (hnew rfl)
    · have hobjs : recordCreate objects k t' (some obj) .memory = objects .memory :=
        Function.update_of_ne (Ne.symm hk) _ _
      exact hstay _ (h.unmapped o (hobjs ▸ ho))

theorem mem_of_recordRemove {k' : TeeKind} (ho : o ∈ recordRemove objects k obj k') :
    o ∈ objects k' ∧ (k' = k → o.ptr ≠ obj) := by
  by_cases hk : k' = k
  · subst hk
    rw [recordRemove, Function.update_self, List.mem_filter, bne_iff_ne] at ho
    exact ⟨ho.1, fun _ => ho.2⟩
  · rw [recordRemove, Function.update_of_ne hk] at ho
    exact ⟨ho, fun e => absurd e hk⟩

/-- The common end of the three that remove. -/
theorem Holds.removeObject_listed (h : Holds t use nodes objects)
    (hun : ∀ o ∈ recordRemove objects k obj .memory, Unmapped t use nodes o.ptr)
    (hremove : Lists.removeObject t k obj = some t') :
    ∃ use' nodes', Listed t' use' nodes' (recordRemove objects k obj) := by
  obtain ⟨use', nodes', hholds, hkeep, hsame⟩ := h.removeObject hremove
  refine ⟨use', nodes', hholds, fun o ho => ?_⟩
  exact (hun o ho).keep hkeep hsame (h.head_ne (hun o ho).1 (by simp))

/-- The `NULL` checks: nothing is listed at 0. -/
theorem Listed.recordRemove_zero (h : Listed t use nodes objects) :
    recordRemove objects k 0 = objects := by
  have hall : ∀ o ∈ objects k, (o.ptr != 0) = true := fun o ho =>
    bne_iff_ne.mpr (h.holds.ptr_ne_zero ho)
  rw [recordRemove, List.filter_eq_self.mpr hall, Function.update_eq_self]

/-- `mappedtasks` of a memory is freed, and the memory taken out of its list. -/
theorem Listed.teeMemoryDestroy (h : Listed t use nodes objects) (ho : o ∈ objects .memory)
    (hdestroy : teeMemoryDestroy t o.ptr = some t') :
    ∃ use' nodes', Listed t' use' nodes' (recordRemove objects .memory o.ptr) := by
  obtain ⟨huse, hnodes⟩ := h.unmapped o ho
  have hring := h.holds.used.ring _ _ huse
  rw [hnodes] at hring
  have hnext : t.lists.links.next (t.mappedtasks o.ptr) = t.mappedtasks o.ptr :=
    (List.isChain_cons_cons.mp hring.joined).1.1
  -- no mapping was ever made, so the loop ends at once
  have hloop : destroyMapped t.lists (t.mappedtasks o.ptr) t.lists.fuel
      (t.lists.links.next (t.mappedtasks o.ptr)) = some t.lists := by
    rw [KernelLists.fuel, destroyMapped, if_pos hnext]
  rw [Lists.teeMemoryDestroy, if_neg (h.holds.ptr_ne_zero ho)] at hdestroy
  simp only [hloop] at hdestroy
  have hholds : Holds (t.kfree (t.mappedtasks o.ptr))
      (Function.update use (t.mappedtasks o.ptr) none) nodes objects := by
    refine ⟨h.holds.used.kfree_head huse, fun k => ?_, h.holds.data, h.holds.ids,
      h.holds.distinct⟩
    have hne := h.holds.head_ne (k := k) huse (by simp)
    exact (Function.update_of_ne hne.symm _ _).trans (h.holds.head k)
  refine hholds.removeObject_listed (fun p hp => ?_) hdestroy
  obtain ⟨hmem, hptr⟩ := mem_of_recordRemove hp
  obtain ⟨huse', hnodes'⟩ := h.unmapped p hmem
  have hne : t.mappedtasks p.ptr ≠ t.mappedtasks o.ptr := by
    intro e
    rw [e, huse] at huse'
    exact hptr rfl (by simpa using huse'.symm)
  exact ⟨(Function.update_of_ne hne _ _).trans huse', hnodes'⟩

/-- The blocks of a call are new and not each other. -/
theorem CreateCall.fresh.obj_new {live : List Nat} (hfresh : c.fresh live)
    (hobj : c.obj = some obj) :
    (obj ∉ live ∧ obj ≠ 0) ∧ ∀ x ∈ c.node, x ∉ obj :: live ∧ x ≠ 0 := by
  obtain ⟨hnd, hnew⟩ := hfresh
  refine ⟨hnew obj (by simp [hobj]), fun x hx => ?_⟩
  obtain ⟨hxlive, hx0⟩ := hnew x (by simp [Option.mem_def.mp hx])
  have hne : x ≠ obj := by
    rintro rfl
    rw [hobj, Option.mem_def.mp hx] at hnd
    simp at hnd
  exact ⟨by simp [hne, hxlive], hx0⟩

theorem CreateCall.fresh.mapped_new {live : List Nat} (hfresh : c.fresh live)
    (hobj : c.obj = some obj) (hmapped : c.mapped = some mapped) :
    (mapped ∉ obj :: live ∧ mapped ≠ 0) ∧ ∀ x ∈ c.node, x ∉ mapped :: obj :: live ∧ x ≠ 0 := by
  obtain ⟨hnd, hnew⟩ := hfresh
  rw [hobj, hmapped] at hnd
  obtain ⟨hmlive, hm0⟩ := hnew mapped (by simp [hmapped])
  have hne : mapped ≠ obj := by
    rintro rfl
    simp at hnd
  refine ⟨⟨by simp [hne, hmlive], hm0⟩, fun x hx => ?_⟩
  obtain ⟨hx', hx0⟩ := (CreateCall.fresh.obj_new ⟨hobj ▸ hmapped ▸ hnd, hnew⟩ hobj).2 x hx
  have hxm : x ≠ mapped := by
    rintro rfl
    rw [Option.mem_def.mp hx] at hnd
    simp at hnd
  exact ⟨List.not_mem_cons_of_ne_of_not_mem hxm hx', hx0⟩

/-- **Creating** keeps the lists. -/
theorem Listed.create (h : Listed t use nodes objects) {ctx : Nat}
    (hfresh : c.fresh t.lists.live) (hcreate : create t k ctx c = some (r, t')) :
    ∃ use' nodes', Listed t' use' nodes' (recordCreate objects k t' r) := by
  have hnull : some (none, t) = some (r, t') →
      ∃ use' nodes', Listed t' use' nodes' (recordCreate objects k t' r) := by
    intro heq
    obtain ⟨rfl, rfl⟩ := Prod.mk.inj (Option.some.inj heq)
    exact ⟨use, nodes, h⟩
  cases hobj : c.obj with
  | none =>
    refine hnull ?_
    rw [← hcreate]
    cases k with
    | context => simp [Lists.create, teeContextCreate, hobj]
    | session => simp [Lists.create, teeSessionCreate, hobj]
    | memory => simp [Lists.create, teeMemoryCreate, hobj]
  | some obj =>
    obtain ⟨⟨hlive, h0⟩, hnode⟩ := hfresh.obj_new hobj
    have hfree := h.holds.used.unused hlive
    have hk := h.kmalloc obj
    cases k with
    | context =>
      simp only [Lists.create, teeContextCreate, hobj] at hcreate
      exact hk.addObject List.mem_cons_self hfree h0 hnode (fun e => nomatch e) hcreate
    | session =>
      simp only [Lists.create, teeSessionCreate, hobj] at hcreate
      split_ifs at hcreate
      · exact hnull hcreate
      · exact hk.addObject List.mem_cons_self hfree h0 hnode (fun e => nomatch e) hcreate
    | memory =>
      simp only [Lists.create, teeMemoryCreate, hobj] at hcreate
      split_ifs at hcreate
      · exact hnull hcreate
      · cases hmapped : c.mapped with
        | none =>
          rw [hmapped] at hcreate
          obtain ⟨rfl, rfl⟩ := Prod.mk.inj (Option.some.inj hcreate)
          exact ⟨use, nodes, hk.kfree hfree⟩
        | some mapped =>
          rw [hmapped] at hcreate
          obtain ⟨⟨hmlive, hm0⟩, hnode'⟩ := hfresh.mapped_new hobj hmapped
          obtain ⟨hinit, hun⟩ := hk.initMapped hfree hmlive hm0
          have hne : obj ≠ mapped := fun e => hmlive (e ▸ List.mem_cons_self)
          have hfree' :=
            (Function.update_of_ne hne (some (.head (.mappedtasks obj))) use).trans hfree
          exact hinit.addObject (List.mem_cons_of_mem _ List.mem_cons_self) hfree' h0 hnode'
            (fun _ => hun) hcreate

/-- **Removing** keeps the lists. -/
theorem Listed.remove (h : Listed t use nodes objects) (hok : Removable t k obj)
    (hremove : remove t k obj = some t') :
    ∃ use' nodes', Listed t' use' nodes' (recordRemove objects k obj) := by
  have hun : ∀ o ∈ recordRemove objects k obj .memory, Unmapped t use nodes o.ptr :=
    fun o ho => h.unmapped o (mem_of_recordRemove ho).1
  by_cases h0 : obj = 0
  · subst h0
    have hsame : t = t' := by
      cases k <;> exact Option.some.inj hremove
    rw [← hsame, h.recordRemove_zero]
    exact ⟨use, nodes, h⟩
  · cases k with
    | context =>
      rw [Lists.remove, teeContextRemove, if_neg h0] at hremove
      exact h.holds.removeObject_listed hun hremove
    | session =>
      rw [Lists.remove, teeSessionDestroy, if_neg h0] at hremove
      exact h.holds.removeObject_listed hun hremove
    | memory =>
      obtain ⟨id, hfind⟩ := hok.resolve_left h0
      rw [teeMemoryFind, h.holds.find_eq] at hfind
      obtain ⟨o, ho, rfl⟩ := Option.map_eq_some_iff.mp (Option.some.inj hfind)
      exact h.teeMemoryDestroy (List.mem_of_find?_eq_some ho) hremove

/-! ## 10. Every run -/

/-- The three functions are one walk, over the list of their kind. -/
theorem find_eq_teeFind (t : TeeLists) (k : TeeKind) (id : UInt32) : find t k id = teeFind t k id := by
  cases k <;> rfl

/-- What the lists hold gives what is promised. -/
theorem Holds.kept (h : Holds t use nodes objects) : IdsKept ⟨t, objects⟩ where
  listed k := by rw [h.used.listData_eq (h.head k), h.data k]
  ids := h.ids
  distinct := h.distinct
  found k id obj := by
    rw [find_eq_teeFind, h.find_eq, Option.some_inj]
    constructor
    · intro hfind
      obtain ⟨o, ho, rfl⟩ := Option.map_eq_some_iff.mp hfind
      obtain rfl : o.id = id := by simpa using List.find?_some ho
      exact List.mem_of_find?_eq_some ho
    · intro ho
      obtain ⟨o, hfind⟩ := Option.isSome_iff_exists.mp
        (List.find?_isSome (p := fun o => o.id == id) |>.mpr ⟨_, ho, beq_self_eq_true id⟩)
      have hid : o.id = id := by simpa using List.find?_some hfind
      have hsame := List.inj_on_of_nodup_map (h.distinct k) (List.mem_of_find?_eq_some hfind) ho hid
      rw [hfind, hsame]
      rfl
  null k id := by
    rw [find_eq_teeFind, h.find_eq, Option.some_inj, Option.map_eq_none_iff, List.find?_eq_none]
    simp

end

/-- A list after its initialisation. -/
theorem used_teeInitialize {t : TeeLists} {use : Nat → Option (Use ListName)}
    {nodes : Nat → List Nat} (hu : Used t.lists use nodes) (k : TeeKind) {b : Nat}
    (hb : b ∉ t.lists.live) (h0 : b ≠ 0) :
    Used (teeInitialize t k b).lists (Function.update use b (some (.head (.tee k))))
      (Function.update nodes b []) :=
  hu.kmalloc.listInit List.mem_cons_self (hu.unused hb) h0 _

/-- After the boot the lists hold nothing. -/
theorem holds_init (mem : TeeLists) {context session memory : Nat}
    (hheads : [0, context, session, memory].Nodup) :
    ∃ use nodes, Holds (.init mem context session memory) use nodes fun _ => [] := by
  simp only [List.nodup_cons, List.mem_cons, List.not_mem_nil, or_false, not_or] at hheads
  obtain ⟨⟨hc, hs, hm⟩, ⟨hcs, hcm⟩, hsm, -⟩ := hheads
  have hempty : Used { mem.lists with live := [] } (fun _ => (none : Option (Use ListName)))
      fun _ => [] := by constructor <;> simp
  have h1 := used_teeInitialize (t := { mem with lists := { mem.lists with live := [] } }) hempty
    .context (b := context) List.not_mem_nil (Ne.symm hc)
  have h2 := used_teeInitialize h1 .session (b := session)
    (by simp [teeInitialize, listInit, KernelLists.kmalloc, Ne.symm hcs]) (Ne.symm hs)
  have h3 := used_teeInitialize h2 .memory (b := memory)
    (by simp [teeInitialize, listInit, KernelLists.kmalloc, Ne.symm hcm, Ne.symm hsm]) (Ne.symm hm)
  refine ⟨_, _, h3, fun k => ?_, fun k => ?_, by simp, fun _ => List.nodup_nil⟩
  · cases k <;> simp [TeeLists.init, teeInitialize, hcs, hcm, hsm]
  · have hnil : ∀ b, Function.update (Function.update (Function.update (fun _ => []) context [])
        session []) memory ([] : List Nat) b = [] := by
      simp [Function.update_apply]
    rw [hnil]
    rfl

/-- **The ids on every run.**  Whatever contexts, sessions and memories are created and removed, in
whatever order, whichever of the allocations fail, and whatever numbers are drawn: in every state
reached each list holds the objects that were created and not removed, their ids are distinct, and
an id leads to the object created with it while it is in the list and to `NULL` otherwise. -/
theorem ids_kept {mem : TeeLists} {context session memory : Nat}
    (hheads : [0, context, session, memory].Nodup) {calls : List ListCall} {s : TeeRun}
    (hrun : Run ListStep (.init mem context session memory) calls s) : IdsKept s := by
  obtain ⟨use, nodes, hinit⟩ := holds_init mem hheads
  have hstep : ∀ s a t, (∃ use nodes, Listed s.lists use nodes s.objects) → ListStep s a t →
      ∃ use nodes, Listed t.lists use nodes t.objects := by
    rintro s a t ⟨use, nodes, h⟩ hstep
    cases hstep with
    | create hfresh hcreate => exact h.create hfresh hcreate
    | remove hok hremove => exact h.remove hok hremove
  obtain ⟨_, _, h⟩ := hrun.invariant hstep ⟨use, nodes, hinit, nofun⟩
  exact h.holds.kept

/-- A memory that holds 0. -/
def zeroMemory : TeeLists where
  lists := ⟨⟨fun _ => 0, fun _ => 0⟩, fun _ => 0, []⟩
  head _ := 0
  ids _ := 0
  mappedtasks _ := 0

/-- Two contexts, a session and a memory; the second context draws the id of the first and draws
again. -/
def fourCreated : List ListCall :=
  [.create .context 0 ⟨some 4, none, [7], some 5⟩,
    .create .context 0 ⟨some 6, none, [7, 8], some 9⟩,
    .create .session 4 ⟨some 10, none, [7], some 11⟩,
    .create .memory 4 ⟨some 12, some 13, [7], some 14⟩]

/-- **The first context and the memory are removed again.** -/
theorem ids_kept_removed : ∃ s,
    Run ListStep (.init zeroMemory 1 2 3)
      (fourCreated ++ [.remove .context 4, .remove .memory 12]) s ∧
    teeContextFind s.lists 7 = some none ∧ teeContextFind s.lists 8 = some (some 6) ∧
    teeMemoryFind s.lists 7 = some none ∧ IdsKept s := by
  have hrun : ∃ s, Run ListStep (.init zeroMemory 1 2 3)
      (fourCreated ++ [.remove .context 4, .remove .memory 12]) s ∧
      teeContextFind s.lists 7 = some none ∧ teeContextFind s.lists 8 = some (some 6) ∧
      teeMemoryFind s.lists 7 = some none := by
    refine ⟨_, .cons (.create (by decide) rfl) (.cons (.create (by decide) rfl)
      (.cons (.create (by decide) rfl) (.cons (.create (by decide) rfl)
      (.cons (.remove trivial rfl) (.cons (.remove (.inr ⟨7, rfl⟩) rfl) (.nil _)))))), ?_, ?_, ?_⟩
    · rfl
    · rfl
    · rfl
  obtain ⟨s, hrun, h7, h8, hm⟩ := hrun
  exact ⟨s, hrun, h7, h8, hm, ids_kept (by decide) hrun⟩

end AndixOs.Tee.Lists
