/-
# The searches of the driver

The driver keeps its contexts, sessions, memories and temporary memories in four circular lists, and has
eleven functions that look for an entry.  They are copies of one loop.  Its result is a local variable
that is set in the body only: to the entry that is looked at, and back to `NULL` if that is not the one.
So the loop says that there is nothing by what it has seen last, and where it has seen nothing, by what
the variable held before.

* `findLoop_ring`: what the loop returns for any list;
* `findCall_right_iff`: which calls return what they are asked for;
* `lookup_listFind`: the searches of the other modules are these.
-/
import AndixOs.Lib.Ring
import AndixOs.Lib.Table

namespace AndixOs.Driver.Loops

open AndixOs

/-! ## 1. The tables -/

/-- `tee_context`. -/
structure TeeContext where
  id : UInt32
  tzId : UInt32
  pid : UInt32

/-- `tee_session`.  A `ctx` is an address. -/
structure TeeSession where
  id : UInt32
  ctx : Nat
  tzId : UInt32

/-- `tee_shared_memory`, with what the searches read. -/
structure TeeSharedMemory where
  id : UInt32
  ctx : Nat
  tzId : UInt32
  comPaddr : UInt32

/-- A list: its head, and the nodes behind it. -/
structure Table (links : Links Nat) where
  head : Nat
  nodes : List Nat
  ring : IsRing links head nodes

/-- The memory: the nodes with their `data`, the entries at their addresses, and the four lists.  An
address is a number, 0 for `NULL`. -/
structure TeeTables where
  links : Links Nat
  data : Nat → Nat
  context : Nat → TeeContext
  session : Nat → TeeSession
  memory : Nat → TeeSharedMemory
  teeContexts : Table links
  teeSessions : Table links
  teeMemories : Table links
  teeTmpMemories : Table links

variable (w : TeeTables)

/-! ## 2. The loop -/

/-- The loop from the node `pos` on, with the result so far.  `none` stands for a loop that has not
ended. -/
def findLoop (links : Links Nat) (data : Nat → Nat) (hit : Nat → Bool) (head : Nat) :
    Nat → Nat → Nat → Option Nat
  | 0, _, _ => none
  | fuel + 1, pos, found =>
    if pos = head then some found
    else if data pos ≠ 0 then
      if hit (data pos) then some (data pos)
      else findLoop links data hit head fuel (links.next pos) 0
    else findLoop links data hit head fuel (links.next pos) found

/-- A search in a table, with `junk` in the variable before it is set. -/
def listFind (t : Table w.links) (hit : Nat → Bool) (junk : Nat) : Option Nat :=
  findLoop w.links w.data hit t.head (t.nodes.length + 1) (w.links.next t.head) junk

/-! ## 3. The eleven functions -/

def teeContextFindByPid (junk : Nat) (pid : UInt32) : Option Nat :=
  listFind w w.teeContexts (fun ctx => (w.context ctx).pid = pid) junk

def teeContextFindById (junk : Nat) (id : UInt32) : Option Nat :=
  listFind w w.teeContexts (fun ctx => (w.context ctx).id = id) junk

def teeContextFindByTzid (junk : Nat) (tzid : UInt32) : Option Nat :=
  listFind w w.teeContexts (fun ctx => (w.context ctx).tzId = tzid) junk

def teeSessionFindById (junk : Nat) (id : UInt32) : Option Nat :=
  listFind w w.teeSessions (fun session => (w.session session).id = id) junk

def teeSessionFindByCtx (junk : Nat) (ctx : Nat) : Option Nat :=
  listFind w w.teeSessions (fun session => (w.session session).ctx = ctx) junk

def teeSessionFindByTzid (junk : Nat) (tzid : UInt32) : Option Nat :=
  listFind w w.teeSessions (fun session => (w.session session).tzId = tzid) junk

def teeMemoryFindById (junk : Nat) (id : UInt32) : Option Nat :=
  listFind w w.teeMemories (fun mem => (w.memory mem).id = id) junk

def teeMemoryFindByTzid (junk : Nat) (tzid : UInt32) : Option Nat :=
  listFind w w.teeMemories (fun mem => (w.memory mem).tzId = tzid) junk

def teeMemoryFindByCtx (junk : Nat) (ctx : Nat) : Option Nat :=
  listFind w w.teeMemories (fun mem => (w.memory mem).ctx = ctx) junk

def teeMemoryFindByPaddr (junk : Nat) (paddr : UInt32) : Option Nat :=
  listFind w w.teeMemories (fun mem => (w.memory mem).comPaddr = paddr) junk

def teeTmpMemoryFindByPaddr (junk : Nat) (paddr : UInt32) : Option Nat :=
  listFind w w.teeTmpMemories (fun mem => (w.memory mem).comPaddr = paddr) junk

/-- A call of one of them. -/
inductive FindCall where
  | contextByPid (pid : UInt32)
  | contextById (id : UInt32)
  | contextByTzid (tzid : UInt32)
  | sessionById (id : UInt32)
  | sessionByCtx (ctx : Nat)
  | sessionByTzid (tzid : UInt32)
  | memoryById (id : UInt32)
  | memoryByTzid (tzid : UInt32)
  | memoryByCtx (ctx : Nat)
  | memoryByPaddr (paddr : UInt32)
  | tmpMemoryByPaddr (paddr : UInt32)

/-- What the call returns. -/
def FindCall.run (junk : Nat) : FindCall → Option Nat
  | .contextByPid pid => teeContextFindByPid w junk pid
  | .contextById id => teeContextFindById w junk id
  | .contextByTzid tzid => teeContextFindByTzid w junk tzid
  | .sessionById id => teeSessionFindById w junk id
  | .sessionByCtx ctx => teeSessionFindByCtx w junk ctx
  | .sessionByTzid tzid => teeSessionFindByTzid w junk tzid
  | .memoryById id => teeMemoryFindById w junk id
  | .memoryByTzid tzid => teeMemoryFindByTzid w junk tzid
  | .memoryByCtx ctx => teeMemoryFindByCtx w junk ctx
  | .memoryByPaddr paddr => teeMemoryFindByPaddr w junk paddr
  | .tmpMemoryByPaddr paddr => teeTmpMemoryFindByPaddr w junk paddr

/-! ## 4. What is asked of a call -/

/-- The table that the function is named after. -/
def FindCall.table : FindCall → Table w.links
  | .contextByPid _ | .contextById _ | .contextByTzid _ => w.teeContexts
  | .sessionById _ | .sessionByCtx _ | .sessionByTzid _ => w.teeSessions
  | .memoryById _ | .memoryByTzid _ | .memoryByCtx _ | .memoryByPaddr _ => w.teeMemories
  | .tmpMemoryByPaddr _ => w.teeTmpMemories

/-- The key field of the entry at an address is the argument. -/
def FindCall.hit : FindCall → Nat → Bool
  | .contextByPid pid, e => (w.context e).pid = pid
  | .contextById id, e => (w.context e).id = id
  | .contextByTzid tzid, e => (w.context e).tzId = tzid
  | .sessionById id, e => (w.session e).id = id
  | .sessionByCtx ctx, e => (w.session e).ctx = ctx
  | .sessionByTzid tzid, e => (w.session e).tzId = tzid
  | .memoryById id, e => (w.memory e).id = id
  | .memoryByTzid tzid, e => (w.memory e).tzId = tzid
  | .memoryByCtx ctx, e => (w.memory e).ctx = ctx
  | .memoryByPaddr paddr, e => (w.memory e).comPaddr = paddr
  | .tmpMemoryByPaddr paddr, e => (w.memory e).comPaddr = paddr

/-- The entries at some nodes. -/
def dataOf (data : Nat → Nat) (nodes : List Nat) : List Nat := (nodes.map data).filter (· ≠ 0)

/-- The entries of a table, in the order of its nodes. -/
def TeeTables.entries (t : Table w.links) : List Nat := dataOf w.data t.nodes

/-- The call returns an entry of its table with the key if there is one, and `NULL` otherwise. -/
def FindRight (junk : Nat) (c : FindCall) : Prop :=
  ∃ r, c.run w junk = some r ∧
    ((∃ e ∈ w.entries (c.table w), c.hit w e = true) →
      r ∈ w.entries (c.table w) ∧ c.hit w r = true) ∧
    ((¬∃ e ∈ w.entries (c.table w), c.hit w e = true) → r = 0)

/-! ## 5. What the loop returns -/

section Loop

variable {links : Links Nat} {data : Nat → Nat} {hit : Nat → Bool} {head : Nat}

/-- The result behind some entries: the first with the key, `NULL` if none has it, and what was there
before if there are no entries. -/
def foundIn (hit : Nat → Bool) (found : Nat) (entries : List Nat) : Nat :=
  (entries.find? hit).getD (if entries.isEmpty then found else 0)

/-- An entry without the key leaves `NULL`. -/
theorem foundIn_cons {found e : Nat} {entries : List Nat} (hmiss : hit e = false) :
    foundIn hit found (e :: entries) = foundIn hit 0 entries := by
  rw [foundIn, foundIn, List.find?_cons_of_neg (by simp [hmiss]), List.isEmpty_cons]
  cases entries <;> rfl

/-- The loop from behind a node, by induction on the nodes that are left. -/
theorem findLoop_chain : ∀ {nodes : List Nat} {a fuel found : Nat},
    (a :: nodes ++ [head]).IsChain (Joined links) → head ∉ nodes → nodes.length < fuel →
      findLoop links data hit head fuel (links.next a) found =
        some (foundIn hit found (dataOf data nodes))
  | [], a, fuel, found, h, _, hfuel => by
    obtain ⟨k, rfl⟩ := Nat.exists_eq_add_of_lt hfuel
    have hnext : links.next a = head := by simpa [Joined] using (List.isChain_cons_cons.mp h).1.1
    simp [findLoop, hnext, foundIn, dataOf]
  | y :: nodes, a, fuel, found, h, hnodes, hfuel => by
    obtain ⟨k, rfl⟩ := Nat.exists_eq_add_of_lt hfuel
    obtain ⟨hay, hrest⟩ := List.isChain_cons_cons.mp h
    have hy : y ≠ head := fun e => hnodes (e ▸ List.mem_cons_self)
    have hlen : nodes.length < (y :: nodes).length + k := by
      rw [List.length_cons]
      omega
    have ih : ∀ found, findLoop links data hit head ((y :: nodes).length + k) (links.next y) found =
        some (foundIn hit found (dataOf data nodes)) :=
      fun found => findLoop_chain hrest (fun hm => hnodes (List.mem_cons_of_mem _ hm)) hlen
    rw [findLoop, hay.1, if_neg hy]
    by_cases hnull : data y = 0
    · -- a node without an entry is passed over
      have hskip : dataOf data (y :: nodes) = dataOf data nodes := by simp [dataOf, hnull]
      rw [if_neg (by simp [hnull]), hskip]
      exact ih found
    · have hentry : dataOf data (y :: nodes) = data y :: dataOf data nodes := by simp [dataOf, hnull]
      rw [if_pos hnull, hentry]
      cases hkey : hit (data y) with
      | true => simp [foundIn, hkey]
      | false =>
        rw [foundIn_cons hkey, if_neg (by decide)]
        exact ih 0

/-- **What the loop returns**, for any list. -/
theorem findLoop_ring {nodes : List Nat} {found : Nat} (h : IsRing links head nodes) :
    findLoop links data hit head (nodes.length + 1) (links.next head) found =
      some (foundIn hit found (dataOf data nodes)) :=
  findLoop_chain h.joined (List.nodup_cons.mp h.nodup).1 (Nat.lt_succ_self _)

/-- The first entry with the key is one. -/
theorem foundIn_of_mem {found e : Nat} {entries : List Nat} (he : e ∈ entries) (hkey : hit e = true) :
    foundIn hit found entries ∈ entries ∧ hit (foundIn hit found entries) = true := by
  obtain ⟨x, hfind, hx⟩ := exists_find_of_mem he hkey
  have hfound : foundIn hit found entries = x := by rw [foundIn, hfind, Option.getD_some]
  rw [hfound]
  exact ⟨List.mem_of_find?_eq_some hfind, hx⟩

/-- Without an entry with the key. -/
theorem foundIn_of_not_exists {found : Nat} {entries : List Nat}
    (hnone : ¬∃ e ∈ entries, hit e = true) :
    foundIn hit found entries = if entries.isEmpty then found else 0 := by
  have hfind : entries.find? hit = none := by
    refine List.find?_eq_none.mpr fun e he hkey => hnone ⟨e, he, hkey⟩
  rw [foundIn, hfind, Option.getD_none]

end Loop

variable {w}

theorem listFind_eq (t : Table w.links) (hit : Nat → Bool) (junk : Nat) :
    listFind w t hit junk = some (foundIn hit junk (w.entries t)) := findLoop_ring t.ring

/-- Each function is the search for its key in its table. -/
theorem FindCall.run_eq (c : FindCall) (junk : Nat) :
    c.run w junk = some (foundIn (c.hit w) junk (w.entries (c.table w))) := by
  cases c <;> exact listFind_eq _ _ _

/-- **The searches of the other modules.**  Where `lookup` has a value, it is what the function
returns. -/
theorem lookup_listFind {t : Table w.links} {hit : Nat → Bool} {junk : Nat} {r : Option Nat}
    (h : lookup (decide (junk = 0)) hit (w.entries t) = some r) :
    listFind w t hit junk = some (r.getD 0) := by
  have hfind : (w.entries t).find? hit = r := by
    cases r with
    | none => exact lookup_eq_none h
    | some e => exact lookup_eq_some h
  rw [listFind_eq, foundIn, hfind]
  cases hempty : (w.entries t).isEmpty with
  | false => rfl
  | true =>
    have hjunk : junk = 0 := by
      by_contra hne
      rw [lookup, hempty, decide_eq_false hne] at h
      cases h
    rw [hjunk]
    rfl

/-! ## 6. Which calls are right -/

/-- **A call returns what it is asked for** if its table has an entry, or the variable happens to hold
`NULL`, and only then. -/
theorem findCall_right_iff (w : TeeTables) (junk : Nat) (c : FindCall) :
    FindRight w junk c ↔ w.entries (c.table w) ≠ [] ∨ junk = 0 := by
  constructor
  · rintro ⟨r, hrun, -, hnull⟩
    obtain rfl := Option.some.inj ((c.run_eq junk).symm.trans hrun)
    refine or_iff_not_imp_left.mpr fun hempty => ?_
    rw [not_not] at hempty
    have hnone : ¬∃ e ∈ w.entries (c.table w), c.hit w e = true := by simp [hempty]
    have hzero := hnull hnone
    rwa [foundIn_of_not_exists hnone, hempty, List.isEmpty_nil, if_pos rfl] at hzero
  · intro h
    refine ⟨_, c.run_eq junk, ?_, fun hnone => ?_⟩
    · rintro ⟨e, he, hkey⟩
      exact foundIn_of_mem he hkey
    · rw [foundIn_of_not_exists hnone]
      split
      · exact h.resolve_left fun hne => hne (List.isEmpty_iff.mp ‹_›)
      · rfl

/-- Four lists without an entry, with their heads at 4, 8, 12 and 16. -/
def emptyTables : TeeTables where
  links := ⟨id, id⟩
  data _ := 0
  context _ := ⟨0, 0, 0⟩
  session _ := ⟨0, 0, 0⟩
  memory _ := ⟨0, 0, 0, 0⟩
  teeContexts := ⟨4, [], isRing_single rfl rfl⟩
  teeSessions := ⟨8, [], isRing_single rfl rfl⟩
  teeMemories := ⟨12, [], isRing_single rfl rfl⟩
  teeTmpMemories := ⟨16, [], isRing_single rfl rfl⟩

/-- **An empty table** gives back what the stack held. -/
theorem empty_table_returns_junk :
    teeContextFindById emptyTables 51966 7 = some 51966 ∧
      ¬FindRight emptyTables 51966 (.contextById 7) := by
  refine ⟨by decide, ?_⟩
  rintro ⟨r, hrun, -, hnull⟩
  obtain rfl := Option.some.inj hrun
  have hnone : ¬∃ e ∈ emptyTables.entries emptyTables.teeContexts,
      (FindCall.contextById 7).hit emptyTables e = true := by
    rintro ⟨e, he, -⟩
    exact List.not_mem_nil he
  exact absurd (hnull hnone) (by decide)

end AndixOs.Driver.Loops
