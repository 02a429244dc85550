/-
# The queue of the service

`queue_put` has two branches, and makes both times one node that is the only one: where the queue is
not empty it walks to the last node, but then hangs the new one behind the head, and all that was
waiting is lost.  The node is allocated with the size of a pointer, and has room for its second field
only if the block happens to be larger.

So a queue delivers what was put into it, and writes only where it may, exactly on the runs in which
each value is put after all others were returned, into a block of eight bytes (`queue_kept_iff`).
-/
import AndixOs.Lib.Mem32
import AndixOs.Lib.Run

namespace AndixOs.Task

open AndixOs

/-! ## 1. `queue.c` -/

/-- The memory, and the fields that were written: the node and the offset of the field. -/
structure QueueMem where
  mem : Mem
  wrote : List (Nat × Nat)

/-- The fields of a node, `data` at 0 and `previous` at 4. -/
def QueueMem.data (q : QueueMem) (node : Nat) : Nat := load32 q.mem node
def QueueMem.previous (q : QueueMem) (node : Nat) : Nat := load32 q.mem (node + 4)

def QueueMem.setData (q : QueueMem) (node v : Nat) : QueueMem :=
  ⟨store32 q.mem node v, q.wrote ++ [(node, 0)]⟩

def QueueMem.setPrevious (q : QueueMem) (node v : Nat) : QueueMem :=
  ⟨store32 q.mem (node + 4) v, q.wrote ++ [(node, 4)]⟩

/-- `sizeof(queue)`. -/
def sizeofQueue : Nat := 8
/-- `sizeof(que)`, where `que` is a pointer. -/
def sizeofQue : Nat := 4

/-- `queue_init`, in the block that `kmalloc` returns. -/
def queueInit (q : QueueMem) (nq : Nat) : QueueMem := (q.setData nq 0).setPrevious nq 0

/-- The loop of `queue_put`; `none`: it is still going. -/
def queueLast (q : QueueMem) : Nat → Nat → Option Nat
  | 0, _ => none
  | fuel + 1, ptr => if q.previous ptr ≠ 0 then queueLast q fuel (q.previous ptr) else some ptr

/-- What both branches of `queue_put` do with what `kmalloc` returns. -/
def queueNode (q : QueueMem) (que data : Nat) : Option Nat → QueueMem × Int
  | none => (q.setPrevious que 0, -1)
  | some block =>
    let q := q.setPrevious que block
    let q := q.setData (q.previous que) data
    let q := q.setPrevious (q.previous que) 0
    (q, 0)

/-- `queue_put`; `none` where it does not come back. -/
def queuePut (q : QueueMem) (que data : Nat) (block : Option Nat) (fuel : Nat) :
    Option (QueueMem × Int) :=
  if data = 0 then some (q, -1)
  else if q.previous que = 0 then some (queueNode q que data block)
  else (queueLast q fuel que).map fun _ => queueNode q que data block

/-- `queue_get`: what it returns, and the node that it frees. -/
def queueGet (q : QueueMem) (que : Nat) : QueueMem × Nat × Option Nat :=
  if q.previous que ≠ 0 then
    let ptr := q.previous que
    let q := q.setPrevious que (q.previous ptr)
    (q, q.data ptr, some ptr)
  else (q, 0, none)

/-- What so many calls of `queue_get` return. -/
def getCalls (q : QueueMem) (que : Nat) : Nat → List Nat
  | 0 => []
  | n + 1 => (queueGet q que).2.1 :: getCalls (queueGet q que).1 que n

/-! ## 2. Histories of a queue -/

/-- A queue, the blocks that it has from `kmalloc` with their sizes, and what was put and not yet
returned, for the record.  `q.wrote` is what the last call wrote. -/
structure QueueRun where
  q : QueueMem
  que : Nat
  allocs : List (Nat × Nat)
  pending : List Nat

/-- An empty queue in a block of its own. -/
def QueueRun.init (mem : Mem) (que : Nat) : QueueRun :=
  ⟨queueInit ⟨mem, []⟩ que, que, [(que, sizeofQueue)], []⟩

/-- The calls, with the block that `kmalloc` returns and how large it is; and what the rest of the
kernel writes in between. -/
inductive QueueCall where
  | put (data block size : Nat)
  | get
  | other (mem : Mem)

/-- The block is no part of the others. -/
def BlockApart (allocs : List (Nat × Nat)) (block size : Nat) : Prop :=
  ∀ x ∈ allocs, block + size ≤ x.1 ∨ x.1 + x.2 ≤ block

instance (allocs : List (Nat × Nat)) (block size : Nat) : Decidable (BlockApart allocs block size) :=
  inferInstanceAs (Decidable (∀ x ∈ allocs, _))

/-- One call.  A block that `kmalloc` returns is at least as large as asked for; the rest of the
kernel leaves the blocks of the queue alone. -/
inductive QueueStep : QueueRun → QueueCall → QueueRun → Prop where
  | put {s : QueueRun} {data block size : Nat} {r : QueueMem × Int} :
    data ≠ 0 → data < 4294967296 → block ≠ 0 → block + size ≤ 4294967296 → sizeofQue ≤ size →
      BlockApart s.allocs block size →
      queuePut ⟨s.q.mem, []⟩ s.que data (some block) (s.allocs.length + 1) = some r →
      QueueStep s (.put data block size)
        { s with q := r.1, allocs := s.allocs ++ [(block, size)], pending := s.pending ++ [data] }
  | get {s : QueueRun} {q : QueueMem} {v : Nat} {freed : Option Nat} :
    queueGet ⟨s.q.mem, []⟩ s.que = (q, v, freed) →
      QueueStep s .get
        { s with
          q := q
          allocs := s.allocs.filter fun x => freed ≠ some x.1
          pending := s.pending.tail }
  | other {s : QueueRun} {mem : Mem} :
    (∀ x ∈ s.allocs, ∀ y, x.1 ≤ y → y < x.1 + x.2 → mem y = s.q.mem y) →
      QueueStep s (.other mem) { s with q := ⟨mem, []⟩ }

/-- What was put and not returned is what the next calls of `queue_get` return, in order and each
once, and then `NULL`; and the last call wrote to nodes only inside their own blocks. -/
structure QueueKept (s : QueueRun) : Prop where
  delivers : ∀ k, getCalls s.q s.que (s.pending.length + k) = s.pending ++ List.replicate k 0
  inside : ∀ w ∈ s.q.wrote, ∃ x ∈ s.allocs, x.1 = w.1 ∧ w.2 + 4 ≤ x.2

/-- A value is put when all others were returned, into a block with room for a node. -/
def putsAlone (s : QueueRun) : QueueCall → Prop
  | .put _ _ size => s.pending = [] ∧ sizeofQueue ≤ size
  | _ => True

variable {q : QueueMem} {que data block size node d : Nat} {s t : QueueRun}

/-! ## 3. The operations -/

/-- Two nodes that do not overlap. -/
def NodesApart (a b : Nat) : Prop := a + 8 ≤ b ∨ b + 8 ≤ a

/-- What is written to a field is read from it. -/
theorem previous_setPrevious {v : Nat} (hv : v < 4294967296) :
    (q.setPrevious node v).previous node = v :=
  (load32_store32 _ _ _).trans (w32_of_lt hv)

theorem data_setData {v : Nat} (hv : v < 4294967296) : (q.setData node v).data node = v :=
  (load32_store32 _ _ _).trans (w32_of_lt hv)

/-- Writing one field leaves a field elsewhere. -/
theorem previous_setPrevious_of_ne {a v : Nat} (h : a + 4 ≤ node ∨ node + 4 ≤ a) :
    (q.setPrevious node v).previous a = q.previous a := by
  have hword : a + 4 + 4 ≤ node + 4 ∨ node + 4 + 4 ≤ a + 4 := by omega
  exact load32_store32_of_ne hword

theorem previous_setData_of_ne {a v : Nat} (h : a + 8 ≤ node ∨ node ≤ a) :
    (q.setData node v).previous a = q.previous a := by
  have hword : a + 4 + 4 ≤ node ∨ node + 4 ≤ a + 4 := by omega
  exact load32_store32_of_ne hword

theorem data_setPrevious_of_ne {a v : Nat} (h : a ≤ node ∨ node + 8 ≤ a) :
    (q.setPrevious node v).data a = q.data a := by
  have hword : a + 4 ≤ node + 4 ∨ node + 4 + 4 ≤ a := by omega
  exact load32_store32_of_ne hword

/-- **What both branches do**, when the first field of the new node is apart from the head. -/
theorem queueNode_eq (hblock : block < 4294967296) (hapart : que + 8 ≤ block ∨ block + 4 ≤ que) :
    queueNode q que data (some block) =
      (((q.setPrevious que block).setData block data).setPrevious block 0, 0) := by
  have hprev : (q.setPrevious que block).previous que = block := previous_setPrevious hblock
  have hkeep : ((q.setPrevious que block).setData block data).previous que = block := by
    rw [previous_setData_of_ne (by omega), hprev]
  simp only [queueNode, hprev, hkeep]

/-- **A new node** is the only one. -/
theorem queueNode_spec (hapart : NodesApart que block) (hblock : block < 4294967296)
    (hdata : data < 4294967296) :
    (queueNode q que data (some block)).1.previous que = block ∧
      (queueNode q que data (some block)).1.data block = data ∧
      (queueNode q que data (some block)).1.previous block = 0 := by
  unfold NodesApart at hapart
  rw [queueNode_eq hblock (by omega)]
  refine ⟨?_, ?_, ?_⟩
  · rw [previous_setPrevious_of_ne (by omega), previous_setData_of_ne (by omega),
      previous_setPrevious hblock]
  · rw [data_setPrevious_of_ne (by omega), data_setData hdata]
  · exact previous_setPrevious (by decide)

/-- What a new node writes. -/
theorem queueNode_wrote (hblock : block < 4294967296) (hapart : que + 8 ≤ block ∨ block + 4 ≤ que) :
    (queueNode q que data (some block)).1.wrote =
      q.wrote ++ [(que, 4), (block, 0), (block, 4)] := by
  rw [queueNode_eq hblock hapart]
  simp [QueueMem.setPrevious, QueueMem.setData]

/-- Where nothing is put, `queue_put` makes a node. -/
theorem queuePut_eq {fuel : Nat} {r : QueueMem × Int} (hdata : data ≠ 0)
    (h : queuePut q que data (some block) fuel = some r) : r = queueNode q que data (some block) := by
  unfold queuePut at h
  rw [if_neg hdata] at h
  split at h
  · exact (Option.some.inj h).symm
  · obtain ⟨_, -, rfl⟩ := Option.map_eq_some_iff.mp h
    rfl

/-- An empty queue returns `NULL` for ever. -/
theorem getCalls_empty (h : q.previous que = 0) : ∀ k, getCalls q que k = List.replicate k 0
  | 0 => rfl
  | k + 1 => by
    have hget : queueGet q que = (q, 0, none) := if_neg (not_not.mpr h)
    rw [getCalls, hget, getCalls_empty h k]
    rfl

/-- A queue of one node. -/
structure OneNode (q : QueueMem) (que node d : Nat) : Prop where
  apart : NodesApart que node
  nonzero : node ≠ 0
  previous : q.previous que = node
  data : q.data node = d
  last : q.previous node = 0

/-- **`queue_get`** of the only node leaves an empty queue. -/
theorem OneNode.get (h : OneNode q que node d) :
    queueGet q que = (q.setPrevious que 0, d, some node) ∧
      (q.setPrevious que 0).previous que = 0 := by
  have hne : q.previous que ≠ 0 := h.previous ▸ h.nonzero
  have hapart := h.apart
  unfold NodesApart at hapart
  have hdata : (q.setPrevious que 0).data node = d := by
    rw [data_setPrevious_of_ne (by omega), h.data]
  constructor
  · rw [queueGet, if_pos hne]
    simp only [h.previous, h.last, hdata]
  · exact previous_setPrevious (by decide)

/-- It returns the value once. -/
theorem OneNode.getCalls (h : OneNode q que node d) (k : Nat) :
    getCalls q que (k + 1) = d :: List.replicate k 0 := by
  rw [Task.getCalls, h.get.1, getCalls_empty h.get.2]

/-! ## 4. The invariant -/

/-- Both fields fit into a node. -/
theorem fields_fit : 0 + 4 ≤ sizeofQueue ∧ 4 + 4 ≤ sizeofQueue := by decide

/-- The queue holds one value or none, in blocks with room for a node. -/
structure QueueInv (s : QueueRun) : Prop where
  head : (s.que, sizeofQueue) ∈ s.allocs
  inside : ∀ w ∈ s.q.wrote, ∃ x ∈ s.allocs, x.1 = w.1 ∧ w.2 + 4 ≤ x.2
  holds : s.pending = [] ∧ s.q.previous s.que = 0 ∨
    ∃ d node size, s.pending = [d] ∧ OneNode s.q s.que node d ∧ (node, size) ∈ s.allocs ∧
      sizeofQueue ≤ size

theorem QueueInv.start (mem : Mem) (que : Nat) : QueueInv (QueueRun.init mem que) where
  head := List.mem_singleton_self _
  inside := by
    intro w hw
    have hmem : w = (que, 0) ∨ w = (que, 4) := by
      simpa [QueueRun.init, queueInit, QueueMem.setData, QueueMem.setPrevious] using hw
    refine ⟨(que, sizeofQueue), List.mem_singleton_self _, ?_⟩
    rcases hmem with rfl | rfl
    · exact ⟨rfl, fields_fit.1⟩
    · exact ⟨rfl, fields_fit.2⟩
  holds := Or.inl ⟨rfl, previous_setPrevious (by decide)⟩

theorem QueueInv.kept (h : QueueInv s) : QueueKept s where
  delivers k := by
    rcases h.holds with ⟨hp, hnull⟩ | ⟨d, node, size, hp, hone, -, -⟩
    · rw [hp, List.length_nil, Nat.zero_add, getCalls_empty hnull]
      rfl
    · rw [hp, List.length_singleton, Nat.add_comm, hone.getCalls]
      rfl
  inside := h.inside

/-- The block of a new node is no part of the head. -/
theorem QueueInv.apart (h : QueueInv s) (happ : BlockApart s.allocs block size) :
    block + size ≤ s.que ∨ s.que + 8 ≤ block :=
  happ _ h.head

/-- A put that meets the condition. -/
theorem QueueInv.put (h : QueueInv s) (hp : s.pending = []) (hsize : sizeofQueue ≤ size)
    (hdata : data < 4294967296) (hblock : block ≠ 0) (hend : block + size ≤ 4294967296)
    (happ : BlockApart s.allocs block size) :
    QueueInv { s with
      q := (queueNode ⟨s.q.mem, []⟩ s.que data (some block)).1
      allocs := s.allocs ++ [(block, size)]
      pending := s.pending ++ [data] } := by
  unfold sizeofQueue at hsize
  have hque := h.apart happ
  have hnodes : NodesApart s.que block := by
    unfold NodesApart
    omega
  obtain ⟨hprev, hd, hlast⟩ := queueNode_spec (q := ⟨s.q.mem, []⟩) hnodes (by omega) hdata
  constructor
  · exact List.mem_append_left _ h.head
  · rw [queueNode_wrote (by omega) (by omega)]
    intro w hw
    have hmem : w = (s.que, 4) ∨ w = (block, 0) ∨ w = (block, 4) := by simpa using hw
    rcases hmem with rfl | rfl | rfl
    · exact ⟨_, List.mem_append_left _ h.head, rfl, fields_fit.2⟩
    · exact ⟨_, List.mem_append_right _ (List.mem_singleton_self _), rfl, by dsimp only; omega⟩
    · exact ⟨_, List.mem_append_right _ (List.mem_singleton_self _), rfl, by dsimp only; omega⟩
  · refine Or.inr ⟨data, block, size, by simp [hp], ⟨hnodes, hblock, hprev, hd, hlast⟩, ?_, hsize⟩
    exact List.mem_append_right _ (List.mem_singleton_self _)

/-- A put that does not: the value before is lost, or the node does not fit. -/
theorem QueueInv.not_kept (h : QueueInv s) (hbad : ¬ (s.pending = [] ∧ sizeofQueue ≤ size))
    (hzero : data ≠ 0) (hdata : data < 4294967296) (hblock : block ≠ 0)
    (hend : block + size ≤ 4294967296) (hmin : sizeofQue ≤ size)
    (happ : BlockApart s.allocs block size) :
    ¬ QueueKept { s with
      q := (queueNode ⟨s.q.mem, []⟩ s.que data (some block)).1
      allocs := s.allocs ++ [(block, size)]
      pending := s.pending ++ [data] } := by
  intro hkept
  unfold sizeofQue at hmin
  have hque := h.apart happ
  have hwrote : (queueNode ⟨s.q.mem, []⟩ s.que data (some block)).1.wrote =
      [(s.que, 4), (block, 0), (block, 4)] := queueNode_wrote (by omega) (by omega)
  -- the second field of the node is inside its block
  obtain ⟨x, hx, hx1, hx2⟩ := hkept.inside (block, 4) (by simp [hwrote])
  have hfits : 8 ≤ size := by
    rcases List.mem_append.mp hx with hx | hx
    · have := happ x hx
      dsimp only at hx1 hx2
      omega
    · obtain rfl := List.mem_singleton.mp hx
      exact hx2
  rcases h.holds with ⟨hp, -⟩ | ⟨d, node, size', hp, -, -, -⟩
  · exact hbad ⟨hp, hfits⟩
  have hnodes : NodesApart s.que block := by
    unfold NodesApart
    omega
  obtain ⟨hprev, hd, hlast⟩ := queueNode_spec (q := ⟨s.q.mem, []⟩) hnodes (by omega) hdata
  have hone : OneNode (queueNode ⟨s.q.mem, []⟩ s.que data (some block)).1 s.que block data :=
    ⟨hnodes, hblock, hprev, hd, hlast⟩
  have hget := hkept.delivers 0
  rw [hp] at hget
  have hlist : [data, 0] = [d, data] := (hone.getCalls 1).symm.trans hget
  exact hzero (List.cons.inj (List.cons.inj hlist).2).1.symm

/-- A get. -/
theorem QueueInv.get (h : QueueInv s) {q : QueueMem} {v : Nat} {freed : Option Nat}
    (hget : queueGet ⟨s.q.mem, []⟩ s.que = (q, v, freed)) :
    QueueInv { s with
      q := q
      allocs := s.allocs.filter fun x => freed ≠ some x.1
      pending := s.pending.tail } := by
  rcases h.holds with ⟨hp, hnull⟩ | ⟨d, node, size, hp, hone, -, -⟩
  · have hempty : queueGet ⟨s.q.mem, []⟩ s.que = (⟨s.q.mem, []⟩, 0, none) := if_neg (not_not.mpr hnull)
    obtain ⟨rfl, rfl, rfl⟩ : QueueMem.mk s.q.mem [] = q ∧ 0 = v ∧ none = freed := by
      simpa using hempty.symm.trans hget
    refine ⟨?_, nofun, Or.inl ⟨by simp [hp], hnull⟩⟩
    simpa using h.head
  · have hone' : OneNode ⟨s.q.mem, []⟩ s.que node d :=
      ⟨hone.apart, hone.nonzero, hone.previous, hone.data, hone.last⟩
    obtain ⟨hres, hnull⟩ := hone'.get
    obtain ⟨rfl, rfl, rfl⟩ : QueueMem.setPrevious ⟨s.q.mem, []⟩ s.que 0 = q ∧ d = v ∧
        some node = freed := by
      simpa using hres.symm.trans hget
    have hne : node ≠ s.que := by
      have hapart := hone.apart
      unfold NodesApart at hapart
      omega
    have hhead : (s.que, sizeofQueue) ∈ s.allocs.filter fun x => some node ≠ some x.1 := by
      simp [h.head, hne]
    refine ⟨hhead, fun w hw => ?_, Or.inl ⟨by simp [hp], hnull⟩⟩
    obtain rfl : w = (s.que, 4) := by simpa [QueueMem.setPrevious] using hw
    exact ⟨_, hhead, rfl, fields_fit.2⟩

/-- What the rest of the kernel writes. -/
theorem QueueInv.other (h : QueueInv s) {mem : Mem}
    (hsame : ∀ x ∈ s.allocs, ∀ y, x.1 ≤ y → y < x.1 + x.2 → mem y = s.q.mem y) :
    QueueInv { s with q := ⟨mem, []⟩ } := by
  have hword : ∀ (a n off : Nat), (a, n) ∈ s.allocs → off + 4 ≤ n →
      load32 mem (a + off) = load32 s.q.mem (a + off) := by
    intro a n off ha hoff
    exact load32_congr fun y hlo hhi => hsame _ ha y (by dsimp only; omega) (by dsimp only; omega)
  have hprev : load32 mem (s.que + 4) = load32 s.q.mem (s.que + 4) := hword _ _ 4 h.head fields_fit.2
  refine ⟨h.head, nofun, h.holds.imp ?_ ?_⟩
  · rintro ⟨hp, hnull⟩
    exact ⟨hp, hprev.trans hnull⟩
  · rintro ⟨d, node, size, hp, hone, hmem, hsize⟩
    unfold sizeofQueue at hsize
    refine ⟨d, node, size, hp, ⟨hone.apart, hone.nonzero, hprev.trans hone.previous, ?_, ?_⟩, hmem,
      hsize⟩
    · exact (hword _ _ 0 hmem (by omega)).trans hone.data
    · exact (hword _ _ 4 hmem (by omega)).trans hone.last

/-! ## 5. Every run -/

/-- **A queue delivers** what was put into it, and writes only inside its blocks, exactly when each
value is put after all others were returned, into a block with room for a node. -/
theorem queue_kept_iff {mem : Mem} {calls : List QueueCall} :
    Run (fun s c t => QueueStep s c t ∧ QueueKept t) (QueueRun.init mem que) calls t ↔
      Run (Guarded putsAlone QueueStep) (QueueRun.init mem que) calls t := by
  refine Run.good_iff (fun s h => QueueInv.kept h) ?_ ?_ (QueueInv.start mem que)
  · intro s c t h hstep hok
    cases hstep with
    | put hzero hdata hblock hend hmin happ hput =>
      rw [queuePut_eq hzero hput]
      exact h.put hok.1 hok.2 hdata hblock hend happ
    | get hget => exact h.get hget
    | other hsame => exact h.other hsame
  · intro s c t h hstep hbad
    cases hstep with
    | put hzero hdata hblock hend hmin happ hput =>
      rw [queuePut_eq hzero hput]
      exact h.not_kept hbad hzero hdata hblock hend hmin happ
    | get hget => exact absurd trivial hbad
    | other hsame => exact absurd trivial hbad

/-- Of two values the second is returned, and then `NULL`; and a block of the size that is asked for
is too small. -/
theorem queue_not_kept :
    (∃ t, Run QueueStep (QueueRun.init (fun _ => 0) 0x100) [.put 7 0x200 8, .put 9 0x300 8] t ∧
      getCalls t.q t.que 2 = [9, 0] ∧ ¬ QueueKept t) ∧
    ∃ t, Run QueueStep (QueueRun.init (fun _ => 0) 0x100) [.put 7 0x200 sizeofQue] t ∧
      ¬ QueueKept t := by
  constructor
  · refine ⟨_, .cons (.put (by decide) (by decide) (by decide) (by decide) (by decide) ?_ rfl)
      (.cons (.put (by decide) (by decide) (by decide) (by decide) (by decide) ?_ rfl) (.nil _)),
      ?_, fun h => absurd (h.delivers 0) ?_⟩
    · decide
    · decide
    · decide +kernel
    · decide +kernel
  · refine ⟨_, .cons (.put (by decide) (by decide) (by decide) (by decide) (by decide) ?_ rfl)
      (.nil _), fun h => ?_⟩
    · decide
    · obtain ⟨x, hx, hx1, hx2⟩ := h.inside (0x200, 4) (by decide)
      have hall : ∀ x ∈ [(0x100, sizeofQueue), (0x200, sizeofQue)], x.1 = 0x200 →
          ¬ 4 + 4 ≤ x.2 := by
        decide
      exact hall x hx hx1 hx2

end AndixOs.Task
