/-
# Open files of a process

A process keeps the handles of its open files in a circular list, `proc->files`.  `swi_open` adds a
handle at the end under the first descriptor that is not in use, and `swi_close` takes it out and
frees it.  But `find_data` begins its walk behind the head: the handle that was opened first is
never found, so it is freed and stays in the list (`files_kept_iff`).
-/
import AndixOs.Lib.Ring
import AndixOs.Lib.Run
import Mathlib.Data.List.Find
import Mathlib.Data.List.Perm.Subperm

namespace AndixOs.Task

open AndixOs

/-! ## 1. `locked_list.c` -/

/-- `task_file_handle_t`; the file is a `cfs_t`. -/
structure FileHandle where
  userFd : Int
  data : Option Nat
  deriving DecidableEq

/-- The list `proc->files` in the memory of the kernel: what the nodes and the handles hold, and the
blocks that `kmalloc` gave away for them and `kfree` has not taken back. -/
structure Files where
  head : Option Nat
  links : Links Nat
  data : Nat → Nat
  handles : Nat → FileHandle
  live : List Nat

/-- `locked_list_init` of a process with no block of its own. -/
def Files.init : Files := ⟨none, ⟨id, id⟩, fun _ => 0, fun _ => ⟨0, none⟩, []⟩

def Files.kmalloc (f : Files) (block : Nat) : Files := { f with live := block :: f.live }
def Files.kfree (f : Files) (block : Nat) : Files := { f with live := f.live.filter (· != block) }
def Files.setHandle (f : Files) (hdl : Nat) (h : FileHandle) : Files :=
  { f with handles := Function.update f.handles hdl h }

/-- Enough steps for a walk round the list: a node is a live block. -/
def Files.fuel (f : Files) : Nat := f.live.length + 1

/-- `find_data`, with `list_for_each`; the outer `none` where it does not come back.  Of an empty
list it reads through NULL. -/
def findData (f : Files) (data : Nat) : Option (Option Nat) :=
  match f.head with
  | none => none
  | some head =>
    findNode f.links (fun pos => f.data pos == data) head f.fuel (f.links.next head)

/-- `locked_list_add`, with what `kmalloc` returns; `none` for the result 0. -/
def lockedListAdd (f : Files) (data : Nat) : Option Nat → Option Files
  | none => none
  | some node =>
    let f := { f.kmalloc node with data := Function.update f.data node data }
    match f.head with
    | none =>
      let links := (f.links.setPrev node node).setNext node node
      some { f with head := some node, links := linkNode links (links.prev node) node node }
    | some head => some { f with links := linkNode f.links (f.links.prev head) head node }

/-- `remove`. -/
def listRemove (f : Files) (node : Nat) : Files :=
  let head :=
    if f.head = some node then
      if f.links.next node = node then none else some (f.links.next node)
    else f.head
  { f with head := head, links := unlinkNode f.links node }

/-- `locked_list_remove_match`.  The node is not freed. -/
def lockedListRemoveMatch (f : Files) (data : Nat) : Option Files :=
  match findData f data with
  | none => none
  | some none => some f
  | some (some node) => some (listRemove f node)

/-- `locked_list_iterator`. -/
structure ListIterator where
  nxt : Option Nat
  wrapped : Bool

def lockedListIterInit (f : Files) : ListIterator := ⟨f.head, false⟩

/-- `locked_list_iter_next`. -/
def lockedListIterNext (f : Files) (iter : ListIterator) : Option Nat × ListIterator :=
  match iter.nxt with
  | none => (none, iter)
  | some pos =>
    if iter.wrapped then (none, iter)
    else (some (f.data pos), ⟨some (f.links.next pos), f.head == some (f.links.next pos)⟩)

/-! ## 2. `user_process.c` -/

/-- The loop of `proc_get_fhandle`; the outer `none`: it is still going. -/
def fhandleLoop (f : Files) (fd : Int) : Nat → ListIterator → Option (Option Nat)
  | 0, _ => none
  | fuel + 1, iter =>
    match lockedListIterNext f iter with
    | (none, _) => some none
    | (some hdl, iter) =>
      if (f.handles hdl).userFd = fd then some (some hdl) else fhandleLoop f fd fuel iter

/-- `proc_get_fhandle`. -/
def procGetFhandle (f : Files) (fd : Int) : Option (Option Nat) :=
  fhandleLoop f fd (f.fuel + 1) (lockedListIterInit f)

/-- The loop of `proc_get_next_fd`; `none` for `kpanic`. -/
def nextFdLoop (f : Files) : Nat → Int → Option Int
  | 0, _ => none
  | n + 1, fd =>
    match procGetFhandle f fd with
    | none => none
    | some none => some fd
    | some (some _) => nextFdLoop f n (fd + 1)

/-- `proc_get_next_fd`. -/
def procGetNextFd (f : Files) : Option Int := nextFdLoop f (0xFFFF - 100) 100

/-- `proc_add_fhandle`; `none` for `kpanic`. -/
def procAddFhandle (f : Files) (hdl : Nat) (node : Option Nat) : Option Files :=
  lockedListAdd f hdl node

/-- `proc_rem_fhandle`. -/
def procRemFhandle (f : Files) (hdl : Nat) : Option Files := lockedListRemoveMatch f hdl

/-! ## 3. `swi_open` and `swi_close` -/

/-- A call of `swi_open`: the name up to its NUL, what `is_valid_user_addr` says of the pointer,
what `kmalloc` returns for the handle, the file and the node, and what `fs_open` returns. -/
structure OpenCall where
  name : List UInt8
  validName : Bool
  hdl : Option Nat
  data : Option Nat
  fsOpen : Int
  node : Option Nat

/-- `"/dev/urandom"`. -/
def urandomName : List UInt8 := [47, 100, 101, 118, 47, 117, 114, 97, 110, 100, 111, 109]

/-- `swi_open`; `none` where it does not return. -/
def swiOpen (f : Files) (c : OpenCall) : Option (Files × Int) :=
  if c.validName = false then some (f, -1)
  else if urandomName.isPrefixOf c.name then some (f, 3)
  else
    match c.hdl with
    | none => some (f, -1)
    | some hdl =>
      let f := f.kmalloc hdl
      match c.data with
      | none => some (f.kfree hdl, -1)
      | some data =>
        let f := (f.kmalloc data).setHandle hdl ⟨(f.handles hdl).userFd, some data⟩
        if c.fsOpen ≠ 0 then some ((f.kfree data).kfree hdl, -1)
        else
          match procGetNextFd f with
          | none => none
          | some fd =>
            let f := f.setHandle hdl ⟨fd, some data⟩
            (procAddFhandle f hdl c.node).map fun f => (f, fd)

/-- `hdl->data` is closed and freed. -/
def freeData (f : Files) (hdl : Nat) : Files :=
  match (f.handles hdl).data with
  | none => f
  | some data => (f.kfree data).setHandle hdl ⟨(f.handles hdl).userFd, none⟩

/-- `swi_close`, which always returns 0; `none` where it does not return. -/
def swiClose (f : Files) (fd : Int) : Option Files :=
  match procGetFhandle f fd with
  | none => none
  | some none => some f
  | some (some hdl) => (procRemFhandle (freeData f hdl) hdl).map fun f => f.kfree hdl

/-! ## 4. What is promised -/

/-- An open file as the process knows it: the descriptor that `swi_open` returned, and the handle
and the file that it made. -/
structure OpenFile where
  fd : Int
  hdl : Nat
  data : Nat
  deriving DecidableEq

/-- The list of a process, and the files that are open by the calls made so far. -/
structure FileRun where
  files : Files
  opened : List OpenFile

def FileRun.init : FileRun := ⟨.init, []⟩

/-- The blocks that `kmalloc` returns are no live ones. -/
def OpenCall.fresh (c : OpenCall) (live : List Nat) : Prop :=
  (c.hdl.toList ++ c.data.toList ++ c.node.toList ++ live).Nodup

/-- A successful `swi_open` opens a file with a descriptor from 100 on. -/
def recordOpen (opened : List OpenFile) (c : OpenCall) (fd : Int) : List OpenFile :=
  match c.hdl, c.data with
  | some hdl, some data => if 100 ≤ fd then opened ++ [⟨fd, hdl, data⟩] else opened
  | _, _ => opened

/-- The calls of the process; in between the rest of the kernel writes what it likes to the blocks
that are not the list's (`other`). -/
inductive FileCall where
  | openFile (call : OpenCall)
  | close (fd : Int)
  | other (handles : Nat → FileHandle)

/-- One call. -/
inductive FileStep : FileRun → FileCall → FileRun → Prop where
  | openFile {s : FileRun} {f : Files} {c : OpenCall} {fd : Int} :
    c.fresh s.files.live → swiOpen s.files c = some (f, fd) →
      FileStep s (.openFile c) ⟨f, recordOpen s.opened c fd⟩
  | close {s : FileRun} {f : Files} {fd : Int} :
    swiClose s.files fd = some f →
      FileStep s (.close fd) ⟨f, s.opened.filter fun o => o.fd != fd⟩
  | other {s : FileRun} {handles : Nat → FileHandle} :
    (∀ hdl ∈ s.files.live, handles hdl = s.files.handles hdl) →
      FileStep s (.other handles) ⟨{ s.files with handles := handles }, s.opened⟩

/-- The handles that an iterator finds. -/
def iterHandles (f : Files) : Nat → ListIterator → Option (List Nat)
  | 0, _ => none
  | fuel + 1, iter =>
    match lockedListIterNext f iter with
    | (none, _) => some []
    | (some hdl, iter) => (iterHandles f fuel iter).map (hdl :: ·)

/-- The handles in `proc->files`. -/
def listedHandles (f : Files) : Option (List Nat) :=
  iterHandles f (f.fuel + 1) (lockedListIterInit f)

/-- The descriptors of open files are distinct; a descriptor leads to the handle created for it
while it is open, and to NULL otherwise; a handle is as its `swi_open` left it; and no freed handle
is in the list. -/
structure FilesKept (s : FileRun) : Prop where
  distinct : (s.opened.map (·.fd)).Nodup
  found : ∀ fd, procGetFhandle s.files fd =
    some ((s.opened.find? fun o => o.fd == fd).map (·.hdl))
  kept : ∀ o ∈ s.opened, s.files.handles o.hdl = ⟨o.fd, some o.data⟩ ∧
    o.hdl ∈ s.files.live ∧ o.data ∈ s.files.live
  listed : ∃ hdls, listedHandles s.files = some hdls ∧ ∀ hdl ∈ hdls, hdl ∈ s.files.live

/-- The call does not close the descriptor at the head of the list. -/
def sparesHead (s : FileRun) : FileCall → Prop
  | .close fd => ∀ head, s.files.head = some head →
    (s.files.handles (s.files.data head)).userFd ≠ fd
  | _ => True

variable {f f' : Files} {nodes : List Nat} {opened : List OpenFile} {fd : Int} {block : Nat}

/-! ## 5. The list of the open files -/

/-- The nodes of the list, in order. -/
def RingAt (f : Files) : List Nat → Prop
  | [] => f.head = none
  | head :: rest => f.head = some head ∧ IsRing f.links head rest

/-- The blocks of the nodes, the handles and the files. -/
def blocksOf (nodes : List Nat) (opened : List OpenFile) : List Nat :=
  nodes ++ opened.map (·.hdl) ++ opened.map (·.data)

/-- The list holds the open files in the order in which they were opened. -/
structure OpenList (f : Files) (nodes : List Nat) (opened : List OpenFile) : Prop where
  ring : RingAt f nodes
  data : nodes.map f.data = opened.map (·.hdl)
  blocks : (blocksOf nodes opened).Nodup
  live : ∀ b ∈ blocksOf nodes opened, b ∈ f.live
  contents : ∀ o ∈ opened, f.handles o.hdl = ⟨o.fd, some o.data⟩
  fds : (opened.map (·.fd)).Nodup

/-- An iterator goes on to the node before the head. -/
theorem iterHandles_chain {head : Nat} (hhead : f.head = some head) (k : Nat) :
    ∀ {l : List Nat} {a : Nat}, (a :: l ++ [head]).IsChain (Joined f.links) → head ∉ l →
      iterHandles f (k + l.length + 2) ⟨some a, false⟩ = some ((a :: l).map f.data)
  | [], a, h, _ => by
    have hnext : f.links.next a = head := by simpa [Joined] using (List.isChain_cons_cons.mp h).1.1
    simp [iterHandles, lockedListIterNext, hhead, hnext]
  | y :: l, a, h, hl => by
    obtain ⟨hay, hrest⟩ := List.isChain_cons_cons.mp h
    have hy : (head == y) = false := beq_false_of_ne fun e => hl (e ▸ List.mem_cons_self)
    have ih := iterHandles_chain hhead k hrest fun hm => hl (List.mem_cons_of_mem _ hm)
    rw [List.length_cons, iterHandles]
    simp only [lockedListIterNext, hhead, hay.1, Bool.false_eq_true, if_false, Option.some_beq_some,
      hy]
    exact congrArg (Option.map (f.data a :: ·)) ih

/-- The iterator finds what is in the nodes. -/
theorem RingAt.listed (h : RingAt f nodes) (hlen : nodes.length ≤ f.live.length) :
    listedHandles f = some (nodes.map f.data) := by
  cases nodes with
  | nil =>
    have hhead : f.head = none := h
    simp [listedHandles, iterHandles, lockedListIterNext, lockedListIterInit, hhead]
  | cons head rest =>
    obtain ⟨hhead, hring⟩ := h
    rw [listedHandles, lockedListIterInit, hhead]
    obtain ⟨k, hk⟩ := Nat.exists_eq_add_of_le hlen
    have hfuel : f.fuel + 1 = k + 1 + rest.length + 2 := by
      rw [Files.fuel, hk, List.length_cons]
      omega
    rw [hfuel]
    exact iterHandles_chain hhead (k + 1) hring.joined (List.nodup_cons.mp hring.nodup).1

/-- The walk of `find_data` does not see the head. -/
theorem findData_ring {head hdl : Nat} (h : RingAt f (head :: nodes))
    (hlen : nodes.length ≤ f.live.length) :
    findData f hdl = some (nodes.find? fun pos => f.data pos == hdl) := by
  rw [findData, h.1]
  exact findNode_ring h.2 (Nat.lt_succ_of_le hlen)

theorem OpenList.mem_hdl (h : OpenList f nodes opened) {o : OpenFile} (ho : o ∈ opened) :
    o.hdl ∈ f.live :=
  h.live _ (List.mem_append_left _ (List.mem_append_right _ (List.mem_map_of_mem ho)))

theorem OpenList.mem_data (h : OpenList f nodes opened) {o : OpenFile} (ho : o ∈ opened) :
    o.data ∈ f.live :=
  h.live _ (List.mem_append_right _ (List.mem_map_of_mem ho))

/-- A ring has no more nodes than there are live blocks. -/
theorem OpenList.length_le (h : OpenList f nodes opened) : nodes.length ≤ f.live.length := by
  have hsub : nodes ⊆ f.live := fun b hb => h.live b (by simp [blocksOf, hb])
  have hnd : nodes.Nodup := (List.nodup_append.mp (List.nodup_append.mp h.blocks).1).1
  exact (hnd.subperm hsub).length_le

/-- The iterator finds the handles of the open files. -/
theorem OpenList.listed (h : OpenList f nodes opened) :
    listedHandles f = some (opened.map (·.hdl)) := by
  rw [h.ring.listed h.length_le, h.data]

/-- A search with an iterator. -/
theorem fhandleLoop_of_iter : ∀ {fuel : Nat} {iter : ListIterator} {hdls : List Nat},
    iterHandles f fuel iter = some hdls →
      fhandleLoop f fd fuel iter = some (hdls.find? fun hdl => (f.handles hdl).userFd == fd)
  | 0, _, _, h => by simp [iterHandles] at h
  | fuel + 1, iter, hdls, h => by
    rw [iterHandles] at h
    rw [fhandleLoop]
    match lockedListIterNext f iter, h with
    | (none, _), h =>
      obtain rfl := Option.some.inj h
      rfl
    | (some hdl, iter), h =>
      obtain ⟨rest, hrest, rfl⟩ := Option.map_eq_some_iff.mp h
      by_cases hfd : (f.handles hdl).userFd = fd
      · simp [hfd]
      · simp [hfd, fhandleLoop_of_iter hrest]

/-- A descriptor leads to the handle created for it. -/
theorem OpenList.found (h : OpenList f nodes opened) (fd : Int) :
    procGetFhandle f fd = some ((opened.find? fun o => o.fd == fd).map (·.hdl)) := by
  have hfind : (opened.find? fun o => (f.handles o.hdl).userFd == fd) =
      opened.find? fun o => o.fd == fd :=
    List.find?_congr fun o ho => by rw [h.contents o ho]
  rw [procGetFhandle, fhandleLoop_of_iter h.listed, List.find?_map, ← hfind]
  rfl

/-- The invariant gives what is promised. -/
theorem OpenList.kept (h : OpenList f nodes opened) : FilesKept ⟨f, opened⟩ where
  distinct := h.fds
  found := h.found
  kept o ho := ⟨h.contents o ho, h.mem_hdl ho, h.mem_data ho⟩
  listed := by
    refine ⟨_, h.listed, fun hdl hhdl => ?_⟩
    obtain ⟨o, ho, rfl⟩ := List.mem_map.mp hhdl
    exact h.mem_hdl ho

/-! ## 6. `swi_open` -/

theorem OpenList.kmalloc (h : OpenList f nodes opened) : OpenList (f.kmalloc block) nodes opened :=
  { h with
    ring := by cases nodes <;> exact h.ring
    live := fun b hb => List.mem_cons_of_mem _ (h.live b hb) }

theorem OpenList.kfree (h : OpenList f nodes opened) (hblock : block ∉ blocksOf nodes opened) :
    OpenList (f.kfree block) nodes opened :=
  { h with
    ring := by cases nodes <;> exact h.ring
    live := by
      intro b hb
      have hne : b ≠ block := fun e => hblock (e ▸ hb)
      simp [Files.kfree, h.live b hb, hne] }

/-- What other blocks hold does not matter. -/
theorem OpenList.setHandles (h : OpenList f nodes opened) {handles : Nat → FileHandle}
    (hsame : ∀ o ∈ opened, handles o.hdl = f.handles o.hdl) :
    OpenList { f with handles := handles } nodes opened :=
  { h with
    ring := by cases nodes <;> exact h.ring
    contents := fun o ho => (hsame o ho).trans (h.contents o ho) }

theorem OpenList.setHandle (h : OpenList f nodes opened) {x : FileHandle}
    (hblock : block ∉ opened.map (·.hdl)) : OpenList (f.setHandle block x) nodes opened := by
  refine h.setHandles fun o ho => Function.update_of_ne ?_ _ _
  rintro rfl
  exact hblock (List.mem_map_of_mem ho)

/-- The ring after the new node is linked in. -/
theorem lockedListAdd_ring (h : RingAt f nodes) {node data : Nat} (hnode : node ∉ nodes)
    (hadd : lockedListAdd f data (some node) = some f') :
    RingAt f' (nodes ++ [node]) ∧ f'.data = Function.update f.data node data ∧
      f'.handles = f.handles ∧ f'.live = node :: f.live := by
  cases nodes with
  | nil =>
    have hhead : f.head = none := h
    simp only [lockedListAdd, Files.kmalloc, hhead] at hadd
    obtain rfl := Option.some.inj hadd
    refine ⟨⟨rfl, isRing_single ?_ ?_⟩, rfl, rfl, rfl⟩
    · simp [linkNode, Links.setNext, Links.setPrev]
    · simp [linkNode, Links.setNext, Links.setPrev]
  | cons head rest =>
    obtain ⟨hhead, hring⟩ := h
    simp only [lockedListAdd, Files.kmalloc, hhead] at hadd
    obtain rfl := Option.some.inj hadd
    exact ⟨⟨rfl, linkNode_ring hring hnode⟩, rfl, rfl, rfl⟩

theorem blocksOf_append (nodes : List Nat) (opened : List OpenFile) (node : Nat) (o : OpenFile) :
    (blocksOf (nodes ++ [node]) (opened ++ [o])).Perm
      ([node, o.hdl, o.data] ++ blocksOf nodes opened) := by
  rw [List.perm_iff_count]
  intro b
  simp only [blocksOf, List.map_append, List.map_cons, List.map_nil, List.count_append,
    List.count_cons, List.count_nil]
  omega

/-- **`locked_list_add`** puts the handle at the end. -/
theorem lockedListAdd_spec (h : OpenList f nodes opened) {o : OpenFile} {node : Nat}
    (hnew : ([node, o.hdl, o.data] ++ blocksOf nodes opened).Nodup)
    (hhdl : o.hdl ∈ f.live) (hdata : o.data ∈ f.live)
    (hcont : f.handles o.hdl = ⟨o.fd, some o.data⟩) (hfd : o.fd ∉ opened.map (·.fd))
    (hadd : lockedListAdd f o.hdl (some node) = some f') :
    OpenList f' (nodes ++ [node]) (opened ++ [o]) := by
  have hnode : node ∉ blocksOf nodes opened := by
    have hout := (List.nodup_cons.mp hnew).1
    exact fun hm => hout (by simp [hm])
  obtain ⟨hring, hdata', hhandles, hlive⟩ :=
    lockedListAdd_ring h.ring (fun hm => hnode (by simp [blocksOf, hm])) hadd
  constructor
  · exact hring
  · have hsame : nodes.map f'.data = nodes.map f.data := by
      refine List.map_congr_left fun x hx => ?_
      have hne : x ≠ node := by
        rintro rfl
        exact hnode (by simp [blocksOf, hx])
      rw [hdata', Function.update_of_ne hne]
    rw [List.map_append, List.map_append, hsame, h.data, List.map_singleton, List.map_singleton,
      hdata', Function.update_self]
  · exact (blocksOf_append nodes opened node o).nodup_iff.mpr hnew
  · intro b hb
    have hmem := (blocksOf_append nodes opened node o).subset hb
    rw [hlive]
    simp only [List.cons_append, List.nil_append, List.mem_cons] at hmem ⊢
    rcases hmem with rfl | rfl | rfl | hold
    · exact Or.inl rfl
    · exact Or.inr hhdl
    · exact Or.inr hdata
    · exact Or.inr (h.live b hold)
  · intro x hx
    rw [hhandles]
    rcases List.mem_append.mp hx with hold | hlast
    · exact h.contents x hold
    · rw [List.mem_singleton.mp hlast, hcont]
  · rw [List.map_append, List.map_singleton]
    exact h.fds.append (List.nodup_singleton o.fd) (by simpa using hfd)

/-- The descriptor that `proc_get_next_fd` finds is not in use. -/
theorem nextFdLoop_spec : ∀ {n : Nat} {from_ : Int}, nextFdLoop f n from_ = some fd →
    from_ ≤ fd ∧ procGetFhandle f fd = some none
  | 0, _, h => by simp [nextFdLoop] at h
  | n + 1, from_, h => by
    rw [nextFdLoop] at h
    match hget : procGetFhandle f from_, h with
    | some none, h =>
      obtain rfl := Option.some.inj h
      exact ⟨le_refl _, hget⟩
    | some (some _), h =>
      obtain ⟨hle, hnone⟩ := nextFdLoop_spec h
      exact ⟨by omega, hnone⟩

/-- A descriptor that leads to NULL is that of no open file. -/
theorem OpenList.fd_new (h : OpenList f nodes opened) (hnone : procGetFhandle f fd = some none) :
    fd ∉ opened.map (·.fd) := by
  rw [h.found, Option.some_inj, Option.map_eq_none_iff, List.find?_eq_none] at hnone
  intro hm
  obtain ⟨o, ho, rfl⟩ := List.mem_map.mp hm
  exact hnone o ho (by simp)

theorem OpenList.not_mem (h : OpenList f nodes opened) (hblock : block ∉ f.live) :
    block ∉ blocksOf nodes opened :=
  fun hm => hblock (h.live block hm)

theorem not_mem_hdls (hblock : block ∉ blocksOf nodes opened) : block ∉ opened.map (·.hdl) :=
  fun hm => hblock (List.mem_append_left _ (List.mem_append_right _ hm))

theorem OpenCall.fresh.not_mem {c : OpenCall} {live : List Nat} (h : c.fresh live)
    (hblock : block ∈ c.hdl.toList ++ c.data.toList ++ c.node.toList) : block ∉ live :=
  fun hm => (List.nodup_append.mp h).2.2 block hblock block hm rfl

/-- A result below 100 opens nothing. -/
theorem recordOpen_lt {c : OpenCall} (hfd : fd < 100) : recordOpen opened c fd = opened := by
  unfold recordOpen
  split
  · exact if_neg (by omega)
  · rfl

/-- **`swi_open`** opens one more file, or none. -/
theorem swiOpen_spec (h : OpenList f nodes opened) {c : OpenCall} (hfresh : c.fresh f.live)
    (hopen : swiOpen f c = some (f', fd)) :
    ∃ nodes', OpenList f' nodes' (recordOpen opened c fd) := by
  have hnone : ∀ {g : Files} {r : Int}, OpenList g nodes opened → r < 100 →
      some (g, r) = some (f', fd) → ∃ nodes', OpenList f' nodes' (recordOpen opened c fd) := by
    intro g r hg hr heq
    obtain ⟨rfl, rfl⟩ := Prod.mk.inj (Option.some.inj heq)
    exact ⟨nodes, (recordOpen_lt hr).symm ▸ hg⟩
  rw [swiOpen] at hopen
  split at hopen
  · exact hnone h (by decide) hopen
  split at hopen
  · exact hnone h (by decide) hopen
  split at hopen
  · exact hnone h (by decide) hopen
  rename_i hdl hhdl
  have hhdlout : hdl ∉ f.live := hfresh.not_mem (by simp [hhdl])
  dsimp only at hopen
  split at hopen
  · exact hnone (h.kmalloc.kfree (h.not_mem hhdlout)) (by decide) hopen
  rename_i data hdata
  have hdataout : data ∉ f.live := hfresh.not_mem (by simp [hdata])
  have hset : ∀ {g : Files} (x : FileHandle), OpenList g nodes opened →
      OpenList (g.setHandle hdl x) nodes opened :=
    fun x hg => hg.setHandle (not_mem_hdls (h.not_mem hhdlout))
  split at hopen
  · exact hnone (((hset _ h.kmalloc.kmalloc).kfree (h.not_mem hdataout)).kfree
      (h.not_mem hhdlout)) (by decide) hopen
  split at hopen
  · simp at hopen
  rename_i fd' hnext
  obtain ⟨g, hadd, heq⟩ := Option.map_eq_some_iff.mp hopen
  obtain ⟨rfl, rfl⟩ := Prod.mk.inj heq
  obtain ⟨hle, hnull⟩ := nextFdLoop_spec hnext
  cases hnode : c.node with
  | none => simp [procAddFhandle, hnode, lockedListAdd] at hadd
  | some node =>
    rw [procAddFhandle, hnode] at hadd
    have hrecord : recordOpen opened c fd' = opened ++ [⟨fd', hdl, data⟩] := by
      simp only [recordOpen, hhdl, hdata]
      exact if_pos hle
    rw [hrecord]
    refine ⟨_, lockedListAdd_spec (o := ⟨fd', hdl, data⟩) (hset _ (hset _ h.kmalloc.kmalloc)) ?_ ?_
      ?_ ?_ ?_ hadd⟩
    · have hperm : ([node] ++ [hdl, data]).Perm ([hdl, data] ++ [node]) := List.perm_append_comm
      refine (hperm.append_right _).nodup_iff.mpr (List.nodup_append.mpr ⟨?_, h.blocks, ?_⟩)
      · simpa [hhdl, hdata, hnode] using (List.nodup_append.mp hfresh).1
      · rintro b hb x hx rfl
        exact hfresh.not_mem (by simpa [hhdl, hdata, hnode] using hb) (h.live b hx)
    · simp [Files.setHandle, Files.kmalloc]
    · simp [Files.setHandle, Files.kmalloc]
    · simp [Files.setHandle]
    · exact (hset _ h.kmalloc.kmalloc).fd_new hnull

/-! ## 7. `swi_close` -/

/-- The file with this descriptor, and the others. -/
theorem OpenList.split_at (h : OpenList f nodes opened) {hdl : Nat}
    (hget : procGetFhandle f fd = some (some hdl)) :
    ∃ o₁ o o₂, opened = o₁ ++ o :: o₂ ∧ o.fd = fd ∧ o.hdl = hdl ∧
      (opened.filter fun o => o.fd != fd) = o₁ ++ o₂ := by
  rw [h.found, Option.some_inj] at hget
  obtain ⟨o, hfind, rfl⟩ := Option.map_eq_some_iff.mp hget
  obtain ⟨hfd, o₁, o₂, rfl, hbefore⟩ := List.find?_eq_some_iff_append.mp hfind
  obtain rfl := eq_of_beq hfd
  have hfirst : ∀ y ∈ o₁, (y.fd != o.fd) = true := hbefore
  have hafter : ∀ y ∈ o₂, (y.fd != o.fd) = true := by
    intro y hy
    have hnd := h.fds
    rw [List.map_append, List.map_cons, List.nodup_append, List.nodup_cons] at hnd
    exact bne_iff_ne.mpr fun e => hnd.2.1.1 (List.mem_map.mpr ⟨y, hy, e⟩)
  refine ⟨o₁, o, o₂, rfl, rfl, rfl, ?_⟩
  rw [List.filter_append, List.filter_cons_of_neg (by simp), List.filter_eq_self.mpr hafter,
    List.filter_eq_self.mpr hfirst]

/-- The node of a file. -/
theorem OpenList.node_at {o₁ o₂ : List OpenFile} {o : OpenFile}
    (h : OpenList f nodes (o₁ ++ o :: o₂)) :
    ∃ n₁ x n₂, nodes = n₁ ++ x :: n₂ ∧ n₁.map f.data = o₁.map (·.hdl) ∧ f.data x = o.hdl ∧
      n₂.map f.data = o₂.map (·.hdl) := by
  have hdata := h.data
  rw [List.map_append, List.map_cons] at hdata
  obtain ⟨n₁, rest, rfl, h₁, hrest⟩ := List.map_eq_append_iff.mp hdata
  obtain ⟨x, n₂, rfl, hx, h₂⟩ := List.map_eq_cons_iff.mp hrest
  exact ⟨n₁, x, n₂, rfl, h₁, hx, h₂⟩

/-- The list after the file of a handle is freed. -/
theorem freeData_eq (h : OpenList f nodes opened) {o : OpenFile} (ho : o ∈ opened) :
    freeData f o.hdl = (f.kfree o.data).setHandle o.hdl ⟨o.fd, none⟩ := by
  rw [freeData, h.contents o ho]

/-- Which file is first. -/
theorem OpenList.sparesHead_iff (h : OpenList f nodes opened) :
    sparesHead ⟨f, opened⟩ (.close fd) ↔ ∀ o, opened.head? = some o → o.fd ≠ fd := by
  have hdata := h.data
  cases nodes with
  | nil =>
    have hhead : f.head = none := h.ring
    obtain rfl : opened = [] := by simpa using hdata
    simp [sparesHead, hhead]
  | cons head rest =>
    cases opened with
    | nil => simp at hdata
    | cons o os =>
      have hcont := h.contents o List.mem_cons_self
      have hhdl : f.data head = o.hdl := (List.cons.inj hdata).1
      simp [sparesHead, h.ring.1, hhdl, hcont]

theorem blocksOf_middle (n₁ n₂ : List Nat) (o₁ o₂ : List OpenFile) (x : Nat) (o : OpenFile) :
    (blocksOf (n₁ ++ x :: n₂) (o₁ ++ o :: o₂)).Perm
      ([x, o.hdl, o.data] ++ blocksOf (n₁ ++ n₂) (o₁ ++ o₂)) := by
  rw [List.perm_iff_count]
  intro b
  simp only [blocksOf, List.map_append, List.map_cons, List.count_append,
    List.count_cons, List.count_nil]
  omega

/-- The nodes are there after a handle and its file are freed. -/
theorem OpenList.length_le_freed (h : OpenList f nodes opened) {o : OpenFile} (ho : o ∈ opened) :
    nodes.length ≤ ((f.kfree o.data).kfree o.hdl).live.length := by
  obtain ⟨hfront, _, hdata⟩ := List.nodup_append.mp h.blocks
  obtain ⟨hnodes, _, hhdl⟩ := List.nodup_append.mp hfront
  have hsub : nodes ⊆ ((f.kfree o.data).kfree o.hdl).live := by
    intro b hb
    have hnedata : b ≠ o.data :=
      hdata b (List.mem_append_left _ hb) o.data (List.mem_map_of_mem ho)
    have hnehdl : b ≠ o.hdl := hhdl b hb o.hdl (List.mem_map_of_mem ho)
    simp [Files.kfree, h.live b (by simp [blocksOf, hb]), hnedata, hnehdl]
  exact (hnodes.subperm hsub).length_le

theorem kfree_length_le (f : Files) (block : Nat) :
    (f.kfree block).live.length ≤ f.live.length :=
  List.length_filter_le _ _

/-- **`swi_close`** of a file behind the first takes it out. -/
theorem swiClose_behind {o₁ o₂ : List OpenFile} {o : OpenFile}
    (h : OpenList f nodes (o₁ ++ o :: o₂)) (hne : o₁ ≠ []) :
    ∃ f' nodes', (procRemFhandle (freeData f o.hdl) o.hdl).map (fun f => f.kfree o.hdl) = some f' ∧
      OpenList f' nodes' (o₁ ++ o₂) := by
  have ho : o ∈ o₁ ++ o :: o₂ := List.mem_append_right _ List.mem_cons_self
  have hlen := (h.length_le_freed ho).trans (kfree_length_le _ _)
  obtain ⟨n₁, x, n₂, rfl, h₁, hx, h₂⟩ := h.node_at
  obtain ⟨p, o₁, rfl⟩ := List.exists_cons_of_ne_nil hne
  obtain ⟨q, n₁, rfl, -, h₁'⟩ := List.map_eq_cons_iff.mp h₁
  have hnd := (blocksOf_middle (q :: n₁) n₂ (p :: o₁) o₂ x o).nodup_iff.mp h.blocks
  obtain ⟨-, hblocks, hapart⟩ := List.nodup_append.mp hnd
  have hhdls : ∀ y ∈ p :: o₁ ++ o₂, y.hdl ≠ o.hdl := fun y hy e =>
    hapart o.hdl (by simp) y.hdl
      (List.mem_append_left _ (List.mem_append_right _ (List.mem_map_of_mem hy))) e.symm
  have hring : IsRing f.links q (n₁ ++ x :: n₂) := h.ring.2
  have hhead : f.head = some q := h.ring.1
  have hqx : q ≠ x := fun e => hapart x (by simp) q (by simp [blocksOf]) e.symm
  have hfind : findData (freeData f o.hdl) o.hdl = some (some x) := by
    have hring' : RingAt ((f.kfree o.data).setHandle o.hdl ⟨o.fd, none⟩) (q :: (n₁ ++ x :: n₂)) :=
      ⟨hhead, hring⟩
    rw [freeData_eq h ho, findData_ring hring' (Nat.le_of_succ_le hlen)]
    refine congrArg some (List.find?_eq_some_iff_append.mpr ⟨?_, n₁, n₂, rfl, fun pos hpos => ?_⟩)
    · exact beq_iff_eq.mpr hx
    · have hmem : f.data pos ∈ o₁.map (·.hdl) := h₁' ▸ List.mem_map_of_mem hpos
      obtain ⟨y, hy, heq⟩ := List.mem_map.mp hmem
      have hy' := hhdls y (by simp [hy])
      rw [heq] at hy'
      exact (bne_iff_ne.mpr hy')
  refine ⟨(listRemove (freeData f o.hdl) x).kfree o.hdl, q :: n₁ ++ n₂, ?_, ?_⟩
  · rw [procRemFhandle, lockedListRemoveMatch, hfind]
    rfl
  · rw [freeData_eq h ho]
    constructor
    · refine ⟨?_, unlinkNode_ring hring⟩
      have hne : f.head ≠ some x := by simp [hhead, hqx]
      exact (if_neg hne).trans hhead
    · rw [List.map_append, List.map_append, ← h₁, ← h₂]
      rfl
    · exact hblocks
    · intro b hb
      have hlive := h.live b ((blocksOf_middle _ _ _ _ x o).symm.subset
        (List.mem_append_right _ hb))
      have hnehdl : b ≠ o.hdl := fun e => hapart o.hdl (by simp) b hb e.symm
      have hnedata : b ≠ o.data := fun e => hapart o.data (by simp) b hb e.symm
      simp [listRemove, Files.setHandle, Files.kfree, hlive, hnehdl, hnedata]
    · intro y hy
      have hold : y ∈ p :: o₁ ++ o :: o₂ := by
        rcases List.mem_append.mp hy with h | h
        · exact List.mem_append_left _ h
        · exact List.mem_append_right _ (List.mem_cons_of_mem _ h)
      exact (Function.update_of_ne (hhdls y hy) _ _).trans (h.contents y hold)
    · refine h.fds.sublist (List.Sublist.map _ ?_)
      exact (List.Sublist.refl _).append (List.sublist_cons_self _ _)

/-- **`swi_close`** of the first file leaves its handle in the list. -/
theorem swiClose_first {o₂ : List OpenFile} {o : OpenFile} (h : OpenList f nodes (o :: o₂)) :
    ∃ f', (procRemFhandle (freeData f o.hdl) o.hdl).map (fun f => f.kfree o.hdl) = some f' ∧
      listedHandles f' = some (o.hdl :: o₂.map (·.hdl)) ∧ o.hdl ∉ f'.live := by
  have hdata := h.data
  have hlen := h.length_le_freed List.mem_cons_self
  have heq := freeData_eq h List.mem_cons_self
  cases nodes with
  | nil => simp at hdata
  | cons x rest =>
    have hnone : (rest.find? fun pos => f.data pos == o.hdl) = none := by
      rw [List.find?_eq_none]
      intro pos hpos hfound
      have hmem : f.data pos ∈ o₂.map (·.hdl) :=
        (List.cons.inj hdata).2 ▸ List.mem_map_of_mem hpos
      have hnd := (List.nodup_append.mp (List.nodup_append.mp h.blocks).1).2.1
      rw [eq_of_beq hfound] at hmem
      exact (List.nodup_cons.mp hnd).1 hmem
    have hfind : findData (freeData f o.hdl) o.hdl = some none := by
      have hring : RingAt ((f.kfree o.data).setHandle o.hdl ⟨o.fd, none⟩) (x :: rest) := h.ring
      have hle := hlen.trans (kfree_length_le (f.kfree o.data) o.hdl)
      rw [heq, findData_ring hring (Nat.le_of_succ_le hle)]
      exact congrArg some hnone
    refine ⟨(freeData f o.hdl).kfree o.hdl, ?_, ?_, ?_⟩
    · rw [procRemFhandle, lockedListRemoveMatch, hfind]
      rfl
    · have hring : RingAt (((f.kfree o.data).setHandle o.hdl ⟨o.fd, none⟩).kfree o.hdl)
          (x :: rest) := h.ring
      rw [heq, hring.listed hlen]
      exact congrArg some hdata
    · simp [Files.kfree]

/-- **`swi_close`** keeps the promise exactly when it does not close the first file. -/
theorem swiClose_iff (h : OpenList f nodes opened) (hclose : swiClose f fd = some f') :
    (sparesHead ⟨f, opened⟩ (.close fd) →
        ∃ nodes', OpenList f' nodes' (opened.filter fun o => o.fd != fd)) ∧
      (¬ sparesHead ⟨f, opened⟩ (.close fd) →
        ¬ FilesKept ⟨f', opened.filter fun o => o.fd != fd⟩) := by
  rw [h.sparesHead_iff]
  rw [swiClose] at hclose
  split at hclose
  · simp at hclose
  · rename_i hget
    obtain rfl := Option.some.inj hclose
    have hnew := h.fd_new hget
    have hall : ∀ o ∈ opened, o.fd ≠ fd := fun o ho e => hnew (e ▸ List.mem_map_of_mem ho)
    have hsame : (opened.filter fun o => o.fd != fd) = opened :=
      List.filter_eq_self.mpr fun o ho => bne_iff_ne.mpr (hall o ho)
    rw [hsame]
    refine ⟨fun _ => ⟨nodes, h⟩, fun hn => absurd (fun o ho => hall o ?_) hn⟩
    exact List.mem_of_mem_head? ho
  · rename_i hdl hget
    obtain ⟨o₁, o, o₂, rfl, rfl, rfl, hfilter⟩ := h.split_at hget
    rw [hfilter]
    cases o₁ with
    | nil =>
      obtain ⟨g, hg, hlisted, hdead⟩ := swiClose_first h
      obtain rfl := Option.some.inj (hg.symm.trans hclose)
      refine ⟨fun hs => absurd rfl (hs o rfl), fun _ hkept => hdead ?_⟩
      obtain ⟨hdls, hl, hlive⟩ := hkept.listed
      obtain rfl := Option.some.inj (hlisted.symm.trans hl)
      exact hlive _ List.mem_cons_self
    | cons p o₁ =>
      obtain ⟨g, nodes', hg, hopen⟩ := swiClose_behind h (List.cons_ne_nil p o₁)
      obtain rfl := Option.some.inj (hg.symm.trans hclose)
      refine ⟨fun _ => ⟨nodes', hopen⟩, fun hn => absurd ?_ hn⟩
      rintro x hx
      obtain rfl := Option.some.inj hx
      have hnd := h.fds
      rw [List.map_append, List.map_cons, List.map_cons] at hnd
      exact fun e => (List.nodup_append.mp hnd).2.2 _ List.mem_cons_self _ List.mem_cons_self e

/-! ## 8. Every run -/

theorem openList_init : OpenList .init [] [] :=
  ⟨rfl, rfl, List.nodup_nil, fun _ hb => absurd hb List.not_mem_nil,
    fun _ ho => absurd ho List.not_mem_nil, List.nodup_nil⟩

/-- **Open files on every run.**  Whatever files a process opens and closes and whatever the rest
of the kernel writes to blocks that are not the list's: in every state reached the open files have
distinct descriptors, a descriptor leads to the handle that its `swi_open` made, with what it held
then, until its `swi_close` and to NULL from then on, and no freed handle is in `proc->files`,
exactly when no `swi_close` is for the descriptor at the head of the list. -/
theorem files_kept_iff (cs : List FileCall) (t : FileRun) :
    Run (fun s c t => FileStep s c t ∧ FilesKept t) .init cs t ↔
      Run (Guarded sparesHead FileStep) .init cs t := by
  have hgood : ∀ s : FileRun, (∃ nodes, OpenList s.files nodes s.opened) → FilesKept s :=
    fun s ⟨_, h⟩ => h.kept
  have hok : ∀ s c t, (∃ nodes, OpenList s.files nodes s.opened) → FileStep s c t →
      sparesHead s c → ∃ nodes, OpenList t.files nodes t.opened := by
    rintro s c t ⟨nodes, h⟩ hstep hspare
    cases hstep with
    | openFile hfresh hopen => exact swiOpen_spec h hfresh hopen
    | close hclose => exact (swiClose_iff h hclose).1 hspare
    | other hsame => exact ⟨nodes, h.setHandles fun o ho => hsame o.hdl (h.mem_hdl ho)⟩
  have hbad : ∀ s c t, (∃ nodes, OpenList s.files nodes s.opened) → FileStep s c t →
      ¬ sparesHead s c → ¬ FilesKept t := by
    rintro s c t ⟨nodes, h⟩ hstep hspare
    cases hstep with
    | openFile => exact absurd trivial hspare
    | close hclose => exact (swiClose_iff h hclose).2 hspare
    | other => exact absurd trivial hspare
  exact Run.good_iff hgood hok hbad ⟨[], openList_init⟩

/-- A file with the handle 1, the file 2 and the node 3. -/
def oneOpen : OpenCall := ⟨[97], true, some 1, some 2, 0, some 3⟩

/-- **The only file is closed**, and its freed handle is still in the list. -/
theorem close_leaves_handle :
    ∃ t, Run FileStep .init [.openFile oneOpen, .close 100] t ∧ ¬ FilesKept t := by
  obtain ⟨f, hopen⟩ : ∃ f, swiOpen .init oneOpen = some (f, 100) := ⟨_, rfl⟩
  have hfresh : oneOpen.fresh Files.init.live := by simp [OpenCall.fresh, oneOpen, Files.init]
  obtain ⟨nodes, h⟩ := swiOpen_spec openList_init hfresh hopen
  have hrecord : recordOpen [] oneOpen 100 = [⟨100, 1, 2⟩] := by decide
  rw [hrecord] at h
  obtain ⟨f', hclosed, -, -⟩ := swiClose_first h
  have hclose : swiClose f 100 = some f' := by
    rw [swiClose, h.found]
    exact hclosed
  have hfirst : ¬ sparesHead ⟨f, [⟨100, 1, 2⟩]⟩ (.close 100) := by
    rw [h.sparesHead_iff]
    exact fun hs => hs _ rfl rfl
  refine ⟨_, ?_, (swiClose_iff h hclose).2 hfirst⟩
  rw [← hrecord]
  exact .cons (.openFile hfresh hopen) (.cons (.close hclose) (.nil _))

end AndixOs.Task
