/-
# The ring of a locked list

A `locked_list` is a ring with no head of its own: `ll->head` is the element that was added first.
Adding links a node before the head, and removing the head moves it on.

On every run of `locked_list_add` and `locked_list_remove` the nodes form one ring through the head,
and the two ways to go through a list, `locked_list_for_each` and the iterator, see each element
once, in the order of insertion (`lockedList_kept`).  `find_data` goes through the list with a macro
for rings behind a head without data, and so never sees the first element: it answers right exactly
when it is not asked for that one alone (`findData_right_iff`).
-/
import AndixOs.Task.Files

namespace AndixOs.Task

open AndixOs

/-! ## 1. `locked_list.c` -/

/-- `locked_list_remove`. -/
def lockedListRemove (f : Files) (node : Nat) : Files := (listRemove f node).kfree node

/-- `locked_list_find_data`; the outer `none` where it does not come back. -/
def lockedListFindData (f : Files) (data : Nat) : Option (Option Nat) := findData f data

/-- What `locked_list_remove_match` returns, and the list; `none` where it does not come back. -/
def lockedListRemoveMatchRet (f : Files) (data : Nat) : Option (Nat × Files) :=
  match findData f data with
  | none => none
  | some none => some (0, f)
  | some (some node) => some (1, listRemove f node)

section

variable {σ : Type}

/-- The loop of `locked_list_for_each`; `σ` is what the callback reads and writes.  `none`: it is
still going. -/
def forEachLoop (f : Files) (func : Nat → σ → Int × σ) (head : Nat) : Nat → Nat → σ → Option (Int × σ)
  | 0, _, _ => none
  | fuel + 1, p, a =>
    let (ret, a) := func (f.data p) a
    if ret ≠ 0 then some (ret, a)
    else if p = f.links.prev head then some (0, a)
    else forEachLoop f func head fuel (f.links.next p) a

/-- `locked_list_for_each`. -/
def lockedListForEach (f : Files) (func : Nat → σ → Int × σ) (a : σ) : Option (Int × σ) :=
  match f.head with
  | none => some (0, a)
  | some head => forEachLoop f func head f.fuel head a

/-- A callback that is called for one data after the other, until it does not return 0. -/
def visit (func : Nat → σ → Int × σ) : List Nat → σ → Int × σ
  | [], a => (0, a)
  | d :: ds, a => if (func d a).1 ≠ 0 then func d a else visit func ds (func d a).2

end

/-- What so many calls of `locked_list_iter_next` return; `none` for `NULL`. -/
def iterCalls (f : Files) : Nat → ListIterator → List (Option Nat)
  | 0, _ => []
  | n + 1, iter => (lockedListIterNext f iter).1 :: iterCalls f n (lockedListIterNext f iter).2

/-! ## 2. Histories of a list -/

/-- A node and its data. -/
structure ListEntry where
  node : Nat
  data : Nat
  deriving DecidableEq

/-- A list, and what was added to it and not removed since, for the record. -/
structure ListRun where
  list : Files
  entries : List ListEntry

/-- An empty list, in a memory that holds anything. -/
def ListRun.init (mem : Files) : ListRun := ⟨{ mem with head := none }, []⟩

/-- The calls, with what `kmalloc` returns for a new node. -/
inductive ListCall where
  | add (data : Nat) (block : Option Nat)
  | remove (node : Nat)

/-- One call.  `kmalloc` gives no live block away, and only a node of the list is removed. -/
def listCall (s : ListRun) : ListCall → Option ListRun
  | .add _ none => some s
  | .add data (some block) =>
    if block ∈ s.list.live then none
    else (lockedListAdd s.list data (some block)).map fun f => ⟨f, s.entries ++ [⟨block, data⟩]⟩
  | .remove node =>
    if node ∈ s.entries.map (·.node) then
      some ⟨lockedListRemove s.list node, s.entries.filter fun e => e.node != node⟩
    else none

/-- The list is a ring of these nodes, with their data. -/
structure Listing (f : Files) (entries : List ListEntry) : Prop where
  ring : RingAt f (entries.map (·.node))
  data : ∀ e ∈ entries, f.data e.node = e.data
  live : ∀ e ∈ entries, e.node ∈ f.live

variable {f f' : Files} {entries pre post : List ListEntry} {e : ListEntry} {head x d block : Nat}
  {nodes : List Nat}

/-! ## 3. Reading a ring -/

theorem RingAt.nodup (h : RingAt f nodes) : nodes.Nodup := by
  cases nodes with
  | nil => exact List.nodup_nil
  | cons head rest => exact h.2.nodup

theorem RingAt.head_none_iff (h : RingAt f nodes) : f.head = none ↔ nodes = [] := by
  cases nodes with
  | nil => exact iff_of_true h rfl
  | cons head rest => simp [h.1]

/-- `prev` and `next` are mutually inverse. -/
theorem RingAt.inverse (h : RingAt f nodes) (hx : x ∈ nodes) :
    f.links.prev (f.links.next x) = x ∧ f.links.next (f.links.prev x) = x := by
  cases nodes with
  | nil => simp at hx
  | cons head rest => exact h.2.inverse hx

theorem Listing.nodup (h : Listing f entries) : (entries.map (·.node)).Nodup := h.ring.nodup

/-- A list has no more elements than there are live blocks. -/
theorem Listing.length_le (h : Listing f entries) : entries.length ≤ f.live.length := by
  have hsub : entries.map (·.node) ⊆ f.live := by
    intro b hb
    obtain ⟨e, he, rfl⟩ := List.mem_map.mp hb
    exact h.live e he
  have hle := (h.nodup.subperm hsub).length_le
  rwa [List.length_map] at hle

theorem Listing.map_data (h : Listing f entries) :
    (entries.map (·.node)).map f.data = entries.map (·.data) := by
  rw [List.map_map]
  exact List.map_congr_left h.data

/-! ## 4. Adding and removing -/

/-- **`locked_list_add`** puts the element at the end. -/
theorem Listing.add (h : Listing f entries) (hblock : block ∉ f.live)
    (hadd : lockedListAdd f d (some block) = some f') :
    Listing f' (entries ++ [⟨block, d⟩]) := by
  have hnew : ∀ e ∈ entries, e.node ≠ block := fun e he heq => hblock (heq ▸ h.live e he)
  have hnodes : block ∉ entries.map (·.node) := by
    intro hm
    obtain ⟨e, he, heq⟩ := List.mem_map.mp hm
    exact hnew e he heq
  obtain ⟨hring, hdata, -, hlive⟩ := lockedListAdd_ring h.ring hnodes hadd
  constructor
  · rw [List.map_append, List.map_singleton]
    exact hring
  · intro e he
    rw [hdata]
    rcases List.mem_append.mp he with hold | hlast
    · rw [Function.update_of_ne (hnew e hold)]
      exact h.data e hold
    · rw [List.mem_singleton.mp hlast, Function.update_self]
  · intro e he
    rw [hlive]
    rcases List.mem_append.mp he with hold | hlast
    · exact List.mem_cons_of_mem _ (h.live e hold)
    · rw [List.mem_singleton.mp hlast]
      exact List.mem_cons_self

/-- A ring without one of its nodes: the head moves on if it is the one. -/
theorem listRemove_ring {t₁ t₂ : List Nat} (h : RingAt f (t₁ ++ x :: t₂)) :
    RingAt (listRemove f x) (t₁ ++ t₂) := by
  cases t₁ with
  | nil =>
    obtain ⟨hhead, hring⟩ := h
    cases t₂ with
    | nil =>
      have hnext : f.links.next x = x := by
        have hj := hring.joined
        simp only [List.cons_append, List.nil_append, List.isChain_cons_cons] at hj
        exact hj.1.1
      simp [RingAt, listRemove, hhead, hnext]
    | cons y rest =>
      have hj := hring.joined
      rw [List.cons_append, List.cons_append, List.isChain_cons_cons] at hj
      have hnext : f.links.next x = y := hj.1.1
      have hyx : y ≠ x := fun e => (List.nodup_cons.mp hring.nodup).1 (e ▸ List.mem_cons_self)
      refine ⟨?_, unlinkNode_ring_head hring⟩
      simp [listRemove, hhead, hnext, hyx]
  | cons head rest =>
    obtain ⟨hhead, hring⟩ := h
    have hne : head ≠ x := by
      rintro rfl
      exact (List.nodup_cons.mp hring.nodup).1 (List.mem_append_right _ List.mem_cons_self)
    refine ⟨?_, unlinkNode_ring hring⟩
    simp [listRemove, hhead, hne]

/-- The other elements. -/
theorem Listing.filter_eq (h : Listing f (pre ++ e :: post)) :
    ((pre ++ e :: post).filter fun y => y.node != e.node) = pre ++ post := by
  have hnd := h.nodup
  rw [List.map_append, List.map_cons, List.nodup_append, List.nodup_cons] at hnd
  have hpre : ∀ y ∈ pre, (y.node != e.node) = true := fun y hy =>
    bne_iff_ne.mpr (hnd.2.2 _ (List.mem_map_of_mem hy) _ List.mem_cons_self)
  have hpost : ∀ y ∈ post, (y.node != e.node) = true := fun y hy =>
    bne_iff_ne.mpr fun heq => hnd.2.1.1 (List.mem_map.mpr ⟨y, hy, heq⟩)
  rw [List.filter_append, List.filter_cons_of_neg (by simp), List.filter_eq_self.mpr hpre,
    List.filter_eq_self.mpr hpost]

/-- **`remove`** takes the element out, wherever it is. -/
theorem Listing.listRemove (h : Listing f (pre ++ e :: post)) :
    Listing (listRemove f e.node) (pre ++ post) := by
  have hmem : ∀ y ∈ pre ++ post, y ∈ pre ++ e :: post := fun y hy =>
    ((List.sublist_cons_self e post).append_left pre).subset hy
  constructor
  · have hring := h.ring
    rw [List.map_append, List.map_cons] at hring
    rw [List.map_append]
    exact listRemove_ring hring
  · exact fun y hy => h.data y (hmem y hy)
  · exact fun y hy => h.live y (hmem y hy)

/-- A block that is no node may go. -/
theorem Listing.kfree (h : Listing f entries) (hblock : ∀ e ∈ entries, e.node ≠ block) :
    Listing (f.kfree block) entries where
  ring := by
    have hring := h.ring
    cases hnodes : entries.map (·.node) with
    | nil =>
      rw [hnodes] at hring
      exact hring
    | cons head rest =>
      rw [hnodes] at hring
      exact hring
  data := h.data
  live e he := List.mem_filter.mpr ⟨h.live e he, bne_iff_ne.mpr (hblock e he)⟩

/-- **`locked_list_remove`**. -/
theorem Listing.remove (h : Listing f entries) (hx : x ∈ entries.map (·.node)) :
    Listing (lockedListRemove f x) (entries.filter fun e => e.node != x) := by
  obtain ⟨e, he, rfl⟩ := List.mem_map.mp hx
  obtain ⟨pre, post, rfl⟩ := List.append_of_mem he
  have hfilter := h.filter_eq
  have hother : ∀ y ∈ pre ++ post, y.node ≠ e.node := by
    intro y hy
    rw [← hfilter] at hy
    exact bne_iff_ne.mp (List.mem_filter.mp hy).2
  rw [hfilter]
  exact h.listRemove.kfree hother

/-- One call keeps the ring. -/
theorem Listing.step {s t : ListRun} {c : ListCall} (h : Listing s.list s.entries)
    (hstep : stepOf listCall s c t) : Listing t.list t.entries := by
  cases c with
  | add data block =>
    cases block with
    | none =>
      obtain rfl := Option.some.inj hstep
      exact h
    | some block =>
      simp only [stepOf, listCall] at hstep
      split at hstep
      · simp at hstep
      · rename_i hblock
        obtain ⟨f, hadd, rfl⟩ := Option.map_eq_some_iff.mp hstep
        exact h.add hblock hadd
  | remove node =>
    simp only [stepOf, listCall] at hstep
    split at hstep
    · rename_i hx
      obtain rfl := Option.some.inj hstep
      exact h.remove hx
    · simp at hstep

/-- **On every run** the list is the ring of what was added and not removed. -/
theorem listing_of_run {mem : Files} {calls : List ListCall} {s : ListRun}
    (hrun : Run (stepOf listCall) (ListRun.init mem) calls s) : Listing s.list s.entries := by
  have hstart : Listing (ListRun.init mem).list (ListRun.init mem).entries :=
    ⟨rfl, nofun, nofun⟩
  have hstep : ∀ (s : ListRun) c t, Listing s.list s.entries → stepOf listCall s c t →
      Listing t.list t.entries := fun _ _ _ h => h.step
  exact hrun.invariant hstep hstart

/-! ## 5. Going through the list -/

section

variable {σ : Type} {func : Nat → σ → Int × σ}

/-- A callback that never stops is called for every data, in order. -/
theorem visit_all (hfunc : ∀ d a, (func d a).1 = 0) :
    ∀ (ds : List Nat) (a : σ), visit func ds a = (0, ds.foldl (fun a d => (func d a).2) a)
  | [], _ => rfl
  | d :: ds, a => by
    rw [visit, if_neg (not_not.mpr (hfunc d a)), visit_all hfunc ds]
    rfl

/-- The loop goes on to the node before the head. -/
theorem forEachLoop_chain {l : List Nat} {p fuel : Nat} {a : σ}
    (h : (p :: l ++ [head]).IsChain (Joined f.links)) (hnd : (p :: l).Nodup)
    (hfuel : l.length < fuel) :
    forEachLoop f func head fuel p a = some (visit func ((p :: l).map f.data) a) := by
  induction l generalizing p fuel a with
  | nil =>
    obtain ⟨k, rfl⟩ := Nat.exists_eq_add_of_lt hfuel
    have hprev : p = f.links.prev head := by
      simpa [Joined] using (List.isChain_cons_cons.mp h).1.2.symm
    rw [forEachLoop, List.map_singleton, visit, ← hprev]
    by_cases hret : (func (f.data p) a).1 = 0
    · simp [hret, visit]
    · simp [hret]
  | cons y l ih =>
    obtain ⟨k, rfl⟩ := Nat.exists_eq_add_of_lt hfuel
    obtain ⟨hpy, hrest⟩ := List.isChain_cons_cons.mp h
    obtain ⟨A, last, hlast⟩ := exists_last y l
    have hprev : f.links.prev head = last := by
      have hchain : (y :: l ++ [head]).IsChain (Joined f.links) := hrest
      rw [hlast, List.append_assoc, List.singleton_append, List.isChain_append_cons_cons] at hchain
      exact hchain.2.1.2
    have hne : p ≠ f.links.prev head := by
      intro heq
      have hmem : p ∈ y :: l := by
        rw [hlast, heq, hprev]
        exact List.mem_append_right _ (List.mem_singleton_self _)
      exact (List.nodup_cons.mp hnd).1 hmem
    have hlen : l.length < (y :: l).length + k := by simp; omega
    rw [forEachLoop, List.map_cons, visit]
    by_cases hret : (func (f.data p) a).1 = 0
    · simpa [hret, hne, hpy.1] using ih hrest (List.nodup_cons.mp hnd).2 hlen
    · simp [hret]

/-- **`locked_list_for_each`** calls the function for each element in the order of insertion. -/
theorem Listing.forEach (h : Listing f entries) (a : σ) :
    lockedListForEach f func a = some (visit func (entries.map (·.data)) a) := by
  have hring := h.ring
  have hlen : (entries.map (·.node)).length ≤ f.live.length := by
    rw [List.length_map]
    exact h.length_le
  rw [← h.map_data, lockedListForEach]
  cases hnodes : entries.map (·.node) with
  | nil =>
    rw [hnodes] at hring
    have hhead : f.head = none := hring
    rw [hhead]
    rfl
  | cons head rest =>
    rw [hnodes] at hring
    rw [hnodes, List.length_cons] at hlen
    rw [hring.1]
    exact forEachLoop_chain hring.2.joined hring.2.nodup (Nat.lt_succ_of_lt hlen)

end

/-- An iterator that is at its end returns `NULL`. -/
theorem iterCalls_end {iter : ListIterator} (hend : lockedListIterNext f iter = (none, iter)) :
    ∀ k, iterCalls f k iter = List.replicate k none
  | 0 => rfl
  | k + 1 => by
    rw [iterCalls, hend, iterCalls_end hend k]
    rfl

/-- An iterator goes on to the node before the head, and then stops. -/
theorem iterCalls_chain (hhead : f.head = some head) {l : List Nat} {p : Nat} (k : Nat)
    (h : (p :: l ++ [head]).IsChain (Joined f.links)) (hl : head ∉ l) :
    iterCalls f (l.length + 1 + k) ⟨some p, false⟩ =
      ((p :: l).map fun x => some (f.data x)) ++ List.replicate k none := by
  induction l generalizing p with
  | nil =>
    have hnext : f.links.next p = head := by simpa [Joined] using (List.isChain_cons_cons.mp h).1.1
    have hend : lockedListIterNext f ⟨some head, true⟩ = (none, ⟨some head, true⟩) := by
      simp [lockedListIterNext]
    have hfirst : lockedListIterNext f ⟨some p, false⟩ = (some (f.data p), ⟨some head, true⟩) := by
      simp [lockedListIterNext, hhead, hnext]
    rw [List.length_nil, Nat.zero_add, Nat.add_comm, iterCalls, hfirst, iterCalls_end hend k]
    rfl
  | cons y l ih =>
    obtain ⟨hpy, hrest⟩ := List.isChain_cons_cons.mp h
    have hy : head ≠ y := fun e => hl (e ▸ List.mem_cons_self)
    have hfirst : lockedListIterNext f ⟨some p, false⟩ = (some (f.data p), ⟨some y, false⟩) := by
      simp [lockedListIterNext, hhead, hpy.1, hy]
    have hcount : (y :: l).length + 1 + k = l.length + 1 + k + 1 := by simp; omega
    rw [hcount, iterCalls, hfirst, ih hrest fun hm => hl (List.mem_cons_of_mem _ hm)]
    rfl

/-- **The iterator** returns the data of each element in the order of insertion, and then `NULL`
for ever. -/
theorem Listing.iterate (h : Listing f entries) (k : Nat) :
    iterCalls f (entries.length + k) (lockedListIterInit f) =
      (entries.map fun e => some e.data) ++ List.replicate k none := by
  have hring := h.ring
  have hdata : (entries.map fun e => some e.data) =
      (entries.map (·.node)).map fun x => some (f.data x) := by
    rw [List.map_map]
    exact List.map_congr_left fun e he => congrArg some (h.data e he).symm
  have hlen : entries.length = (entries.map (·.node)).length := (List.length_map _).symm
  rw [hdata, hlen, lockedListIterInit]
  cases hnodes : entries.map (·.node) with
  | nil =>
    rw [hnodes] at hring
    have hhead : f.head = none := hring
    rw [hhead, List.length_nil, Nat.zero_add, iterCalls_end rfl]
    rfl
  | cons head rest =>
    rw [hnodes] at hring
    rw [hring.1]
    exact iterCalls_chain hring.1 k hring.2.joined (List.nodup_cons.mp hring.2.nodup).1

/-- The list is one ring through its head, which is `NULL` exactly when nothing is in the list, and
both ways to go through it see every element once, in the order of insertion, and then stop. -/
structure ListKept (s : ListRun) : Prop where
  ring : RingAt s.list (s.entries.map (·.node))
  inverse : ∀ x ∈ s.entries.map (·.node),
    s.list.links.prev (s.list.links.next x) = x ∧ s.list.links.next (s.list.links.prev x) = x
  empty : s.list.head = none ↔ s.entries = []
  forEach : ∀ {σ : Type} (func : Nat → σ → Int × σ) (a : σ), (∀ d a, (func d a).1 = 0) →
    lockedListForEach s.list func a =
      some (0, (s.entries.map (·.data)).foldl (fun a d => (func d a).2) a)
  iterate : ∀ k, iterCalls s.list (s.entries.length + k) (lockedListIterInit s.list) =
    (s.entries.map fun e => some e.data) ++ List.replicate k none

/-- **Every run keeps the ring**, and what goes through it sees what was added and not removed. -/
theorem lockedList_kept {mem : Files} {calls : List ListCall} {s : ListRun}
    (hrun : Run (stepOf listCall) (ListRun.init mem) calls s) : ListKept s := by
  have h := listing_of_run hrun
  constructor
  · exact h.ring
  · exact fun x hx => h.ring.inverse hx
  · rw [h.ring.head_none_iff, List.map_eq_nil_iff]
  · intro σ func a hfunc
    rw [h.forEach, visit_all hfunc]
  · exact h.iterate

/-- A list of three, without the first. -/
theorem lockedList_kept_three : ∃ s : ListRun,
    Run (stepOf listCall) (ListRun.init .init)
      [.add 7 (some 1), .add 8 (some 2), .add 7 none, .remove 1, .add 9 (some 3)] s ∧
    s.entries = [⟨2, 8⟩, ⟨3, 9⟩] ∧ ListKept s := by
  obtain ⟨s, hrun, hentries⟩ : ∃ s, Run (stepOf listCall) (ListRun.init .init)
      [.add 7 (some 1), .add 8 (some 2), .add 7 none, .remove 1, .add 9 (some 3)] s ∧
      s.entries = [⟨2, 8⟩, ⟨3, 9⟩] :=
    ⟨_, .cons rfl (.cons rfl (.cons rfl (.cons rfl (.cons rfl (.nil _))))), rfl⟩
  exact ⟨s, hrun, hentries, lockedList_kept hrun⟩

/-! ## 6. Searching -/

/-- `locked_list_find_data` finds an element with the value exactly when there is one, and
`locked_list_remove_match` removes exactly one such element and returns 1, or returns 0 and leaves
the list as it is. -/
structure FindRight (s : ListRun) (d : Nat) : Prop where
  find : ∃ r, lockedListFindData s.list d = some r ∧
    (∀ x, r = some x → ⟨x, d⟩ ∈ s.entries) ∧ (r = none → ∀ e ∈ s.entries, e.data ≠ d)
  removeMatch : ∃ ret f, lockedListRemoveMatchRet s.list d = some (ret, f) ∧
    ((∃ e ∈ s.entries, e.data = d) → ret = 1 ∧ ∃ pre e post, s.entries = pre ++ e :: post ∧
      e.data = d ∧ Listing f (pre ++ post)) ∧
    ((∀ e ∈ s.entries, e.data ≠ d) → ret = 0 ∧ f = s.list)

/-- The list is not empty, and its first element is not the only one with the value. -/
def BehindHead (entries : List ListEntry) (d : Nat) : Prop :=
  ∃ e rest, entries = e :: rest ∧ (e.data = d → ∃ e' ∈ rest, e'.data = d)

/-- Both searches are the same function with and without its return value. -/
theorem lockedListRemoveMatchRet_snd (f : Files) (d : Nat) :
    (lockedListRemoveMatchRet f d).map (·.2) = lockedListRemoveMatch f d := by
  unfold lockedListRemoveMatchRet lockedListRemoveMatch
  cases findData f d with
  | none => rfl
  | some r => cases r <;> rfl

/-- **`find_data`** finds the first element behind the head. -/
theorem Listing.findData (h : Listing f (e :: post)) :
    findData f d = some ((post.find? fun e => e.data == d).map (·.node)) := by
  have hring := h.ring
  have hlen := h.length_le
  rw [List.map_cons] at hring
  have hle : (post.map (·.node)).length ≤ f.live.length := by
    rw [List.length_map]
    exact Nat.le_of_succ_le hlen
  rw [findData_ring hring hle, List.find?_map]
  refine congrArg (fun r => some (Option.map _ r)) (List.find?_congr fun y hy => ?_)
  exact congrArg (· == d) (h.data y (List.mem_cons_of_mem _ hy))

/-- Behind the head is an element with the value. -/
theorem Listing.find_behind (h : Listing f (e :: post)) {y : ListEntry}
    (hfind : (post.find? fun e => e.data == d) = some y) : FindRight ⟨f, e :: post⟩ d := by
  obtain ⟨hy, p₁, p₂, rfl, -⟩ := List.find?_eq_some_iff_append.mp hfind
  obtain rfl : y.data = d := beq_iff_eq.mp hy
  have hdata := h.findData (d := y.data)
  rw [hfind] at hdata
  have hmem : y ∈ e :: (p₁ ++ y :: p₂) := by simp
  refine ⟨⟨some y.node, hdata, fun x hx => ?_, nofun⟩, ⟨1, Task.listRemove f y.node, ?_, ?_, ?_⟩⟩
  · obtain rfl := Option.some.inj hx
    exact hmem
  · rw [lockedListRemoveMatchRet, hdata]
    rfl
  · have hlist : Listing f ((e :: p₁) ++ y :: p₂) := h
    exact fun _ => ⟨rfl, e :: p₁, y, p₂, rfl, rfl, hlist.listRemove⟩
  · exact fun hall => absurd rfl (hall y hmem)

/-- Behind the head is no element with the value. -/
theorem Listing.find_missing (h : Listing f (e :: post))
    (hfind : (post.find? fun e => e.data == d) = none) :
    FindRight ⟨f, e :: post⟩ d ↔ e.data ≠ d := by
  have hdata := h.findData (d := d)
  rw [hfind] at hdata
  have hpost : ∀ y ∈ post, y.data ≠ d := fun y hy heq =>
    List.find?_eq_none.mp hfind y hy (beq_iff_eq.mpr heq)
  constructor
  · intro hright
    obtain ⟨r, hr, -, hnone⟩ := hright.find
    obtain rfl := Option.some.inj (hdata.symm.trans hr)
    exact hnone rfl e List.mem_cons_self
  · intro he
    have hall : ∀ y ∈ e :: post, y.data ≠ d := List.forall_mem_cons.mpr ⟨he, hpost⟩
    refine ⟨⟨none, hdata, nofun, fun _ => hall⟩, ⟨0, f, ?_, ?_, fun _ => ⟨rfl, rfl⟩⟩⟩
    · rw [lockedListRemoveMatchRet, hdata]
      rfl
    · rintro ⟨y, hy, hyd⟩
      exact absurd hyd (hall y hy)

/-- **A search is right exactly when** the list is not empty and the first element is not the only
one with the value. -/
theorem findData_right_iff {mem : Files} {calls : List ListCall} {s : ListRun}
    (hrun : Run (stepOf listCall) (ListRun.init mem) calls s) (d : Nat) :
    FindRight s d ↔ BehindHead s.entries d := by
  have h := listing_of_run hrun
  obtain ⟨f, entries⟩ := s
  cases entries with
  | nil =>
    refine iff_of_false (fun hright => ?_) (by rintro ⟨e, rest, heq, -⟩; exact nomatch heq)
    have hhead : f.head = none := h.ring
    obtain ⟨r, hr, -⟩ := hright.find
    simp [lockedListFindData, Task.findData, hhead] at hr
  | cons e rest =>
    have hbehind : BehindHead (e :: rest) d ↔ (e.data = d → ∃ e' ∈ rest, e'.data = d) := by
      constructor
      · rintro ⟨e', rest', heq, himp⟩
        obtain ⟨rfl, rfl⟩ := List.cons.inj heq
        exact himp
      · exact fun himp => ⟨e, rest, rfl, himp⟩
    rw [hbehind]
    cases hfind : rest.find? fun e => e.data == d with
    | some y =>
      have hy := List.find?_eq_some_iff_append.mp hfind
      refine iff_of_true (h.find_behind hfind) fun _ => ⟨y, List.mem_of_find?_eq_some hfind, ?_⟩
      exact beq_iff_eq.mp hy.1
    | none =>
      rw [h.find_missing hfind]
      refine imp_congr_right fun _ => iff_of_false id ?_
      rintro ⟨y, hy, hyd⟩
      exact List.find?_eq_none.mp hfind y hy (beq_iff_eq.mpr hyd)

/-- The second of two elements is found. -/
theorem findData_right_second : ∃ s : ListRun,
    Run (stepOf listCall) (ListRun.init .init) [.add 7 (some 1), .add 8 (some 2)] s ∧
    FindRight s 8 := by
  obtain ⟨s, hrun, hentries⟩ : ∃ s, Run (stepOf listCall) (ListRun.init .init)
      [.add 7 (some 1), .add 8 (some 2)] s ∧ s.entries = [⟨1, 7⟩, ⟨2, 8⟩] :=
    ⟨_, .cons rfl (.cons rfl (.nil _)), rfl⟩
  exact ⟨s, hrun, (findData_right_iff hrun 8).mpr ⟨_, _, hentries, by decide⟩⟩

/-- In a list of one element that element is not found and not removed, and an empty list is read
through `NULL`. -/
theorem findData_misses_head : ∃ s : ListRun,
    Run (stepOf listCall) (ListRun.init .init) [.add 7 (some 1)] s ∧ s.entries = [⟨1, 7⟩] ∧
      lockedListFindData s.list 7 = some none ∧
      (lockedListRemoveMatchRet s.list 7).map (·.1) = some 0 ∧ ¬ FindRight s 7 ∧
      ¬ FindRight (ListRun.init .init) 7 := by
  refine ⟨_, .cons rfl (.nil _), rfl, rfl, rfl, fun hright => ?_, fun hright => ?_⟩
  · obtain ⟨r, hr, -, hnone⟩ := hright.find
    obtain rfl := Option.some.inj hr
    exact hnone rfl ⟨1, 7⟩ List.mem_cons_self rfl
  · obtain ⟨r, hr, -⟩ := hright.find
    exact nomatch hr

end AndixOs.Task
