/-
# Lists that change while they are walked

`list_for_each_safe` of `list.h` keeps two locals: `pos`, the node its body runs for, and `next`,
which it reads before the body runs.  So the body may take out `pos`.  The comment says that the
loop is safe against modifications of the list, but it is not safe against all of them: when the
body takes out the node behind `pos`, the loop goes on with a node that is in no list, whose `next`
is itself; and a node that is added behind the last one is not seen.

`ListWorld` is a list with any number of such loops under way, and a record of what was added and
not removed.  Every element of the record has a number, and the element whose turn it is in a loop
is the first one with a number that the loop has not passed.

* `listed_of_run`: on every run the nodes are a ring, the same in both directions, with what was
  added and not removed, in the order of insertion;
* `walks_of_run`: the loops are at the element whose turn it is, as long as no call takes out the
  node a loop has read as `next`, and none adds to a list whose last element a loop is at.
-/
import AndixOs.Lib.Run
import AndixOs.Tee.KernelList

namespace AndixOs.Tee

open AndixOs

/-! ## 1. Lists and loops -/

/-- An element: its number, and the node with its data. -/
structure Element where
  id : Nat
  node : Nat
  data : Nat
  deriving DecidableEq

/-- The first element that a loop has not passed. -/
def nextTurn (elements : List Element) (passed : Nat) : Option Element :=
  elements.find? fun e => decide (passed ≤ e.id)

/-- Where an element is, and the head where there is none. -/
def place (head : Nat) (turn : Option Element) : Nat := (turn.map (·.node)).getD head

/-- A `list_for_each_safe`: its two locals and, for the record, the element whose turn it is, the
elements whose turn it was so far, and the numbers it has passed. -/
structure Walk where
  pos : Nat
  next : Nat
  turn : Option Element
  seen : List Element
  passed : Nat
  deriving DecidableEq

/-- A list, its loops, and what was added to it and not removed. -/
structure ListWorld where
  list : KernelLists
  elements : List Element
  added : Nat
  walks : Nat → Option Walk

/-- A list after `list_init`, in a memory that holds anything else. -/
def ListWorld.init (mem : KernelLists) (head : Nat) : ListWorld :=
  ⟨listInit (mem.kmalloc head) head 0, [], 0, fun _ => none⟩

/-- A loop that comes to `pos`, with `next` read there. -/
def ListWorld.walkAt (s : ListWorld) (seen : List Element) (passed pos : Nat) : Walk :=
  let turn := nextTurn s.elements passed
  { pos := pos
    next := s.list.links.next pos
    turn := turn
    seen := seen ++ turn.toList
    passed := (turn.map (·.id + 1)).getD passed }

/-- What happens to a list: the calls, with what `kmalloc` returns for a new node, the two parts of
the loop head, and a `break` or `return` out of a loop. -/
inductive ListEvent where
  | add (data : Nat) (block : Option Nat)
  | remove (node : Nat)
  | first (i : Nat)
  | next (i : Nat)
  | leave (i : Nat)

/-- One event.  `kmalloc` gives no live block away, and only a node of the list is removed. -/
def listStep (head : Nat) (s : ListWorld) : ListEvent → Option ListWorld
  | .add _ none => some s
  | .add data (some block) =>
    if block ∈ s.list.live then none
    else (listAdd s.list head data (some block)).map fun f =>
      { s with list := f, elements := s.elements ++ [⟨s.added, block, data⟩], added := s.added + 1 }
  | .remove node =>
    if node ∈ s.elements.map (·.node) then
      some { s with list := listRemove s.list node,
                    elements := s.elements.filter fun e => e.node != node }
    else none
  | .first i =>
    some { s with walks :=
      Function.update s.walks i (some (s.walkAt [] 0 (s.list.links.next head))) }
  | .next i =>
    match s.walks i with
    | none => none
    | some w =>
      if w.pos ≠ head then
        some { s with walks := Function.update s.walks i (some (s.walkAt w.seen w.passed w.next)) }
      else none
  | .leave i => some { s with walks := Function.update s.walks i none }

/-- The list is a ring of these nodes, by `next` and backwards by `prev`, with their data. -/
structure Listed (head : Nat) (s : ListWorld) : Prop where
  ring : IsRing s.list.links head (s.elements.map (·.node))
  flip : IsRing s.list.links.flip head (s.elements.map (·.node)).reverse
  data : ∀ e ∈ s.elements, s.list.data e.node = e.data
  listData : listData s.list head = some (s.elements.map (·.data))
  order : s.elements.Pairwise fun a b => a.id < b.id

/-- The loop is at the element whose turn it is, and no element has its turn twice. -/
structure Walk.Right (head : Nat) (w : Walk) : Prop where
  pos : w.pos = place head w.turn
  once : w.seen.Pairwise fun a b => a.id < b.id

/-- The elements that the loop has passed had their turn. -/
def Walk.Complete (w : Walk) (elements : List Element) : Prop :=
  ∀ e ∈ elements, e.id < w.passed → e ∈ w.seen

variable {head node block d i k : Nat} {s t : ListWorld} {w : Walk} {e e' : Element}
  {elements pre post : List Element} {ev : ListEvent}

/-! ## 2. Whose turn it is -/

theorem nextTurn_mem (h : nextTurn elements k = some e) : e ∈ elements := List.mem_of_find?_eq_some h

theorem nextTurn_le (h : nextTurn elements k = some e) : k ≤ e.id := by
  simpa using List.find?_some h

theorem nextTurn_cons (x : Element) (elements : List Element) (k : Nat) :
    nextTurn (x :: elements) k = if k ≤ x.id then some x else nextTurn elements k := by
  by_cases hx : k ≤ x.id <;> simp [nextTurn, hx]

/-- The first turn of all. -/
theorem nextTurn_zero (elements : List Element) : nextTurn elements 0 = elements.head? := by
  cases elements with
  | nil => rfl
  | cons x elements => simp [nextTurn_cons]

/-- Behind an element comes the turn of the next one. -/
theorem nextTurn_succ (h : (pre ++ e :: post).Pairwise fun a b => a.id < b.id) :
    nextTurn (pre ++ e :: post) (e.id + 1) = post.head? := by
  induction pre with
  | nil =>
    obtain ⟨hpost, -⟩ := List.pairwise_cons.mp h
    rw [List.nil_append, nextTurn_cons, if_neg (by simp)]
    cases post with
    | nil => rfl
    | cons y post =>
      have hy : e.id + 1 ≤ y.id := hpost y List.mem_cons_self
      rw [nextTurn_cons, if_pos hy, List.head?_cons]
  | cons x pre ih =>
    obtain ⟨hx, hrest⟩ := List.pairwise_cons.mp h
    have hlt : x.id < e.id := hx e (by simp)
    rw [List.cons_append, nextTurn_cons, if_neg (by omega), ih hrest]

/-- A turn stays when an element is added behind it. -/
theorem nextTurn_append (h : nextTurn elements k = some e) (new : Element) :
    nextTurn (elements ++ [new]) k = some e := by
  unfold nextTurn at *
  rw [List.find?_append, h]
  rfl

/-- A turn stays when another element is taken out, and where there is none there is none. -/
theorem nextTurn_filter {q : Element → Bool} (h : ∀ e, nextTurn elements k = some e → q e = true) :
    nextTurn (elements.filter q) k = nextTurn elements k := by
  induction elements with
  | nil => rfl
  | cons x elements ih =>
    rw [nextTurn_cons] at h ⊢
    by_cases hx : k ≤ x.id
    · rw [if_pos hx] at h ⊢
      rw [List.filter_cons_of_pos (h x rfl), nextTurn_cons, if_pos hx]
    · rw [if_neg hx] at h ⊢
      rw [← ih h]
      cases hq : q x with
      | true => rw [List.filter_cons_of_pos hq, nextTurn_cons, if_neg hx]
      | false => rw [List.filter_cons_of_neg (by simp [hq])]

/-! ## 3. The list -/

/-- What every run keeps of the list itself. -/
structure ListInv (head : Nat) (s : ListWorld) : Prop where
  ring : IsRing s.list.links head (s.elements.map (·.node))
  live : ∀ x ∈ head :: s.elements.map (·.node), x ∈ s.list.live
  data : ∀ e ∈ s.elements, s.list.data e.node = e.data
  order : s.elements.Pairwise fun a b => a.id < b.id
  numbered : ∀ e ∈ s.elements, e.id < s.added

theorem listInv_init (mem : KernelLists) (head : Nat) : ListInv head (.init mem head) where
  ring := isRing_single (by simp [ListWorld.init, listInit, Links.setNext, Links.setPrev])
    (by simp [ListWorld.init, listInit, Links.setNext, Links.setPrev])
  live := by simp [ListWorld.init, listInit, KernelLists.kmalloc]
  data := by simp [ListWorld.init]
  order := List.Pairwise.nil
  numbered := by simp [ListWorld.init]

/-- **`list_add`**: the new element is the last. -/
theorem ListInv.add (h : ListInv head s) (hb : block ∉ s.list.live)
    (hs : listStep head s (.add d (some block)) = some t) :
    ListInv head t ∧ t.elements = s.elements ++ [⟨s.added, block, d⟩] ∧
      t.added = s.added + 1 ∧ t.walks = s.walks := by
  simp only [listStep, if_neg hb, listAdd, Option.map_some, Option.some.injEq] at hs
  subst hs
  have hnew : block ∉ head :: s.elements.map (·.node) := fun hm => hb (h.live block hm)
  refine ⟨⟨?_, ?_, ?_, ?_, ?_⟩, rfl, rfl, rfl⟩
  · rw [List.map_append]
    exact linkNode_ring h.ring hnew
  · intro x hx
    rw [List.map_append, ← List.cons_append] at hx
    rcases List.mem_append.mp hx with hx | hx
    · exact List.mem_cons_of_mem _ (h.live x hx)
    · rw [List.mem_singleton.mp hx]
      exact List.mem_cons_self
  · intro e he
    rcases List.mem_append.mp he with he | he
    · have hne : e.node ≠ block := by
        intro heq
        exact hnew (List.mem_cons_of_mem _ (List.mem_map.mpr ⟨e, he, heq⟩))
      exact (Function.update_of_ne hne _ _).trans (h.data e he)
    · rw [List.mem_singleton.mp he]
      exact Function.update_self ..
  · refine List.pairwise_append.mpr ⟨h.order, List.pairwise_singleton _ _, ?_⟩
    intro a ha b hb'
    rw [List.mem_singleton.mp hb']
    exact h.numbered a ha
  · intro e he
    rcases List.mem_append.mp he with he | he
    · exact Nat.lt_succ_of_lt (h.numbered e he)
    · rw [List.mem_singleton.mp he]
      exact Nat.lt_succ_self _

/-- **`list_remove`**: the element is gone. -/
theorem ListInv.remove (h : ListInv head s) (hs : listStep head s (.remove node) = some t) :
    ListInv head t ∧ t.elements = s.elements.filter (fun e => e.node != node) ∧
      t.added = s.added ∧ t.walks = s.walks := by
  by_cases hmem : node ∈ s.elements.map (·.node)
  · simp only [listStep, if_pos hmem, Option.some.injEq] at hs
    subst hs
    have hnd : (s.elements.map (·.node)).Nodup := (List.nodup_cons.mp h.ring.nodup).2
    have hne : head ≠ node := by
      rintro rfl
      exact (List.nodup_cons.mp h.ring.nodup).1 hmem
    have herase : (s.elements.filter fun e => e.node != node).map (·.node) =
        (s.elements.map (·.node)).erase node := by
      rw [hnd.erase_eq_filter, List.filter_map]
      rfl
    refine ⟨⟨?_, ?_, ?_, h.order.filter _, ?_⟩, rfl, rfl, rfl⟩
    · obtain ⟨t₁, t₂, -, hsplit, hcut⟩ := List.exists_erase_eq hmem
      simp only [herase, hcut]
      exact unlinkNode_ring (hsplit ▸ h.ring)
    · intro x hx
      simp only [herase] at hx
      have hxne : x ≠ node := by
        rcases List.mem_cons.mp hx with rfl | hx
        · exact hne
        · rintro rfl
          exact hnd.not_mem_erase hx
      refine List.mem_filter.mpr ⟨h.live x ?_, bne_iff_ne.mpr hxne⟩
      exact List.mem_cons.mpr ((List.mem_cons.mp hx).imp_right List.mem_of_mem_erase)
    · intro e he
      exact h.data e (List.mem_filter.mp he).1
    · intro e he
      exact h.numbered e (List.mem_filter.mp he).1
  · rw [listStep, if_neg hmem] at hs
    exact nomatch hs

/-- The parts of a loop do not touch the list. -/
theorem ListInv.congr (h : ListInv head s) (hlist : t.list = s.list)
    (helements : t.elements = s.elements) (hadded : t.added = s.added) : ListInv head t := by
  constructor
  · rw [hlist, helements]
    exact h.ring
  · rw [hlist, helements]
    exact h.live
  · rw [hlist, helements]
    exact h.data
  · rw [helements]
    exact h.order
  · rw [helements, hadded]
    exact h.numbered

/-- **Every event** keeps the list. -/
theorem ListInv.step (h : ListInv head s) (hs : listStep head s ev = some t) : ListInv head t := by
  cases ev with
  | add d block =>
    cases block with
    | none =>
      obtain rfl : s = t := by simpa [listStep] using hs
      exact h
    | some block =>
      by_cases hb : block ∈ s.list.live
      · simp [listStep, hb] at hs
      · exact (h.add hb hs).1
  | remove node => exact (h.remove hs).1
  | first i =>
    obtain rfl := Option.some.inj hs
    exact h.congr rfl rfl rfl
  | next i =>
    rw [listStep] at hs
    split at hs
    · exact nomatch hs
    · split at hs
      · obtain rfl := Option.some.inj hs
        exact h.congr rfl rfl rfl
      · exact nomatch hs
  | leave i =>
    obtain rfl := Option.some.inj hs
    exact h.congr rfl rfl rfl

/-- What a reader of the list sees. -/
theorem ListInv.listed (h : ListInv head s) : Listed head s where
  ring := h.ring
  flip := h.ring.flip
  data := h.data
  order := h.order
  listData := by
    have hnd : (s.elements.map (·.node)).Nodup := (List.nodup_cons.mp h.ring.nodup).2
    have hsub : s.elements.map (·.node) ⊆ s.list.live :=
      fun x hx => h.live x (List.mem_cons_of_mem _ hx)
    have hlen : (s.elements.map (·.node)).length < s.list.fuel :=
      Nat.lt_succ_of_le (hnd.subperm hsub).length_le
    rw [Tee.listData, walkNodes_ring h.ring hlen, Option.map_some, List.map_map]
    exact congrArg some (List.map_congr_left h.data)

/-! ## 4. The loops -/

/-- What an event must leave alone: the node that a loop under way has read as `next`; and where a
loop is at the last element, nothing is added. -/
def ListEvent.Ok (head : Nat) (s : ListWorld) : ListEvent → Prop
  | .add _ (some _) => ∀ i w, s.walks i = some w → w.pos ≠ head → w.next ≠ head
  | .remove node => ∀ i w, s.walks i = some w → w.pos ≠ head → w.next ≠ node
  | _ => True

/-- A loop, as long as nothing is done to the node it has read as `next`. -/
structure Walk.Inv (head : Nat) (s : ListWorld) (w : Walk) : Prop extends w.Right head where
  below : ∀ e ∈ w.seen, e.id < w.passed
  passed_le : w.passed ≤ s.added
  complete : w.Complete s.elements
  next_turn : w.pos ≠ head → w.next = place head (nextTurn s.elements w.passed)

/-- In order of the numbers, a turn is the lowest that is left. -/
theorem nextTurn_lowest (hord : elements.Pairwise fun a b => a.id < b.id)
    (h : nextTurn elements k = some e) (he' : e' ∈ elements) (hk : k ≤ e'.id) :
    e' = e ∨ e.id < e'.id := by
  induction elements with
  | nil => exact nomatch he'
  | cons x elements ih =>
    obtain ⟨hx, hrest⟩ := List.pairwise_cons.mp hord
    rw [nextTurn_cons] at h
    by_cases hkx : k ≤ x.id
    · rw [if_pos hkx, Option.some.injEq] at h
      subst h
      exact (List.mem_cons.mp he').imp_right (hx e')
    · rw [if_neg hkx] at h
      rcases List.mem_cons.mp he' with rfl | he'
      · exact absurd hk hkx
      · exact ih hrest h he'

/-- **The loop head**: a loop that comes to the place of the turn is at the element whose turn it
is, and reads the place of the turn after it. -/
theorem ListInv.walkAt {seen : List Element} {passed pos : Nat} (h : ListInv head s)
    (honce : seen.Pairwise fun a b => a.id < b.id) (hbelow : ∀ e ∈ seen, e.id < passed)
    (hle : passed ≤ s.added) (hcomplete : ∀ e ∈ s.elements, e.id < passed → e ∈ seen)
    (hpos : pos = place head (nextTurn s.elements passed)) :
    (s.walkAt seen passed pos).Inv head s := by
  cases hturn : nextTurn s.elements passed with
  | none =>
    rw [hturn] at hpos
    simp only [ListWorld.walkAt, hturn, Option.toList_none, List.append_nil, Option.map_none,
      Option.getD_none]
    exact ⟨⟨hpos, honce⟩, hbelow, hle, hcomplete, fun hne => absurd hpos hne⟩
  | some e =>
    rw [hturn] at hpos
    have he := nextTurn_mem hturn
    have hpassed := nextTurn_le hturn
    simp only [ListWorld.walkAt, hturn, Option.toList_some, Option.map_some, Option.getD_some]
    refine ⟨⟨hpos, ?_⟩, ?_, h.numbered e he, ?_, fun _ => ?_⟩
    · refine List.pairwise_append.mpr ⟨honce, List.pairwise_singleton _ _, ?_⟩
      intro a ha b hb
      rw [List.mem_singleton.mp hb]
      exact (hbelow a ha).trans_le hpassed
    · intro a ha
      rcases List.mem_append.mp ha with ha | ha
      · exact (hbelow a ha).trans_le (hpassed.trans (Nat.le_succ _))
      · rw [List.mem_singleton.mp ha]
        exact Nat.lt_succ_self _
    · intro a ha hlt
      rcases Nat.lt_or_ge a.id passed with hold | hge
      · exact List.mem_append_left _ (hcomplete a ha hold)
      · rcases nextTurn_lowest h.order hturn ha hge with rfl | hgt
        · exact List.mem_append_right _ (List.mem_singleton_self _)
        · exact absurd hlt (Nat.not_lt.mpr hgt)
    · obtain ⟨pre, post, hsplit⟩ := List.append_of_mem he
      have hring := h.ring
      have horder := h.order
      rw [hsplit, List.map_append, List.map_cons] at hring
      rw [hsplit] at horder ⊢
      rw [hpos, place, Option.map_some, Option.getD_some, hring.next_eq, nextTurn_succ horder,
        place, List.head?_map]

/-- What every run keeps of the list and its loops, as long as the events are `Ok`. -/
structure WalksInv (head : Nat) (s : ListWorld) : Prop extends ListInv head s where
  walk : ∀ i w, s.walks i = some w → w.Inv head s

/-- A call that changes no turn keeps a loop. -/
theorem Walk.Inv.changed (h : w.Inv head s) (hadded : s.added ≤ t.added)
    (hcomplete : w.Complete t.elements)
    (hturn : w.pos ≠ head → nextTurn t.elements w.passed = nextTurn s.elements w.passed) :
    w.Inv head t :=
  ⟨h.toRight, h.below, h.passed_le.trans hadded, hcomplete, fun hne => by
    rw [hturn hne]
    exact h.next_turn hne⟩

/-- A new loop or a new round of one. -/
theorem WalksInv.update (h : WalksInv head s) (hw : w.Inv head s) (i : Nat) :
    WalksInv head { s with walks := Function.update s.walks i (some w) } := by
  refine ⟨h.toListInv.congr rfl rfl rfl, ?_⟩
  intro j v hv
  by_cases hj : j = i
  · subst hj
    obtain rfl : w = v := by simpa using hv
    exact hw.changed le_rfl hw.complete fun _ => rfl
  · have hv' : s.walks j = some v := by simpa [Function.update_of_ne hj] using hv
    exact (h.walk j v hv').changed le_rfl (h.walk j v hv').complete fun _ => rfl

/-- A loop that is left. -/
theorem WalksInv.leave (h : WalksInv head s) (i : Nat) :
    WalksInv head { s with walks := Function.update s.walks i none } := by
  refine ⟨h.toListInv.congr rfl rfl rfl, ?_⟩
  intro j v (hv : Function.update s.walks i none j = some v)
  have hj : j ≠ i := by
    rintro rfl
    rw [Function.update_self] at hv
    exact absurd hv nofun
  rw [Function.update_of_ne hj] at hv
  exact (h.walk j v hv).changed le_rfl (h.walk j v hv).complete fun _ => rfl

/-- A new element, where no loop is at the last one. -/
theorem WalksInv.add (h : WalksInv head s) (hok : ListEvent.Ok head s (.add d (some block)))
    (hs : listStep head s (.add d (some block)) = some t) : WalksInv head t := by
  by_cases hb : block ∈ s.list.live
  · simp [listStep, hb] at hs
  · obtain ⟨hlist, helements, hadded, hwalks⟩ := h.toListInv.add hb hs
    refine ⟨hlist, ?_⟩
    intro i w hw
    rw [hwalks] at hw
    have hinv := h.walk i w hw
    refine hinv.changed (by omega) ?_ ?_
    · rw [helements]
      intro e he hlt
      rcases List.mem_append.mp he with he | he
      · exact hinv.complete e he hlt
      · rw [List.mem_singleton.mp he] at hlt
        exact absurd hlt (Nat.not_lt.mpr hinv.passed_le)
    · intro hne
      rw [helements]
      cases hturn : nextTurn s.elements w.passed with
      | some e => exact nextTurn_append hturn _
      | none =>
        have hnext := hinv.next_turn hne
        rw [hturn] at hnext
        exact absurd hnext (hok i w hw hne)

/-- An element less, where no loop has read its node as `next`. -/
theorem WalksInv.remove (h : WalksInv head s) (hok : ListEvent.Ok head s (.remove node))
    (hs : listStep head s (.remove node) = some t) : WalksInv head t := by
  obtain ⟨hlist, helements, hadded, hwalks⟩ := h.toListInv.remove hs
  refine ⟨hlist, ?_⟩
  intro i w hw
  rw [hwalks] at hw
  have hinv := h.walk i w hw
  refine hinv.changed (Nat.le_of_eq hadded.symm) ?_ ?_
  · rw [helements]
    intro e he hlt
    exact hinv.complete e (List.mem_filter.mp he).1 hlt
  · intro hne
    rw [helements]
    refine nextTurn_filter fun e hturn => ?_
    have hnext := hinv.next_turn hne
    rw [hturn] at hnext
    exact bne_iff_ne.mpr fun heq => hok i w hw hne (hnext.trans heq)

/-- **Every event that is `Ok`** keeps the loops at the element whose turn it is. -/
theorem WalksInv.step (h : WalksInv head s) (hok : ev.Ok head s)
    (hs : listStep head s ev = some t) : WalksInv head t := by
  cases ev with
  | add d block =>
    cases block with
    | none =>
      obtain rfl : s = t := by simpa [listStep] using hs
      exact h
    | some block => exact h.add hok hs
  | remove node => exact h.remove hok hs
  | first i =>
    obtain rfl := Option.some.inj hs
    refine h.update (h.toListInv.walkAt List.Pairwise.nil (by simp) (Nat.zero_le _) (by simp) ?_) i
    rw [nextTurn_zero, place, h.ring.next_head, List.head?_map]
  | next i =>
    rw [listStep] at hs
    split at hs
    · exact nomatch hs
    · rename_i w hw
      split at hs
      · rename_i hne
        obtain rfl := Option.some.inj hs
        have hinv := h.walk i w hw
        exact h.update (h.toListInv.walkAt hinv.once hinv.below hinv.passed_le hinv.complete
          (hinv.next_turn hne)) i
      · exact nomatch hs
  | leave i =>
    obtain rfl := Option.some.inj hs
    exact h.leave i

/-! ## 5. Runs -/

/-- **The list**, on every run, whatever is done to it while it is walked. -/
theorem listed_of_run {mem : KernelLists} {events : List ListEvent}
    (hrun : Run (stepOf (listStep head)) (.init mem head) events s) : Listed head s :=
  (hrun.invariant (fun _ _ _ h hs => h.step hs) (listInv_init mem head)).listed

/-- **The loops**, on every run of events that leave alone what a loop has read as `next`. -/
theorem walks_of_run {mem : KernelLists} {events : List ListEvent}
    (hrun : Run (Guarded (fun s ev => ev.Ok head s) (stepOf (listStep head))) (.init mem head) events s)
    (hw : s.walks i = some w) : w.Right head ∧ w.Complete s.elements := by
  have hinv : WalksInv head s := by
    refine hrun.invariant (fun _ _ _ h hs => h.step hs.1 hs.2) ⟨listInv_init mem head, ?_⟩
    simp [ListWorld.init]
  exact ⟨(hinv.walk i w hw).toRight, (hinv.walk i w hw).complete⟩

/-- **Lists and the loops over them.**  On every run the nodes are a ring through the head, backwards
by `prev`, that holds what was added and not removed, in that order.  And each loop is at the element
whose turn it is, with each turn once and none left out, on the runs whose events are `Ok`. -/
theorem lists_kept (mem : KernelLists) (head : Nat) {events : List ListEvent} {s : ListWorld}
    (hrun : Run (stepOf (listStep head)) (.init mem head) events s) :
    Listed head s ∧
      (Run (Guarded (fun s ev => ev.Ok head s) (stepOf (listStep head))) (.init mem head) events s →
        ∀ i w, s.walks i = some w → w.Right head ∧ w.Complete s.elements) :=
  ⟨listed_of_run hrun, fun hok _ _ hw => walks_of_run hok hw⟩

/-- A memory without blocks. -/
def noBlocks : KernelLists := ⟨⟨id, id⟩, fun _ => 0, []⟩

/-- A list of two elements behind a head, and a loop at the first. -/
def atFirst : List ListEvent := [.add 10 (some 1), .add 20 (some 2), .first 0]

/-- The body takes out the element it runs for, and the loop goes on with the second. -/
theorem lists_kept_remove_current :
    ∃ s, Run (stepOf (listStep 100)) (.init noBlocks 100) (atFirst ++ [.remove 1, .next 0]) s ∧
      ∃ w, s.walks 0 = some w ∧ w.pos = 2 ∧ w.Right 100 := by
  have hrun : ∃ s, Run (Guarded (fun s ev => ev.Ok 100 s) (stepOf (listStep 100)))
      (.init noBlocks 100) (atFirst ++ [.remove 1, .next 0]) s ∧
        (s.walks 0).map (·.pos) = some 2 := by
    refine ⟨_, Run.cons ⟨?_, rfl⟩ (Run.cons ⟨?_, rfl⟩ (Run.cons ⟨trivial, rfl⟩
      (Run.cons ⟨?_, rfl⟩ (Run.cons ⟨trivial, rfl⟩ (Run.nil _))))), by decide⟩
    · intro i w hw
      exact nomatch hw
    · intro i w hw
      exact nomatch hw
    · intro i w hw _
      by_cases hi : i = 0
      · subst hi
        obtain rfl := Option.some.inj hw
        decide
      · have hnone : none = some w := (Function.update_of_ne hi _ _).symm.trans hw
        exact nomatch hnone
  obtain ⟨s, hrun, hpos⟩ := hrun
  obtain ⟨w, hw, hpos⟩ := Option.map_eq_some_iff.mp hpos
  exact ⟨s, hrun.of_guarded, w, hw, hpos,
    ((lists_kept noBlocks 100 hrun.of_guarded).2 hrun 0 w hw).1⟩

/-- **A loop that leaves its list**: the body takes out the element behind the one it runs for.  The
loop goes on with the node of that element, and stays there. -/
theorem walk_leaves_list :
    ∃ s, Run (stepOf (listStep 100)) (.init noBlocks 100) (atFirst ++ [.remove 2, .next 0]) s ∧
      ∃ w, s.walks 0 = some w ∧ ¬ w.Right 100 ∧ w.pos = 2 ∧ w.next = 2 ∧
        2 ∉ s.elements.map (·.node) := by
  refine ⟨_, Run.cons rfl (Run.cons rfl (Run.cons rfl (Run.cons rfl (Run.cons rfl (Run.nil _))))),
    _, rfl, fun hright => ?_, rfl, rfl, by decide⟩
  exact absurd hright.pos (by decide)

end AndixOs.Tee
