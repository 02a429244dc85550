/-
# Rings of nodes

A circular list is kept by two pointers in each node.  `IsRing` says that the pointers of a memory
go round a list of nodes, from the head through the others and back.  The two operations change
four pointers each; what they do to the ring is `linkNode_ring` and `unlinkNode_ring`, and a walk
round the ring sees its nodes in order (`findNode_ring`).

Nothing here names the kernel.
-/
import Mathlib.Data.List.Chain
import Mathlib.Data.List.Nodup
import Mathlib.Logic.Function.Basic

namespace AndixOs

variable {α : Type}

/-! ## 1. Pointers -/

/-- The two pointers of every node. -/
structure Links (α : Type) where
  next : α → α
  prev : α → α

def Links.setNext [DecidableEq α] (m : Links α) (a b : α) : Links α := { m with next := Function.update m.next a b }
def Links.setPrev [DecidableEq α] (m : Links α) (a b : α) : Links α := { m with prev := Function.update m.prev a b }

/-- A node is put between two neighbours. -/
def linkNode [DecidableEq α] (m : Links α) (prev next node : α) : Links α :=
  (((m.setPrev next node).setNext node next).setPrev node prev).setNext prev node

/-- A node is taken out, and points to itself. -/
def unlinkNode [DecidableEq α] (m : Links α) (node : α) : Links α :=
  let next := m.next node
  let prev := m.prev node
  (((m.setPrev next prev).setNext prev next).setNext node node).setPrev node node

/-- The nodes are neighbours. -/
def Joined (m : Links α) (a b : α) : Prop := m.next a = b ∧ m.prev b = a

/-- The pointers go from the head through these nodes and back to the head. -/
structure IsRing (m : Links α) (head : α) (nodes : List α) : Prop where
  nodup : (head :: nodes).Nodup
  joined : (head :: nodes ++ [head]).IsChain (Joined m)

/-- The first node from `pos` on with the property, before the walk comes to `stop`; the outer
`none`: the walk is still going. -/
def findNode [DecidableEq α] (m : Links α) (p : α → Bool) (stop : α) : Nat → α → Option (Option α)
  | 0, _ => none
  | fuel + 1, pos =>
    if pos = stop then some none
    else if p pos then some (some pos) else findNode m p stop fuel (m.next pos)

/-- The nodes from `pos` on, before the walk comes to `stop`; `none`: it is still going. -/
def walkNodes [DecidableEq α] (m : Links α) (stop : α) : Nat → α → Option (List α)
  | 0, _ => none
  | fuel + 1, pos =>
    if pos = stop then some [] else (walkNodes m stop fuel (m.next pos)).map (pos :: ·)

variable {m m' : Links α} {a b x n head : α} {l nodes : List α}

/-! ## 2. Chains of neighbours -/

/-- A chain depends on the `next` of all its nodes but the last, and on the `prev` of all but the
first. -/
theorem IsChain.joined_congr {A B : List α} (h : (A ++ x :: B).IsChain (Joined m))
    (hnext : ∀ y ∈ (A ++ x :: B).dropLast, m'.next y = m.next y)
    (hprev : ∀ y ∈ (A ++ x :: B).tail, m'.prev y = m.prev y) :
    (A ++ x :: B).IsChain (Joined m') := by
  rw [List.isChain_iff_forall_rel_of_append_cons_cons] at h ⊢
  intro y z l₁ l₂ heq
  obtain ⟨h1, h2⟩ := h heq
  refine ⟨(hnext y ?_).trans h1, (hprev z ?_).trans h2⟩
  · rw [heq, List.dropLast_append_of_ne_nil (by simp)]
    simp
  · rw [heq]
    cases l₁ <;> simp

/-- Some node is the last of a ring. -/
theorem exists_last (head : α) (nodes : List α) : ∃ A last, head :: nodes = A ++ [last] := by
  obtain h | ⟨A, last, h⟩ := List.eq_nil_or_concat (head :: nodes)
  · simp at h
  · exact ⟨A, last, by simpa using h⟩

/-- The last node of a ring comes before the head. -/
theorem IsRing.joined_last {A : List α} {last : α} (h : IsRing m head nodes)
    (hlast : head :: nodes = A ++ [last]) :
    (A ++ [last]).IsChain (Joined m) ∧ Joined m last head := by
  have hj := h.joined
  rw [hlast, List.append_assoc, List.singleton_append, List.isChain_append_cons_cons] at hj
  exact ⟨hj.1, hj.2.1⟩

/-- The neighbours of a node behind the head. -/
theorem IsRing.joined_around {t₁ t₂ A B : List α} {p q : α} (h : IsRing m head (t₁ ++ x :: t₂))
    (hp : head :: t₁ = A ++ [p]) (hq : t₂ ++ [head] = q :: B) :
    (A ++ [p]).IsChain (Joined m) ∧ Joined m p x ∧ Joined m x q ∧
      (q :: B).IsChain (Joined m) := by
  have hj := h.joined
  have heq : head :: (t₁ ++ x :: t₂) ++ [head] = A ++ p :: x :: q :: B := by
    rw [← hq, ← List.cons_append, hp]
    simp
  rw [heq, List.isChain_append_cons_cons, List.isChain_cons_cons] at hj
  exact hj

/-! ## 3. What the operations do to a ring -/

/-- A node that points to itself is a ring. -/
theorem isRing_single (hnext : m.next head = head) (hprev : m.prev head = head) :
    IsRing m head [] where
  nodup := List.nodup_singleton head
  joined := by simp [Joined, hnext, hprev]

/-- A node linked between the last and the head is the new last. -/
theorem linkNode_ring [DecidableEq α] (h : IsRing m head nodes) (hx : x ∉ head :: nodes) :
    IsRing (linkNode m (m.prev head) head x) head (nodes ++ [x]) := by
  obtain ⟨A, last, hlast⟩ := exists_last head nodes
  obtain ⟨hA, hjoin⟩ := h.joined_last hlast
  have hnd := h.nodup
  have hhead : head ∉ nodes := (List.nodup_cons.mp hnd).1
  rw [hlast] at hnd
  have hlastA : last ∉ A := by
    intro hy
    exact (List.nodup_append.mp hnd).2.2 last hy last (by simp) rfl
  have hne : ∀ y ∈ A ++ [last], y ≠ x := fun y hy hyx => hx (hlast ▸ hyx ▸ hy)
  have hlx : last ≠ x := hne last (by simp)
  have hhx : head ≠ x := hne head (hlast ▸ List.mem_cons_self)
  rw [hjoin.2]
  constructor
  · rw [← List.cons_append]
    exact h.nodup.append (List.nodup_singleton x) (by simpa using hx)
  · rw [← List.cons_append, hlast, List.append_assoc, List.append_assoc, List.singleton_append,
      List.singleton_append, List.isChain_append_cons_cons]
    refine ⟨IsChain.joined_congr hA ?_ ?_, ?_, ?_⟩
    · intro y hy
      rw [List.dropLast_concat] at hy
      have hyl : y ≠ last := fun e => hlastA (e ▸ hy)
      have hyx : y ≠ x := hne y (by simp [hy])
      simp [linkNode, Links.setNext, Links.setPrev, hyl, hyx]
    · intro y hy
      rw [← hlast, List.tail_cons] at hy
      have hyh : y ≠ head := fun e => hhead (e ▸ hy)
      have hyx : y ≠ x := hne y (hlast ▸ List.mem_cons_of_mem _ hy)
      simp [linkNode, Links.setNext, Links.setPrev, hyh, hyx]
    · simp [linkNode, Links.setNext, Links.setPrev, Joined]
    · simp [linkNode, Links.setNext, Links.setPrev, Joined, hlx.symm, hhx]

/-- A node behind the head is taken out. -/
theorem unlinkNode_ring [DecidableEq α] {t₁ t₂ : List α} (h : IsRing m head (t₁ ++ x :: t₂)) :
    IsRing (unlinkNode m x) head (t₁ ++ t₂) := by
  obtain ⟨A, p, hp⟩ := exists_last head t₁
  obtain ⟨q, B, hq⟩ : ∃ q B, t₂ ++ [head] = q :: B := by cases t₂ <;> simp
  obtain ⟨hA, hpx, hxq, hB⟩ := h.joined_around hp hq
  have hperm : (head :: (t₁ ++ x :: t₂)).Perm (x :: head :: (t₁ ++ t₂)) :=
    (List.perm_middle.cons head).trans (List.Perm.swap x head (t₁ ++ t₂))
  have hnd := hperm.nodup_iff.mp h.nodup
  have hfront : x :: head :: (t₁ ++ t₂) = x :: (A ++ p :: t₂) := by
    rw [← List.cons_append, hp, List.append_assoc, List.singleton_append]
  have hback : (x :: head :: (t₁ ++ t₂)).Perm (x :: (t₁ ++ q :: B)) := by
    rw [← hq, ← List.append_assoc]
    exact (List.perm_append_singleton head (t₁ ++ t₂)).symm.cons x
  have hnext := hfront ▸ hnd
  have hprev := hback.nodup_iff.mp hnd
  simp only [List.nodup_cons, List.nodup_append, List.mem_append, List.mem_cons,
    not_or] at hnext hprev
  constructor
  · exact (List.nodup_cons.mp hnd).2
  · rw [← List.cons_append, hp, List.append_assoc, List.append_assoc, hq, List.singleton_append,
      List.isChain_append_cons_cons]
    refine ⟨IsChain.joined_congr hA ?_ ?_, ?_, ?_⟩
    · intro y hy
      rw [List.dropLast_concat] at hy
      have hyp : y ≠ p := fun e => hnext.2.2.2 y hy p (Or.inl rfl) e
      have hyx : y ≠ x := fun e => hnext.1.1 (e ▸ hy)
      simp [unlinkNode, Links.setNext, Links.setPrev, hpx.2, hxq.1, hyp, hyx]
    · intro y hy
      rw [← hp, List.tail_cons] at hy
      have hyq : y ≠ q := fun e => hprev.2.2.2 y hy q (Or.inl rfl) e
      have hyx : y ≠ x := fun e => hprev.1.1 (e ▸ hy)
      simp [unlinkNode, Links.setNext, Links.setPrev, hpx.2, hxq.1, hyq, hyx]
    · have hpx' : p ≠ x := fun e => hnext.1.2.1 e.symm
      have hqx' : q ≠ x := fun e => hprev.1.2.1 e.symm
      simp [unlinkNode, Links.setNext, Links.setPrev, Joined, hpx.2, hxq.1, hpx', hqx']
    · refine IsChain.joined_congr (A := []) hB ?_ ?_
      · intro y hy
        rw [List.nil_append, ← hq, List.dropLast_concat] at hy
        have hyp : y ≠ p := fun e => hnext.2.2.1.1 (e ▸ hy)
        have hyx : y ≠ x := fun e => hnext.1.2.2 (e ▸ hy)
        simp [unlinkNode, Links.setNext, Links.setPrev, hpx.2, hxq.1, hyp, hyx]
      · intro y hy
        have hyq : y ≠ q := fun e => hprev.2.2.1.1 (e ▸ hy)
        have hyx : y ≠ x := fun e => hprev.1.2.2 (e ▸ hy)
        simp [unlinkNode, Links.setNext, Links.setPrev, hpx.2, hxq.1, hyq, hyx]

/-! ## 4. Another head -/

/-- The next node may be the head. -/
theorem IsRing.rotate (h : IsRing m head (x :: nodes)) : IsRing m x (nodes ++ [head]) where
  nodup := by
    have hperm : (head :: x :: nodes).Perm (x :: (nodes ++ [head])) :=
      (List.Perm.swap x head nodes).trans ((List.perm_append_singleton head nodes).symm.cons x)
    exact hperm.nodup_iff.mp h.nodup
  joined := by
    obtain ⟨hx, hrest⟩ := List.isChain_cons_cons.mp h.joined
    rw [← List.cons_append, List.append_assoc]
    exact List.isChain_append_cons_cons.mpr ⟨hrest, hx, List.isChain_singleton x⟩

/-- Any node may be the head. -/
theorem IsRing.rotate_to {t₁ t₂ : List α} (h : IsRing m head (t₁ ++ x :: t₂)) :
    IsRing m x (t₂ ++ head :: t₁) := by
  induction t₁ generalizing head t₂ with
  | nil => exact h.rotate
  | cons y t ih =>
    rw [List.cons_append] at h
    have hy := h.rotate
    rw [List.append_assoc, List.cons_append] at hy
    simpa using ih hy

/-- The head is taken out, and the next node is the new head. -/
theorem unlinkNode_ring_head [DecidableEq α] (h : IsRing m head (x :: nodes)) :
    IsRing (unlinkNode m head) x nodes := by
  have hring := unlinkNode_ring h.rotate
  rwa [List.append_nil] at hring

/-- `prev` leads back from where `next` leads, and `next` from where `prev` leads. -/
theorem IsRing.head_inverse (h : IsRing m head nodes) :
    m.prev (m.next head) = head ∧ m.next (m.prev head) = head := by
  obtain ⟨A, last, hlast⟩ := exists_last head nodes
  obtain ⟨-, hnext, hprev⟩ := h.joined_last hlast
  obtain ⟨q, B, hq⟩ : ∃ q B, nodes ++ [head] = q :: B := by cases nodes <;> simp
  have hj := h.joined
  rw [List.cons_append, hq] at hj
  obtain ⟨hhq, hqh⟩ := (List.isChain_cons_cons.mp hj).1
  exact ⟨hhq ▸ hqh, hprev ▸ hnext⟩

theorem IsRing.inverse (h : IsRing m head nodes) (hx : x ∈ head :: nodes) :
    m.prev (m.next x) = x ∧ m.next (m.prev x) = x := by
  rcases List.mem_cons.mp hx with rfl | hx
  · exact h.head_inverse
  · obtain ⟨t₁, t₂, rfl⟩ := List.append_of_mem hx
    exact h.rotate_to.head_inverse

/-- The same pointers, seen the other way round. -/
def Links.flip (m : Links α) : Links α := ⟨m.prev, m.next⟩

/-- **The ring by `prev`** is the ring by `next`, backwards. -/
theorem IsRing.flip (h : IsRing m head nodes) : IsRing m.flip head nodes.reverse where
  nodup := by
    have hperm : (head :: nodes.reverse).Perm (head :: nodes) := nodes.reverse_perm.cons head
    exact hperm.nodup_iff.mpr h.nodup
  joined := by
    have hback : head :: nodes.reverse ++ [head] = (head :: nodes ++ [head]).reverse := by simp
    rw [hback, List.isChain_reverse]
    exact h.joined.imp fun a b hab => ⟨hab.2, hab.1⟩

/-- What comes behind a node: the rest of the ring, and then the head. -/
theorem IsRing.next_eq {t₁ t₂ : List α} (h : IsRing m head (t₁ ++ x :: t₂)) :
    m.next x = t₂.head?.getD head := by
  obtain ⟨A, p, hp⟩ := exists_last head t₁
  obtain ⟨q, B, hq⟩ : ∃ q B, t₂ ++ [head] = q :: B := by cases t₂ <;> simp
  obtain ⟨-, -, hxq, -⟩ := h.joined_around hp hq
  rw [hxq.1]
  cases t₂ with
  | nil => simpa using (List.cons.inj hq).1.symm
  | cons y t₂ => simpa using (List.cons.inj hq).1.symm

/-- What comes behind the head. -/
theorem IsRing.next_head (h : IsRing m head nodes) : m.next head = nodes.head?.getD head := by
  have hj := h.joined
  cases nodes with
  | nil => simpa [Joined] using (List.isChain_cons_cons.mp hj).1.1
  | cons y nodes => exact (List.isChain_cons_cons.mp hj).1.1

/-! ## 5. What the operations leave alone -/

/-- A ring does not depend on other nodes. -/
theorem IsRing.congr (h : IsRing m head nodes)
    (hsame : ∀ y ∈ head :: nodes, m'.next y = m.next y ∧ m'.prev y = m.prev y) :
    IsRing m' head nodes where
  nodup := h.nodup
  joined := by
    have hchain : ([] ++ head :: (nodes ++ [head])).IsChain (Joined m) := h.joined
    refine IsChain.joined_congr hchain ?_ ?_
    · intro y hy
      rw [List.dropLast_concat] at hy
      exact (hsame y hy).1
    · intro y hy
      have hmem : y ∈ head :: nodes := by simpa [or_comm] using hy
      exact (hsame y hmem).2

/-- The node before the head is on the ring. -/
theorem IsRing.prev_mem (h : IsRing m head nodes) : m.prev head ∈ head :: nodes := by
  obtain ⟨A, last, hlast⟩ := exists_last head nodes
  rw [(h.joined_last hlast).2.2, hlast]
  exact List.mem_append_right _ (List.mem_singleton_self _)

/-- The neighbours of a node are on the ring. -/
theorem IsRing.around_mem (h : IsRing m head nodes) (hx : x ∈ nodes) :
    m.prev x ∈ head :: nodes ∧ m.next x ∈ head :: nodes := by
  obtain ⟨t₁, t₂, rfl⟩ := List.append_of_mem hx
  obtain ⟨A, p, hp⟩ := exists_last head t₁
  obtain ⟨q, B, hq⟩ : ∃ q B, t₂ ++ [head] = q :: B := by cases t₂ <;> simp
  obtain ⟨-, hpx, hxq, -⟩ := h.joined_around hp hq
  have hpmem : p ∈ head :: t₁ := hp ▸ List.mem_append_right _ (List.mem_singleton_self _)
  have hqmem : q ∈ t₂ ++ [head] := hq ▸ List.mem_cons_self
  rw [hpx.2, hxq.1]
  constructor
  · exact List.mem_append_left (x :: t₂) hpmem
  · rcases List.mem_append.mp hqmem with hq' | hq'
    · exact List.mem_cons_of_mem _ (List.mem_append_right _ (List.mem_cons_of_mem _ hq'))
    · exact List.mem_singleton.mp hq' ▸ List.mem_cons_self

/-- A node linked into one ring leaves the others alone. -/
theorem linkNode_ring_apart [DecidableEq α] {head' : α} {nodes' : List α} (h : IsRing m head nodes)
    (h' : IsRing m head' nodes') (hx : x ∉ head' :: nodes')
    (hapart : ∀ y ∈ head' :: nodes', y ∉ head :: nodes) :
    IsRing (linkNode m (m.prev head) head x) head' nodes' := by
  refine h'.congr fun y hy => ?_
  have hyx : y ≠ x := fun e => hx (e ▸ hy)
  have hyhead : y ≠ head := fun e => hapart y hy (e ▸ List.mem_cons_self)
  have hyprev : y ≠ m.prev head := fun e => hapart y hy (e ▸ h.prev_mem)
  simp [linkNode, Links.setNext, Links.setPrev, hyx, hyhead, hyprev]

/-- A node taken out of one ring leaves the others alone. -/
theorem unlinkNode_ring_apart [DecidableEq α] {head' : α} {nodes' : List α}
    (h : IsRing m head nodes) (h' : IsRing m head' nodes') (hx : x ∈ nodes)
    (hapart : ∀ y ∈ head' :: nodes', y ∉ head :: nodes) :
    IsRing (unlinkNode m x) head' nodes' := by
  obtain ⟨hprev, hnext⟩ := h.around_mem hx
  refine h'.congr fun y hy => ?_
  have hyx : y ≠ x := fun e => hapart y hy (e ▸ List.mem_cons_of_mem _ hx)
  have hyprev : y ≠ m.prev x := fun e => hapart y hy (e ▸ hprev)
  have hynext : y ≠ m.next x := fun e => hapart y hy (e ▸ hnext)
  simp [unlinkNode, Links.setNext, Links.setPrev, hyx, hyprev, hynext]

/-! ## 6. Walks -/

/-- A walk from behind a node sees the nodes up to the head, in order. -/
theorem findNode_chain [DecidableEq α] {p : α → Bool} :
    ∀ {l : List α} {a : α} {fuel : Nat}, (a :: l ++ [head]).IsChain (Joined m) → head ∉ l →
      l.length < fuel → findNode m p head fuel (m.next a) = some (l.find? p)
  | [], a, fuel, h, _, hfuel => by
    obtain ⟨k, rfl⟩ := Nat.exists_eq_add_of_lt hfuel
    have hnext : m.next a = head := by simpa [Joined] using (List.isChain_cons_cons.mp h).1.1
    simp [findNode, hnext]
  | y :: l, a, fuel, h, hl, hfuel => by
    obtain ⟨k, rfl⟩ := Nat.exists_eq_add_of_lt hfuel
    obtain ⟨hay, hrest⟩ := List.isChain_cons_cons.mp h
    have hy : y ≠ head := fun e => hl (e ▸ List.mem_cons_self)
    have hlen : l.length < (y :: l).length + k := by simp; omega
    have ih := findNode_chain (p := p) hrest (fun hm => hl (List.mem_cons_of_mem _ hm)) hlen
    rw [findNode, hay.1, if_neg hy, List.find?_cons]
    cases hpy : p y
    · simpa [hpy] using ih
    · simp

/-- A walk from behind the head sees the nodes of the ring, in order. -/
theorem findNode_ring [DecidableEq α] {p : α → Bool} {fuel : Nat} (h : IsRing m head nodes)
    (hfuel : nodes.length < fuel) :
    findNode m p head fuel (m.next head) = some (nodes.find? p) :=
  findNode_chain h.joined (List.nodup_cons.mp h.nodup).1 hfuel

/-- A walk from behind a node to the head goes through all that is between. -/
theorem walkNodes_chain [DecidableEq α] :
    ∀ {l : List α} {a : α} {fuel : Nat}, (a :: l ++ [head]).IsChain (Joined m) → head ∉ l →
      l.length < fuel → walkNodes m head fuel (m.next a) = some l
  | [], a, fuel, h, _, hfuel => by
    obtain ⟨k, rfl⟩ := Nat.exists_eq_add_of_lt hfuel
    have hnext : m.next a = head := by simpa [Joined] using (List.isChain_cons_cons.mp h).1.1
    simp [walkNodes, hnext]
  | y :: l, a, fuel, h, hl, hfuel => by
    obtain ⟨k, rfl⟩ := Nat.exists_eq_add_of_lt hfuel
    obtain ⟨hay, hrest⟩ := List.isChain_cons_cons.mp h
    have hy : y ≠ head := fun e => hl (e ▸ List.mem_cons_self)
    have hlen : l.length < (y :: l).length + k := by simp; omega
    have ih := walkNodes_chain hrest (fun hm => hl (List.mem_cons_of_mem _ hm)) hlen
    rw [walkNodes, hay.1, if_neg hy, ih]
    rfl

/-- A walk from behind the head goes round the ring. -/
theorem walkNodes_ring [DecidableEq α] {fuel : Nat} (h : IsRing m head nodes)
    (hfuel : nodes.length < fuel) : walkNodes m head fuel (m.next head) = some nodes :=
  walkNodes_chain h.joined (List.nodup_cons.mp h.nodup).1 hfuel

end AndixOs
