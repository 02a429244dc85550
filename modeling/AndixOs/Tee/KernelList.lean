/-
# Lists in the memory of the kernel

`common/list.c` keeps a list as a ring of nodes behind a head, which holds no data.  A node is a
block of its own, and so is what it points to; all of them come from `kmalloc`.

`Used` says what each block is there for: it is the head of a list, a node of one list, or the data
of one node.  A block has one use, so what an operation writes to one list cannot touch another.
-/
import AndixOs.Lib.Ring
import Mathlib.Data.List.Find
import Mathlib.Data.List.Perm.Subperm

namespace AndixOs.Tee

open AndixOs

/-! ## 1. `list.c` -/

/-- The nodes of the lists, and the blocks that `kmalloc` gave away and `kfree` has not taken
back.  The data of a node is an address, 0 for `NULL`. -/
structure KernelLists where
  links : Links Nat
  data : Nat → Nat
  live : List Nat

def KernelLists.kmalloc (f : KernelLists) (block : Nat) : KernelLists :=
  { f with live := block :: f.live }

def KernelLists.kfree (f : KernelLists) (block : Nat) : KernelLists :=
  { f with live := f.live.filter (· != block) }

/-- Enough steps for a walk round a list: a node is a live block. -/
def KernelLists.fuel (f : KernelLists) : Nat := f.live.length + 1

/-- `list_init`. -/
def listInit (f : KernelLists) (head data : Nat) : KernelLists :=
  { f with
    links := (f.links.setNext head head).setPrev head head
    data := Function.update f.data head data }

/-- `list_add`, with what `kmalloc` returns; `none` for the result -1. -/
def listAdd (f : KernelLists) (head data : Nat) : Option Nat → Option KernelLists
  | none => none
  | some node =>
    let f := f.kmalloc node
    some { f with
      links := linkNode f.links (f.links.prev head) head node
      data := Function.update f.data node data }

/-- `list_find_data`; the outer `none` where it does not come back. -/
def listFindData (f : KernelLists) (head data : Nat) : Option (Option Nat) :=
  findNode f.links (fun pos => f.data pos == data) head f.fuel (f.links.next head)

/-- `list_remove`. -/
def listRemove (f : KernelLists) (node : Nat) : KernelLists :=
  { f with links := unlinkNode f.links node }.kfree node

/-- What is in a list. -/
def listData (f : KernelLists) (head : Nat) : Option (List Nat) :=
  (walkNodes f.links head f.fuel (f.links.next head)).map (List.map f.data)

/-! ## 2. One use for each block -/

/-- What a block is there for.  `κ` names the lists. -/
inductive Use (κ : Type) where
  | head (k : κ)
  | node (head : Nat)
  | data (node : Nat)

/-- Every list is a ring behind its head, with the nodes and the data that are there for it. -/
structure Used {κ : Type} (f : KernelLists) (use : Nat → Option (Use κ)) (nodes : Nat → List Nat) :
    Prop where
  live : ∀ b u, use b = some u → b ∈ f.live ∧ b ≠ 0
  ring : ∀ h k, use h = some (.head k) → IsRing f.links h (nodes h)
  node : ∀ h k, use h = some (.head k) → ∀ x ∈ nodes h, use x = some (.node h)
  data : ∀ h k, use h = some (.head k) → ∀ x ∈ nodes h, use (f.data x) = some (.data x)

section

variable {κ : Type} {f : KernelLists} {use : Nat → Option (Use κ)} {nodes : Nat → List Nat}
  {h h' x b d : Nat} {k k' : κ}

/-- A block that is not live has no use. -/
theorem Used.unused (hu : Used f use nodes) (hb : b ∉ f.live) : use b = none := by
  cases huse : use b with
  | none => rfl
  | some u => exact absurd (hu.live b u huse).1 hb

/-- A block with a use is not one that has none. -/
theorem ne_of_unused {c : Nat} {u : Use κ} (hb : use b = none) (hc : use c = some u) : c ≠ b := by
  rintro rfl
  exact nomatch hb.symm.trans hc

/-- What is on a ring is live. -/
theorem Used.mem_live (hu : Used f use nodes) (hh : use h = some (.head k))
    (hx : x ∈ h :: nodes h) : x ∈ f.live := by
  rcases List.mem_cons.mp hx with rfl | hx
  · exact (hu.live x _ hh).1
  · exact (hu.live x _ (hu.node h k hh x hx)).1

/-- Two lists have no node in common. -/
theorem Used.apart (hu : Used f use nodes) (hh : use h = some (.head k))
    (hh' : use h' = some (.head k')) (hne : h' ≠ h) :
    ∀ y ∈ h' :: nodes h', y ∉ h :: nodes h := by
  intro y hy' hy
  rcases List.mem_cons.mp hy' with rfl | hy' <;> rcases List.mem_cons.mp hy with rfl | hy
  · exact hne rfl
  · exact nomatch hh'.symm.trans (hu.node h k hh y hy)
  · exact nomatch hh.symm.trans (hu.node h' k' hh' y hy')
  · have hsame := (hu.node h' k' hh' y hy').symm.trans (hu.node h k hh y hy)
    exact hne (by simpa using hsame)

/-- A list has no more nodes than there are live blocks. -/
theorem Used.length_lt (hu : Used f use nodes) (hh : use h = some (.head k)) :
    (nodes h).length < f.fuel := by
  have hsub : nodes h ⊆ f.live := fun x hx => hu.mem_live hh (List.mem_cons_of_mem _ hx)
  have hnd : (nodes h).Nodup := (List.nodup_cons.mp (hu.ring h k hh).nodup).2
  exact Nat.lt_succ_of_le (hnd.subperm hsub).length_le

/-- Two nodes of lists do not have the same data. -/
theorem Used.data_inj (hu : Used f use nodes) (hh : use h = some (.head k)) {y : Nat}
    (hx : x ∈ nodes h) (hy : y ∈ nodes h) (hsame : f.data x = f.data y) : x = y := by
  have hdx := hu.data h k hh x hx
  rw [hsame, hu.data h k hh y hy] at hdx
  simpa using hdx.symm

/-- What a list holds without one node. -/
theorem Used.map_erase (hu : Used f use nodes) (hh : use h = some (.head k)) (hx : x ∈ nodes h) :
    ((nodes h).erase x).map f.data = ((nodes h).map f.data).filter (· != f.data x) := by
  have hnd : (nodes h).Nodup := (List.nodup_cons.mp (hu.ring h k hh).nodup).2
  rw [hnd.erase_eq_filter, List.filter_map]
  refine congrArg _ (List.filter_congr fun y hy => ?_)
  by_cases hyx : y = x
  · simp [hyx]
  · have hne : f.data y ≠ f.data x := fun e => hyx (hu.data_inj hh hy hx e)
    exact (bne_iff_ne.mpr hyx).trans (bne_iff_ne.mpr hne).symm

/-! ## 3. What the functions see -/

theorem Used.listData_eq (hu : Used f use nodes) (hh : use h = some (.head k)) :
    listData f h = some ((nodes h).map f.data) := by
  rw [listData, walkNodes_ring (hu.ring h k hh) (hu.length_lt hh)]
  rfl

theorem Used.listFindData_eq (hu : Used f use nodes) (hh : use h = some (.head k)) :
    listFindData f h d = some ((nodes h).find? fun pos => f.data pos == d) :=
  findNode_ring (hu.ring h k hh) (hu.length_lt hh)

/-! ## 4. What the functions keep -/

theorem Used.kmalloc (hu : Used f use nodes) : Used (f.kmalloc b) use nodes where
  live c u hc := ⟨List.mem_cons_of_mem _ (hu.live c u hc).1, (hu.live c u hc).2⟩
  ring := hu.ring
  node := hu.node
  data := hu.data

/-- A block with no use may go. -/
theorem Used.kfree (hu : Used f use nodes) (hb : use b = none) : Used (f.kfree b) use nodes where
  live c u hc := by
    have hne : c ≠ b := ne_of_unused hb hc
    exact ⟨List.mem_filter.mpr ⟨(hu.live c u hc).1, bne_iff_ne.mpr hne⟩, (hu.live c u hc).2⟩
  ring := hu.ring
  node := hu.node
  data := hu.data

/-- A block that points to itself is a new list. -/
theorem Used.listInit (hu : Used f use nodes) (hlive : b ∈ f.live) (hb : use b = none)
    (hzero : b ≠ 0) (k : κ) :
    Used (listInit f b d) (Function.update use b (some (.head k)))
      (Function.update nodes b []) := by
  have hold : ∀ {c u}, c ≠ b → Function.update use b (some (.head k)) c = some u → use c = some u :=
    fun hne hc => (Function.update_of_ne hne _ _).symm.trans hc
  have hne : ∀ {c u}, use c = some u → c ≠ b := ne_of_unused hb
  constructor
  · intro c u hc
    by_cases hcb : c = b
    · subst hcb
      exact ⟨hlive, hzero⟩
    · exact hu.live c u (hold hcb hc)
  · intro h k' hh
    by_cases hhb : h = b
    · subst hhb
      rw [Function.update_self]
      exact isRing_single (by simp [Tee.listInit, Links.setNext, Links.setPrev])
        (by simp [Tee.listInit, Links.setNext, Links.setPrev])
    · have hh' := hold hhb hh
      rw [Function.update_of_ne hhb]
      refine (hu.ring h k' hh').congr fun y hy => ?_
      have hyb : y ≠ b := by
        rcases List.mem_cons.mp hy with rfl | hy
        · exact hhb
        · exact hne (hu.node h k' hh' y hy)
      simp [Tee.listInit, Links.setNext, Links.setPrev, hyb]
  · intro h k' hh y hy
    by_cases hhb : h = b
    · rw [hhb, Function.update_self] at hy
      cases hy
    · rw [Function.update_of_ne hhb] at hy
      have huse := hu.node h k' (hold hhb hh) y hy
      rw [Function.update_of_ne (hne huse)]
      exact huse
  · intro h k' hh y hy
    by_cases hhb : h = b
    · rw [hhb, Function.update_self] at hy
      cases hy
    · rw [Function.update_of_ne hhb] at hy
      have hyb : y ≠ b := hne (hu.node h k' (hold hhb hh) y hy)
      have hdata : (Tee.listInit f b d).data y = f.data y := Function.update_of_ne hyb _ _
      have huse := hu.data h k' (hold hhb hh) y hy
      rw [hdata, Function.update_of_ne (hne huse)]
      exact huse

/-- The uses after a node with this data was added to a list. -/
def addUse (use : Nat → Option (Use κ)) (h node d : Nat) : Nat → Option (Use κ) :=
  Function.update (Function.update use node (some (.node h))) d (some (.data node))

theorem addUse_data : addUse use h x d d = some (.data x) := Function.update_self ..

theorem addUse_node (hdx : d ≠ x) : addUse use h x d x = some (.node h) := by
  rw [addUse, Function.update_of_ne hdx.symm, Function.update_self]

theorem addUse_of_ne {c : Nat} (hcd : c ≠ d) (hcx : c ≠ x) : addUse use h x d c = use c := by
  rw [addUse, Function.update_of_ne hcd, Function.update_of_ne hcx]

/-- The heads stay. -/
theorem head_of_addUse {c : Nat} (hc : addUse use h x d c = some (.head k)) :
    use c = some (.head k) := by
  by_cases hcd : c = d
  · rw [hcd, addUse_data] at hc
    exact nomatch hc
  · by_cases hcx : c = x
    · subst hcx
      rw [addUse_node (Ne.symm hcd)] at hc
      exact nomatch hc
    · exact (addUse_of_ne hcd hcx).symm.trans hc

/-- **`list_add`** of data that has no use yet, with a new block for the node. -/
theorem Used.listAdd (hu : Used f use nodes) (hh : use h = some (.head k)) (hd : d ∈ f.live)
    (hfree : use d = none) (hd0 : d ≠ 0) (hx : x ∉ f.live) (hx0 : x ≠ 0) :
    ∃ f', listAdd f h d (some x) = some f' ∧
      Used f' (addUse use h x d) (Function.update nodes h (nodes h ++ [x])) ∧
      (∀ y, y ≠ x → f'.data y = f.data y) ∧ f'.data x = d ∧ f'.live = x :: f.live := by
  refine ⟨_, rfl, ?_, fun y hy => Function.update_of_ne hy _ _, Function.update_self .., rfl⟩
  have hxfree := hu.unused hx
  have hdx : d ≠ x := fun e => hx (e ▸ hd)
  have hkeep : ∀ {c u}, use c = some u → addUse use h x d c = some u := fun hc =>
    (addUse_of_ne (ne_of_unused hfree hc) (ne_of_unused hxfree hc)).trans hc
  constructor
  · intro c u hc
    by_cases hcd : c = d
    · subst hcd
      exact ⟨List.mem_cons_of_mem _ hd, hd0⟩
    · by_cases hcx : c = x
      · subst hcx
        exact ⟨List.mem_cons_self, hx0⟩
      · rw [addUse_of_ne hcd hcx] at hc
        exact ⟨List.mem_cons_of_mem _ (hu.live c u hc).1, (hu.live c u hc).2⟩
  · intro h' k' hh'
    have huse := head_of_addUse hh'
    by_cases hsame : h' = h
    · subst hsame
      rw [Function.update_self]
      exact linkNode_ring (hu.ring h' k' huse) fun hmem => hx (hu.mem_live huse hmem)
    · rw [Function.update_of_ne hsame]
      exact linkNode_ring_apart (hu.ring h k hh) (hu.ring h' k' huse)
        (fun hmem => hx (hu.mem_live huse hmem)) (hu.apart hh huse hsame)
  · intro h' k' hh' y hy
    have huse := head_of_addUse hh'
    by_cases hsame : h' = h
    · subst hsame
      rw [Function.update_self] at hy
      rcases List.mem_append.mp hy with hy | hy
      · exact hkeep (hu.node h' k' huse y hy)
      · rw [List.mem_singleton.mp hy]
        exact addUse_node hdx
    · rw [Function.update_of_ne hsame] at hy
      exact hkeep (hu.node h' k' huse y hy)
  · intro h' k' hh' y hy
    have huse := head_of_addUse hh'
    have hold : y ∈ nodes h' →
        addUse use h x d (Function.update f.data x d y) = some (.data y) := fun hy => by
      rw [Function.update_of_ne (ne_of_unused hxfree (hu.node h' k' huse y hy))]
      exact hkeep (hu.data h' k' huse y hy)
    by_cases hsame : h' = h
    · subst hsame
      rw [Function.update_self] at hy
      rcases List.mem_append.mp hy with hy | hy
      · exact hold hy
      · obtain rfl := List.mem_singleton.mp hy
        exact (congrArg _ (Function.update_self ..)).trans addUse_data
    · rw [Function.update_of_ne hsame] at hy
      exact hold hy

/-- The uses after a node was taken out of a list. -/
def dropUse (use : Nat → Option (Use κ)) (node d : Nat) : Nat → Option (Use κ) :=
  Function.update (Function.update use node none) d none

theorem dropUse_of_ne {c : Nat} (hcd : c ≠ d) (hcx : c ≠ x) : dropUse use x d c = use c := by
  rw [dropUse, Function.update_of_ne hcd, Function.update_of_ne hcx]

/-- What is still used was used before. -/
theorem of_dropUse {c : Nat} {u : Use κ} (hc : dropUse use x d c = some u) :
    use c = some u ∧ c ≠ d ∧ c ≠ x := by
  have hcd : c ≠ d := by
    rintro rfl
    rw [dropUse, Function.update_self] at hc
    exact nomatch hc
  have hcx : c ≠ x := by
    rintro rfl
    rw [dropUse, Function.update_of_ne hcd, Function.update_self] at hc
    exact nomatch hc
  exact ⟨(dropUse_of_ne hcd hcx).symm.trans hc, hcd, hcx⟩

/-- **`list_remove`** of a node of a list. -/
theorem Used.listRemove (hu : Used f use nodes) (hh : use h = some (.head k)) (hx : x ∈ nodes h) :
    Used (listRemove f x) (dropUse use x (f.data x))
      (Function.update nodes h ((nodes h).erase x)) := by
  have hring := hu.ring h k hh
  have hnd : (nodes h).Nodup := (List.nodup_cons.mp hring.nodup).2
  have hxuse := hu.node h k hh x hx
  have hduse := hu.data h k hh x hx
  -- what stays in a list is neither the node nor its data
  have hmem : ∀ {h' k' y}, use h' = some (.head k') →
      y ∈ Function.update nodes h ((nodes h).erase x) h' → y ∈ nodes h' ∧ y ≠ x := by
    intro h' k' y hh' hy
    by_cases hsame : h' = h
    · subst hsame
      rw [Function.update_self] at hy
      exact ⟨List.mem_of_mem_erase hy, fun e => hnd.not_mem_erase (e ▸ hy)⟩
    · rw [Function.update_of_ne hsame] at hy
      refine ⟨hy, ?_⟩
      rintro rfl
      exact hu.apart hh hh' hsame y (List.mem_cons_of_mem _ hy) (List.mem_cons_of_mem _ hx)
  constructor
  · intro c u hc
    obtain ⟨hc', -, hcx⟩ := of_dropUse hc
    exact ⟨List.mem_filter.mpr ⟨(hu.live c u hc').1, bne_iff_ne.mpr hcx⟩, (hu.live c u hc').2⟩
  · intro h' k' hh'
    have huse := (of_dropUse hh').1
    by_cases hsame : h' = h
    · subst hsame
      obtain ⟨t₁, t₂, -, hsplit, herase⟩ := List.exists_erase_eq hx
      rw [Function.update_self, herase]
      exact unlinkNode_ring (hsplit ▸ hring)
    · rw [Function.update_of_ne hsame]
      exact unlinkNode_ring_apart hring (hu.ring h' k' huse) hx (hu.apart hh huse hsame)
  · intro h' k' hh' y hy
    have huse := (of_dropUse hh').1
    obtain ⟨hy, hyx⟩ := hmem huse hy
    have hyuse := hu.node h' k' huse y hy
    have hyd : y ≠ f.data x := by
      rintro rfl
      exact nomatch hduse.symm.trans hyuse
    exact (dropUse_of_ne hyd hyx).trans hyuse
  · intro h' k' hh' y hy
    have huse := (of_dropUse hh').1
    obtain ⟨hy, hyx⟩ := hmem huse hy
    have hyuse := hu.data h' k' huse y hy
    have hdx : f.data y ≠ x := by
      intro e
      rw [e, hxuse] at hyuse
      exact nomatch hyuse
    have hdd : f.data y ≠ f.data x := by
      intro e
      rw [e, hduse] at hyuse
      exact hyx (by simpa using hyuse.symm)
    exact (dropUse_of_ne hdd hdx).trans hyuse

/-- The head of a list is given up. -/
theorem Used.kfree_head (hu : Used f use nodes) (hb : use b = some (.head k)) :
    Used (f.kfree b) (Function.update use b none) nodes := by
  have hold : ∀ {c u}, Function.update use b none c = some u → use c = some u ∧ c ≠ b := by
    intro c u hc
    have hcb : c ≠ b := by
      rintro rfl
      exact nomatch (Function.update_self c none use).symm.trans hc
    exact ⟨(Function.update_of_ne hcb _ _).symm.trans hc, hcb⟩
  have hkeep : ∀ {c u}, use c = some u → u ≠ .head k → Function.update use b none c = some u := by
    intro c u hc hne
    have hcb : c ≠ b := by
      rintro rfl
      exact hne (Option.some.inj (hc.symm.trans hb))
    exact (Function.update_of_ne hcb _ _).trans hc
  constructor
  · intro c u hc
    obtain ⟨hc', hcb⟩ := hold hc
    exact ⟨List.mem_filter.mpr ⟨(hu.live c u hc').1, bne_iff_ne.mpr hcb⟩, (hu.live c u hc').2⟩
  · intro h k' hh
    exact hu.ring h k' (hold hh).1
  · intro h k' hh y hy
    exact hkeep (hu.node h k' (hold hh).1 y hy) nofun
  · intro h k' hh y hy
    exact hkeep (hu.data h k' (hold hh).1 y hy) nofun

end

end AndixOs.Tee
