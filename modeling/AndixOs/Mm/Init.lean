/-
# Physical memory at boot

`init_vmm` goes over the ATAG list of the boot loader twice: once to find the memory tag the kernel
runs in and to give what lies behind its heap to `pmm`, and once to note down which memory is
secure and which is not.  `pmm_protect_secure_mem` locks what was noted down as secure.

The two passes disagree about where a secure area ends.  A tag with more than `SECURE_MEMORY_SIZE`
bytes loses a byte between its secure and its unsecure part, and that is the only thing that goes
wrong, next to a kernel at the very start of its tag and a tag that ends at `2^32`
(`initVmm_areas_iff`).
-/
import AndixOs.Mm.Kernel
import Mathlib.Data.List.Pairwise

namespace AndixOs.Mm

/-! ## 1. ATAGs -/

/-- `struct atag_mem`. -/
structure MemTag where
  start : Nat
  size : Nat
  deriving DecidableEq

/-- A tag.  A list of them ends at `ATAG_NONE`, and an address of a tag is the list from it on. -/
inductive Atag where
  | core
  | mem (tag : MemTag)
  | other (tag : Nat)

/-- The loop of `atag_get_next_mem_tag`. -/
def findMemTag : List Atag → Option (MemTag × List Atag)
  | [] => none
  | .mem t :: tags => some (t, .mem t :: tags)
  | _ :: tags => findMemTag tags

/-- `atag_get_next_mem_tag`: a memory tag to start from is skipped. -/
def atagGetNextMemTag : List Atag → Option (MemTag × List Atag)
  | .mem _ :: tags => findMemTag tags
  | tags => findMemTag tags

/-- A well-formed list starts with `ATAG_CORE`. -/
def WellFormed (tags : List Atag) : Prop := ∃ rest, tags = .core :: rest

/-- The memory tags of a list. -/
def memTags (tags : List Atag) : List MemTag :=
  tags.filterMap fun
    | .mem t => some t
    | _ => none

/-! ## 2. `init_vmm` -/

def secureMemorySize : Nat := 0x10000000

/-- What `init_vmm` reads besides the tags: the physical address of `_code`, `phys_heap_end` and
`vhend`. -/
structure Boot where
  codePhys : Nat
  physHeapEnd : Nat
  vhend : Nat

/-- `start + size`, as the code computes it. -/
def MemTag.end_ (t : MemTag) : Nat := w32 (t.start + t.size)

/-- "That's our memory segment." -/
def isOurSegment (ptr : Nat) (t : MemTag) : Bool :=
  decide (t.start < ptr) && decide (ptr < t.end_)

/-- The first pass, which ends at our segment. -/
def findSegment (ptr : Nat) : Nat → List Atag → Option MemTag
  | 0, _ => none
  | fuel + 1, mem =>
    match atagGetNextMemTag mem with
    | none => none
    | some (t, mem) => if isOurSegment ptr t then some t else findSegment ptr fuel mem

/-- The first-level entries between the kernel's heap and the end of the segment are cleared; the
end is a physical address. -/
def clearEntries (t : PageTable) (heapEnd end_ : Nat) : PageTable := fun i =>
  if heapEnd / 0x100000 + 1 ≤ i ∧ i < end_ / 0x100000 then .fault else t i

/-- What the first pass does when it has found our segment. -/
def initPmm (k : Kernel) (b : Boot) (t : MemTag) : Kernel :=
  let k := { k with kernelTable := clearEntries k.kernelTable b.vhend t.end_ }
  pmmInit k b.physHeapEnd
    (if t.size > secureMemorySize then w32 (t.start + secureMemorySize) else t.end_)

/-- `MEM_TYPE_…`. -/
inductive AreaType where
  | secure
  | unsecure
  deriving DecidableEq

/-- `phys_mem_area`. -/
structure PhysMemArea where
  pstart : Nat
  pend : Nat
  type : AreaType
  deriving DecidableEq

/-- `pmm_add_phys_mem_area`.  Without `pmm_init` there is no list, and adding to it ends in a data
abort. -/
def pmmAddPhysMemArea : Option (List PhysMemArea) → PhysMemArea → Option (List PhysMemArea)
  | none, _ => none
  | some areas, a => some (areas ++ [a])

/-- What the second pass adds for a tag. -/
def areasOf (ptr : Nat) (t : MemTag) : List PhysMemArea :=
  if isOurSegment ptr t then
    if t.size > secureMemorySize then
      [⟨w32 (t.start + secureMemorySize), t.end_, .unsecure⟩,
        ⟨t.start, w32 (t.start + secureMemorySize - 1), .secure⟩]
    else [⟨t.start, t.end_, .secure⟩]
  else [⟨t.start, t.end_, .unsecure⟩]

/-- The second pass. -/
def addAreas (ptr : Nat) : Nat → List Atag → Option (List PhysMemArea) → Option (List PhysMemArea)
  | 0, _, l => l
  | fuel + 1, mem, l =>
    match atagGetNextMemTag mem with
    | none => l
    | some (t, mem) => addAreas ptr fuel mem ((areasOf ptr t).foldl pmmAddPhysMemArea l)

/-- `init_vmm`: the kernel, and the list of areas; `none` if there is no list. -/
def initVmm (k : Kernel) (b : Boot) (tags : List Atag) : Kernel × Option (List PhysMemArea) :=
  match findSegment b.codePhys (tags.length + 1) tags with
  | some t =>
    (smmInit (mmmInit (initPmm k b t)) (w32 (b.vhend + 1)) 0xFFFFFFFF,
      addAreas b.codePhys (tags.length + 1) tags (some []))
  | none =>
    (smmInit (mmmInit k) (w32 (b.vhend + 1)) 0xFFFFFFFF,
      addAreas b.codePhys (tags.length + 1) tags none)

/-- `HAL_SUCCESS`. -/
def halSuccess : Int := 0

/-- `pmm_protect_secure_mem`: the result, and what `tzmem_lock` was called with. -/
def pmmProtectSecureMem (tzmemLock : Nat → Nat → Int) :
    List PhysMemArea → Int × List (Nat × Nat)
  | [] => (0, [])
  | a :: areas =>
    if a.type = .secure then
      let call := (a.pstart, sub32 a.pend a.pstart)
      if tzmemLock call.1 call.2 ≠ halSuccess then (-1, [call])
      else
        let r := pmmProtectSecureMem tzmemLock areas
        (r.1, call :: r.2)
    else pmmProtectSecureMem tzmemLock areas

/-! ## 3. The passes visit the memory tags in order -/

/-- The memory tags that calls from here on find. -/
def upcoming : List Atag → List MemTag
  | .mem _ :: tags => memTags tags
  | tags => memTags tags

theorem findMemTag_spec : ∀ tags : List Atag,
    (findMemTag tags = none ∧ memTags tags = []) ∨
      ∃ t l, findMemTag tags = some (t, l) ∧ memTags tags = t :: upcoming l
  | [] => Or.inl ⟨rfl, rfl⟩
  | .mem t :: _ => Or.inr ⟨t, _, rfl, rfl⟩
  | .core :: tags => findMemTag_spec tags
  | .other _ :: tags => findMemTag_spec tags

/-- One call. -/
theorem atagGetNextMemTag_spec (tags : List Atag) :
    (atagGetNextMemTag tags = none ∧ upcoming tags = []) ∨
      ∃ t l, atagGetNextMemTag tags = some (t, l) ∧ upcoming tags = t :: upcoming l := by
  cases tags with
  | nil => exact findMemTag_spec []
  | cons tag tags =>
    cases tag with
    | mem t => exact findMemTag_spec tags
    | core => exact findMemTag_spec (.core :: tags)
    | other n => exact findMemTag_spec (.other n :: tags)

variable {ptr : Nat}

theorem findSegment_eq (ptr : Nat) : ∀ (fuel : Nat) (tags : List Atag),
    (upcoming tags).length < fuel →
      findSegment ptr fuel tags = (upcoming tags).find? (isOurSegment ptr)
  | 0, _, h => absurd h (Nat.not_lt_zero _)
  | fuel + 1, tags, h => by
    rw [findSegment]
    rcases atagGetNextMemTag_spec tags with ⟨hn, hu⟩ | ⟨t, l, hn, hu⟩
    · rw [hn, hu]
      rfl
    · rw [hu, List.length_cons] at h
      rw [hn, hu, List.find?_cons]
      simp only
      cases isOurSegment ptr t with
      | true => rfl
      | false => exact findSegment_eq ptr fuel l (by omega)

theorem foldl_pmmAddPhysMemArea (as l : List PhysMemArea) :
    as.foldl pmmAddPhysMemArea (some l) = some (l ++ as) := by
  induction as generalizing l with
  | nil => rw [List.foldl_nil, List.append_nil]
  | cons a as ih =>
    rw [List.foldl_cons, pmmAddPhysMemArea, ih, List.append_assoc]
    rfl

theorem foldl_pmmAddPhysMemArea_none (as : List PhysMemArea) :
    as.foldl pmmAddPhysMemArea none = none := by
  induction as with
  | nil => rfl
  | cons a as ih => exact ih

theorem addAreas_eq (ptr : Nat) : ∀ (fuel : Nat) (tags : List Atag) (l : List PhysMemArea),
    (upcoming tags).length < fuel →
      addAreas ptr fuel tags (some l) = some (l ++ (upcoming tags).flatMap (areasOf ptr))
  | 0, _, _, h => absurd h (Nat.not_lt_zero _)
  | fuel + 1, tags, l, h => by
    rw [addAreas]
    rcases atagGetNextMemTag_spec tags with ⟨hn, hu⟩ | ⟨t, l', hn, hu⟩
    · rw [hn, hu, List.flatMap_nil, List.append_nil]
    · rw [hu, List.length_cons] at h
      rw [hn, hu]
      simp only
      rw [foldl_pmmAddPhysMemArea, addAreas_eq ptr fuel l' _ (by omega), List.flatMap_cons,
        List.append_assoc]

theorem addAreas_none (ptr : Nat) : ∀ (fuel : Nat) (tags : List Atag),
    addAreas ptr fuel tags none = none
  | 0, _ => rfl
  | fuel + 1, tags => by
    rw [addAreas]
    split
    · rfl
    · rw [foldl_pmmAddPhysMemArea_none]
      exact addAreas_none ptr fuel _

/-- **What `init_vmm` does**, in terms of the memory tags. -/
theorem initVmm_eq (k : Kernel) (b : Boot) {tags : List Atag} (h : WellFormed tags) :
    initVmm k b tags =
      match (memTags tags).find? (isOurSegment b.codePhys) with
      | some t =>
        (smmInit (mmmInit (initPmm k b t)) (w32 (b.vhend + 1)) 0xFFFFFFFF,
          some ((memTags tags).flatMap (areasOf b.codePhys)))
      | none => (smmInit (mmmInit k) (w32 (b.vhend + 1)) 0xFFFFFFFF, none) := by
  obtain ⟨rest, rfl⟩ := h
  have hu : upcoming (.core :: rest) = memTags (.core :: rest) := rfl
  have hlen : (upcoming (.core :: rest)).length < (Atag.core :: rest).length + 1 := by
    rw [hu]
    exact Nat.lt_succ_of_le (List.length_filterMap_le ..)
  unfold initVmm
  rw [findSegment_eq _ _ _ hlen, hu]
  split
  · rw [addAreas_eq _ _ _ _ hlen, hu, List.nil_append]
  · rw [addAreas_none]

/-! ## 4. What is secure and what is not -/

/-- The bytes of a tag. -/
def MemTag.Has (t : MemTag) (x : Nat) : Prop := t.start ≤ x ∧ x < t.start + t.size

/-- The bytes of an area, whose end is not part of it. -/
def PhysMemArea.Has (a : PhysMemArea) (x : Nat) : Prop := a.pstart ≤ x ∧ x < a.pend

/-- No byte in common. -/
def MemTag.Apart (t u : MemTag) : Prop := ∀ x, ¬ (t.Has x ∧ u.Has x)

instance : Std.Symm MemTag.Apart := ⟨fun _ _ h x hx => h x ⟨hx.2, hx.1⟩⟩

/-- What the rest of the kernel relies on after `init_vmm`. -/
structure AreasGood (tags : List MemTag) (k : Kernel) (areas : List PhysMemArea) : Prop where
  disjoint : areas.Pairwise fun a a' => ∀ x, ¬ (a.Has x ∧ a'.Has x)
  cover : ∀ x, (∃ a ∈ areas, a.Has x) ↔ ∃ t ∈ tags, t.Has x
  frames : ∀ p, p < k.pmm.pages → ∃ a ∈ areas, a.type = .secure ∧
    ∀ x, w32 (k.physStart + 4096 * p) ≤ x → x < w32 (k.physStart + 4096 * p) + 4096 → a.Has x
  locked : ∀ tzmemLock x, (∃ call ∈ (pmmProtectSecureMem tzmemLock areas).2,
      call.1 ≤ x ∧ x < call.1 + call.2) ↔
    ∃ a ∈ areas, a.type = .secure ∧ a.Has x

/-- The tags of a machine: ranges of the address space without a byte in common, one of which, `t`,
holds the kernel from its code to the end of its heap. -/
structure Machine (tags : List Atag) (b : Boot) (t : MemTag) : Prop where
  wellFormed : WellFormed tags
  range : ∀ u ∈ memTags tags, u.start < 4294967296 ∧ u.start + u.size ≤ 4294967296
  disjoint : (memTags tags).Pairwise MemTag.Apart
  mem : t ∈ memTags tags
  code : t.start ≤ b.codePhys
  heap : b.codePhys < b.physHeapEnd
  inside : b.physHeapEnd ≤ t.start + t.size

variable {tags : List Atag} {b : Boot} {t u : MemTag} {k : Kernel} {x : Nat}

/-- The tag of a byte. -/
theorem Machine.tag_eq (hm : Machine tags b t) {u u' : MemTag} (hu : u ∈ memTags tags)
    (hu' : u' ∈ memTags tags) (h : u.Has x) (h' : u'.Has x) : u = u' := by
  by_contra hne
  exact hm.disjoint.forall hu hu' hne x ⟨h, h'⟩

theorem Machine.has_code (hm : Machine tags b t) : t.Has b.codePhys :=
  ⟨hm.code, Nat.lt_of_lt_of_le hm.heap hm.inside⟩

theorem end_le (hu : u.start + u.size ≤ 4294967296) : u.end_ ≤ u.start + u.size := by
  unfold MemTag.end_ w32
  omega

theorem has_of_isOurSegment (hu : u.start + u.size ≤ 4294967296)
    (h : isOurSegment ptr u = true) : u.Has ptr := by
  unfold isOurSegment at h
  rw [Bool.and_eq_true, decide_eq_true_eq, decide_eq_true_eq] at h
  have := end_le hu
  exact ⟨by omega, by omega⟩

/-- Our segment is the tag of the kernel, if it is found. -/
theorem Machine.segment_eq (hm : Machine tags b t) (hu : u ∈ memTags tags)
    (h : isOurSegment b.codePhys u = true) : u = t :=
  hm.tag_eq hu hm.mem (has_of_isOurSegment (hm.range u hu).2 h) hm.has_code

/-- No area leaves its tag. -/
theorem has_of_areasOf {a : PhysMemArea} (hu : u.start + u.size ≤ 4294967296)
    (ha : a ∈ areasOf ptr u) (hx : a.Has x) : u.Has x := by
  have hend := end_le hu
  unfold areasOf at ha
  obtain ⟨h1, h2⟩ := hx
  split at ha
  · split at ha
    · rename_i hbig
      have hw : w32 (u.start + secureMemorySize) ≤ u.start + secureMemorySize := Nat.mod_le ..
      have hw1 : w32 (u.start + secureMemorySize - 1) ≤ u.start + secureMemorySize - 1 :=
        Nat.mod_le ..
      unfold secureMemorySize at *
      rcases List.mem_cons.mp ha with rfl | ha
      · have hwe : w32 (u.start + 0x10000000) = u.start + 0x10000000 := w32_of_lt (by omega)
        simp only at h1 h2
        exact ⟨by omega, by omega⟩
      · obtain rfl := List.mem_singleton.mp ha
        simp only at h1 h2
        exact ⟨h1, by omega⟩
    · obtain rfl := List.mem_singleton.mp ha
      exact ⟨h1, by simp only at h2; omega⟩
  · obtain rfl := List.mem_singleton.mp ha
    exact ⟨h1, by simp only at h2; omega⟩

/-! ## 5. Locking -/

/-- What is asked of the controller is to lock secure areas. -/
theorem mem_protect {tzmemLock : Nat → Nat → Int} {call : Nat × Nat} :
    ∀ {areas : List PhysMemArea}, call ∈ (pmmProtectSecureMem tzmemLock areas).2 →
      ∃ a ∈ areas, a.type = .secure ∧ call = (a.pstart, sub32 a.pend a.pstart)
  | [], h => absurd h (List.not_mem_nil)
  | a :: areas, h => by
    rw [pmmProtectSecureMem] at h
    split at h
    · rename_i hs
      simp only at h
      split at h
      · exact ⟨a, List.mem_cons_self .., hs, List.mem_singleton.mp h⟩
      · rcases List.mem_cons.mp h with h | h
        · exact ⟨a, List.mem_cons_self .., hs, h⟩
        · obtain ⟨a', ha', h'⟩ := mem_protect h
          exact ⟨a', List.mem_cons_of_mem _ ha', h'⟩
    · obtain ⟨a', ha', h'⟩ := mem_protect h
      exact ⟨a', List.mem_cons_of_mem _ ha', h'⟩

/-- Whatever the controller answers, it is asked for the first secure area. -/
theorem protect_first (tzmemLock : Nat → Nat → Int) :
    ∀ {areas : List PhysMemArea} {a : PhysMemArea}, a ∈ areas → a.type = .secure →
      ∃ a' ∈ areas, a'.type = .secure ∧
        (a'.pstart, sub32 a'.pend a'.pstart) ∈ (pmmProtectSecureMem tzmemLock areas).2
  | [], _, h, _ => absurd h (List.not_mem_nil)
  | a0 :: areas, a, h, hs => by
    rw [pmmProtectSecureMem]
    by_cases h0 : a0.type = .secure
    · refine ⟨a0, List.mem_cons_self .., h0, ?_⟩
      rw [if_pos h0]
      simp only
      split
      · exact List.mem_singleton.mpr rfl
      · exact List.mem_cons_self ..
    · rw [if_neg h0]
      rcases List.mem_cons.mp h with rfl | h
      · exact absurd hs h0
      · obtain ⟨a', ha', h'⟩ := protect_first tzmemLock h hs
        exact ⟨a', List.mem_cons_of_mem _ ha', h'⟩

/-! ## 6. When the areas are right -/

theorem flatMap_singletons {α β : Type} {f : α → List β} {g : α → β} :
    ∀ {l : List α}, (∀ a ∈ l, f a = [g a]) → l.flatMap f = l.map g
  | [], _ => rfl
  | a :: l, h => by
    rw [List.flatMap_cons, List.map_cons, h a (List.mem_cons_self ..),
      flatMap_singletons fun a' ha' => h a' (List.mem_cons_of_mem _ ha')]
    rfl

/-- The kernel's tag is found, not too large, and no tag ends at `2^32`. -/
structure TagsFit (tags : List Atag) (b : Boot) (t : MemTag) : Prop where
  found : t.start < b.codePhys
  small : t.size ≤ secureMemorySize
  ends : ∀ u ∈ memTags tags, 0 < u.size → u.start + u.size < 4294967296

/-- The area of a tag, where each tag has one. -/
def areaOf (t u : MemTag) : PhysMemArea :=
  ⟨u.start, u.start + u.size, if u = t then .secure else .unsecure⟩

theorem TagsFit.end_eq (hf : TagsFit tags b t) (hm : Machine tags b t) (hu : u ∈ memTags tags) :
    u.end_ = u.start + u.size := by
  have hr := hm.range u hu
  have hends := hf.ends u hu
  exact w32_of_lt (by omega)

theorem TagsFit.isOurSegment (hf : TagsFit tags b t) (hm : Machine tags b t)
    (hu : u ∈ memTags tags) : Mm.isOurSegment b.codePhys u = true ↔ u = t := by
  constructor
  · exact hm.segment_eq hu
  · rintro rfl
    have h1 := hf.found
    have h2 := hm.has_code.2
    unfold Mm.isOurSegment
    rw [hf.end_eq hm hu, decide_eq_true h1, decide_eq_true h2]
    rfl

/-- The areas: one for each tag. -/
theorem TagsFit.areas (hf : TagsFit tags b t) (hm : Machine tags b t) :
    (memTags tags).flatMap (areasOf b.codePhys) = (memTags tags).map (areaOf t) := by
  refine flatMap_singletons fun u hu => ?_
  have hiff := hf.isOurSegment hm hu
  unfold areasOf areaOf
  by_cases hut : u = t
  · subst hut
    rw [if_pos (hiff.mpr rfl), if_neg (Nat.not_lt.mpr hf.small), hf.end_eq hm hu, if_pos rfl]
  · rw [if_neg (fun h => hut (hiff.mp h)), hf.end_eq hm hu, if_neg hut]

theorem TagsFit.find (hf : TagsFit tags b t) (hm : Machine tags b t) :
    (memTags tags).find? (Mm.isOurSegment b.codePhys) = some t := by
  cases h : (memTags tags).find? (Mm.isOurSegment b.codePhys) with
  | none =>
    have hno := List.find?_eq_none.mp h t hm.mem
    exact absurd ((hf.isOurSegment hm hm.mem).mpr rfl) hno
  | some u =>
    have hu := List.mem_of_find?_eq_some h
    rw [hm.segment_eq hu (List.find?_some h)]

/-- The frames behind the kernel's heap. -/
theorem TagsFit.frames (k : Kernel) (hf : TagsFit tags b t) (hm : Machine tags b t) {p : Nat}
    (hp : p < (initPmm k b t).pmm.pages) :
    b.physHeapEnd + 4096 * p + 4096 ≤ t.start + t.size ∧ t.start ≤ b.physHeapEnd := by
  have h1 := hm.inside
  have h2 := hm.code
  have h3 := hm.heap
  have h4 := hf.ends t hm.mem (by omega)
  have hsub : sub32 (t.start + t.size) b.physHeapEnd = t.start + t.size - b.physHeapEnd :=
    sub32_of_le h1 h4
  unfold initPmm pmmInit Bitmap.pages Bitmap.allFree bitmapWords at hp
  simp only at hp
  rw [if_neg (Nat.not_lt.mpr hf.small), hf.end_eq hm hm.mem, hsub] at hp
  omega

/-- There is one secure area. -/
theorem secure_eq {a : PhysMemArea} (ha : a ∈ (memTags tags).map (areaOf t))
    (hs : a.type = .secure) : a = areaOf t t := by
  obtain ⟨u, -, rfl⟩ := List.mem_map.mp ha
  by_cases hut : u = t
  · rw [hut]
  · unfold areaOf at hs
    rw [if_neg hut] at hs
    exact AreaType.noConfusion hs

theorem TagsFit.locked (hlt : t.start + t.size < 4294967296) (tzmemLock : Nat → Nat → Int)
    (x : Nat) :
    (∃ call ∈ (pmmProtectSecureMem tzmemLock ((memTags tags).map (areaOf t))).2,
        call.1 ≤ x ∧ x < call.1 + call.2) ↔
      ∃ a ∈ (memTags tags).map (areaOf t), a.type = .secure ∧ a.Has x := by
  have hcall : sub32 (areaOf t t).pend (areaOf t t).pstart = t.size := by
    have hsub := sub32_of_le (Nat.le_add_right t.start t.size) hlt
    rw [Nat.add_sub_cancel_left] at hsub
    exact hsub
  constructor
  · rintro ⟨call, hc, hx⟩
    obtain ⟨a, ha, hs, rfl⟩ := mem_protect hc
    obtain rfl := secure_eq ha hs
    rw [hcall] at hx
    exact ⟨_, ha, hs, hx⟩
  · rintro ⟨a, ha, hs, hx⟩
    obtain ⟨a', ha', hs', hc⟩ := protect_first tzmemLock ha hs
    obtain rfl := secure_eq ha hs
    obtain rfl := secure_eq ha' hs'
    refine ⟨_, hc, ?_⟩
    rw [hcall]
    exact hx

/-- The tags fit: every promise is kept. -/
theorem TagsFit.good (hf : TagsFit tags b t) (hm : Machine tags b t) :
    ∃ areas, (initVmm k b tags).2 = some areas ∧
      AreasGood (memTags tags) (initVmm k b tags).1 areas := by
  have hlt : t.start + t.size < 4294967296 := by
    have h1 := hm.has_code
    unfold MemTag.Has at h1
    exact hf.ends t hm.mem (by omega)
  rw [initVmm_eq k b hm.wellFormed, hf.find hm, hf.areas hm]
  simp only
  refine ⟨_, rfl, ?_⟩
  constructor
  · rw [List.pairwise_map]
    exact hm.disjoint
  · intro x
    constructor
    · rintro ⟨a, ha, hx⟩
      obtain ⟨u, hu, rfl⟩ := List.mem_map.mp ha
      exact ⟨u, hu, hx⟩
    · rintro ⟨u, hu, hx⟩
      exact ⟨areaOf t u, List.mem_map.mpr ⟨u, hu, rfl⟩, hx⟩
  · intro p hp
    obtain ⟨h1, h2⟩ := hf.frames k hm hp
    have hw : w32 (b.physHeapEnd + 4096 * p) = b.physHeapEnd + 4096 * p := w32_of_lt (by omega)
    refine ⟨areaOf t t, List.mem_map.mpr ⟨t, hm.mem, rfl⟩, if_pos rfl, fun x hx1 hx2 => ?_⟩
    have hstart : (smmInit (mmmInit (initPmm k b t)) (w32 (b.vhend + 1)) 0xFFFFFFFF).physStart =
        b.physHeapEnd := rfl
    rw [hstart, hw] at hx1 hx2
    exact ⟨h2.trans (by omega), Nat.lt_of_lt_of_le hx2 h1⟩
  · exact TagsFit.locked hlt

/-- A promise broken where the tags do not fit. -/
theorem tagsFit_of_good (hm : Machine tags b t)
    (h : ∃ areas, (initVmm k b tags).2 = some areas ∧
      AreasGood (memTags tags) (initVmm k b tags).1 areas) : TagsFit tags b t := by
  obtain ⟨areas, hareas, hgood⟩ := h
  have hcover := hgood.cover
  rw [initVmm_eq k b hm.wellFormed] at hareas
  split at hareas
  · rename_i u hu
    have hours := List.find?_some hu
    obtain rfl := hm.segment_eq (List.mem_of_find?_eq_some hu) hours
    obtain rfl := Option.some.inj hareas
    have hfound : u.start < b.codePhys ∧ b.codePhys < u.end_ := by
      unfold isOurSegment at hours
      rw [Bool.and_eq_true, decide_eq_true_eq, decide_eq_true_eq] at hours
      exact hours
    -- a byte of a tag is in an area of that tag
    have harea : ∀ v ∈ memTags tags, ∀ x, v.Has x → ∃ a ∈ areasOf b.codePhys v, a.Has x := by
      intro v hv x hx
      obtain ⟨a, ha, hax⟩ := (hcover x).mpr ⟨v, hv, hx⟩
      obtain ⟨v', hv', ha'⟩ := List.mem_flatMap.mp ha
      obtain rfl := hm.tag_eq hv hv' hx (has_of_areasOf (hm.range v' hv').2 ha' hax)
      exact ⟨a, ha', hax⟩
    constructor
    · exact hfound.1
    · by_contra hbig
      have hr := hm.range u hm.mem
      obtain ⟨a, ha, h1, h2⟩ := harea u hm.mem (u.start + secureMemorySize - 1)
        (by unfold MemTag.Has secureMemorySize at *; omega)
      have hw : w32 (u.start + secureMemorySize) = u.start + secureMemorySize :=
        w32_of_lt (by unfold secureMemorySize at *; omega)
      have hw1 : w32 (u.start + secureMemorySize - 1) = u.start + secureMemorySize - 1 :=
        w32_of_lt (by unfold secureMemorySize at *; omega)
      unfold areasOf at ha
      rw [if_pos hours, if_pos (Nat.lt_of_not_le hbig), hw, hw1] at ha
      rcases List.mem_cons.mp ha with rfl | ha
      · unfold secureMemorySize at *
        simp only at h1
        omega
      · obtain rfl := List.mem_singleton.mp ha
        exact Nat.lt_irrefl _ h2
    · intro v hv hpos
      by_contra hend
      have hr := hm.range v hv
      have hz : v.end_ = 0 := by
        unfold MemTag.end_ w32
        omega
      obtain ⟨a, ha, h1, h2⟩ := harea v hv v.start ⟨le_refl _, by omega⟩
      have hnot : isOurSegment b.codePhys v = false := by
        unfold isOurSegment
        rw [hz, decide_eq_false (Nat.not_lt_zero _), Bool.and_false]
      unfold areasOf at ha
      rw [hnot] at ha
      obtain rfl := List.mem_singleton.mp ha
      rw [hz] at h2
      exact Nat.not_lt_zero _ h2
  · exact absurd hareas (by simp)

/-- **When `init_vmm` notes the memory down right.**  The areas are disjoint and cover the memory,
the frames are secure and the secure areas are locked exactly when the tag of the kernel starts
below the kernel, has at most `SECURE_MEMORY_SIZE` bytes, and no tag ends at `2^32`. -/
theorem initVmm_areas_iff (k : Kernel) (hm : Machine tags b t) :
    (∃ areas, (initVmm k b tags).2 = some areas ∧
        AreasGood (memTags tags) (initVmm k b tags).1 areas) ↔
      TagsFit tags b t :=
  ⟨tagsFit_of_good hm, fun hf => hf.good hm⟩

/-- The machine of `bootKernel`, with a second bank. -/
def bootTags : List Atag :=
  [.core, .other 0x54410007, .mem ⟨0x70000000, 0x10000000⟩, .mem ⟨0xB0000000, 0x10000000⟩]

def bootBoot : Boot := ⟨0x70008000, 0x76500000, 0xC64FFFFF⟩

theorem bootMachine : Machine bootTags bootBoot ⟨0x70000000, 0x10000000⟩ where
  wellFormed := ⟨_, rfl⟩
  range := by decide
  disjoint := by
    refine List.Pairwise.cons ?_ (List.Pairwise.cons ?_ List.Pairwise.nil)
    · intro u hu x hx
      obtain rfl := List.mem_singleton.mp hu
      simp only [MemTag.Has] at hx
      omega
    · exact fun u hu => absurd hu (List.not_mem_nil)
  mem := by decide
  code := by decide
  heap := by decide
  inside := by decide

theorem initVmm_areas_boot : ∃ areas, (initVmm bootKernel bootBoot bootTags).2 = some areas ∧
    AreasGood (memTags bootTags) (initVmm bootKernel bootBoot bootTags).1 areas :=
  (initVmm_areas_iff bootKernel bootMachine).mpr ⟨by decide, by decide, by decide⟩

example : (initVmm bootKernel bootBoot bootTags).1.pmm.words = bootKernel.pmm.words ∧
    (initVmm bootKernel bootBoot bootTags).1.smm.words = bootKernel.smm.words := by
  decide +kernel

/-- A machine with a bank of 512 MB. -/
def bigTags : List Atag := [.core, .mem ⟨0x70000000, 0x20000000⟩]

/-- On it the last byte of the first 256 MB is in no area, though it is in the last frame. -/
theorem initVmm_loses_byte :
    Machine bigTags bootBoot ⟨0x70000000, 0x20000000⟩ ∧
      ¬ ∃ areas, (initVmm bootKernel bootBoot bigTags).2 = some areas ∧
        AreasGood (memTags bigTags) (initVmm bootKernel bootBoot bigTags).1 areas := by
  constructor
  · exact ⟨⟨_, rfl⟩, by decide, List.pairwise_singleton .., by decide, by decide, by decide,
      by decide⟩
  · rintro ⟨areas, hareas, hgood⟩
    have hlist : (initVmm bootKernel bootBoot bigTags).2 =
        some [⟨0x80000000, 0x90000000, .unsecure⟩, ⟨0x70000000, 0x7FFFFFFF, .secure⟩] := by
      decide +kernel
    obtain rfl := Option.some.inj (hlist.symm.trans hareas)
    obtain ⟨a, ha, h1, h2⟩ := (hgood.cover 0x7FFFFFFF).mpr
      ⟨⟨0x70000000, 0x20000000⟩, by decide, by decide, by decide⟩
    rcases List.mem_cons.mp ha with rfl | ha
    · exact absurd h1 (by decide)
    · obtain rfl := List.mem_singleton.mp ha
      exact absurd h2 (by decide)

end AndixOs.Mm
