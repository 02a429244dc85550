/-
# What a loaded image looks like

After `setup_elf` a process should see its segments: the bytes of the file, zeros behind them, and
the rights each segment asks for (`SegmentLoaded`).

The loader falls short of that in three ways.  It copies `p_filesz / 4` words, so that the bytes
behind the last whole word stay zero.  It fills whole pages with zeros, one page too many, before
it copies, and a page that an earlier segment shares loses its bytes.  And it does not look at the
result of `map_memory_v`, so that a shared page keeps the rights of the first segment that has it.
`userByte` is what a process sees then, and `SegmentKept` says when that is the file
(`setupElf_loads_iff`).  An image that also passes the checks of `ImageSafe` is entered
(`setupElf_enters`).
-/
import AndixOs.Loader.Safe

namespace AndixOs.Loader

open AndixOs AndixOs.Mm

/-! ## 1. Images, and what loading them should give -/

/-- The `PT_LOAD` headers of an image. -/
def segments (b : Bytes32) (payload : Nat) : List Phdr := loadsBefore b payload (ePhnum b payload)

/-- The address is one of the segment's. -/
def InSegment (ph : Phdr) (va : Nat) : Prop := ph.pVaddr ≤ va ∧ va < ph.pVaddr + ph.pMemsz

/-- A segment of an image of `size` bytes. -/
structure SegmentWellFormed (size : Nat) (ph : Phdr) : Prop where
  file : ph.pOffset + ph.pFilesz ≤ size
  sizes : ph.pFilesz ≤ ph.pMemsz
  user : ph.pVaddr + ph.pMemsz ≤ 0x80000000

/-- A well-formed image. -/
structure WellFormed (b : Bytes32) (payload size : Nat) : Prop where
  fits : payload + size ≤ 4294967296
  header : headerOk b payload = true
  whole : 52 ≤ size
  /-- `e_phentsize` -/
  entry : field b (payload + 42) 2 = 32
  table : ePhoff b payload + 32 * ePhnum b payload ≤ size
  segment : ∀ ph ∈ segments b payload, SegmentWellFormed size ph
  disjoint : (segments b payload).Pairwise fun ph q => ∀ va, InSegment ph va → ¬ InSegment q va

/-- There is memory for every segment, after those before it. -/
def EnoughMemory (k : Kernel) (l : List Phdr) : Prop :=
  ∀ l₁ ph l₂, l = l₁ ++ ph :: l₂ →
    (allocatePages (pmmAfter k l₁) k.physStart (pgCount ph)).1 ≠ 0

/-- The rights that `p_flags` ask for. -/
structure Asked (flags : Nat) (l : Leaf) : Prop where
  reads : hasFlag flags pfR = true → l.usrReads = true
  writes : l.usrWrites = hasFlag flags pfW
  executes : l.attr.xn = 0 ↔ hasFlag flags pfX = true

/-- **The process sees the segment.** -/
structure SegmentLoaded (b : Bytes32) (payload : Nat) (s : LoadState) (ph : Phdr) : Prop where
  file : ∀ o, o < ph.pFilesz → ∃ l, walk s.kernel.proc.vuserPD (ph.pVaddr + o) = some l ∧
    s.mem l.pa = b (w32 (payload + ph.pOffset + o))
  zero : ∀ o, ph.pFilesz ≤ o → o < ph.pMemsz →
    ∃ l, walk s.kernel.proc.vuserPD (ph.pVaddr + o) = some l ∧ s.mem l.pa = 0
  rights : ∀ o, o < ph.pMemsz →
    ∃ l, walk s.kernel.proc.vuserPD (ph.pVaddr + o) = some l ∧ Asked ph.pFlags l

/-! ## 2. What the loader makes of it -/

/-- The address is in the words that are copied for a segment. -/
def inWords (ph : Phdr) (va : Nat) : Bool :=
  decide (ph.pVaddr ≤ va) && decide (va < ph.pVaddr + ph.pFilesz / 4 * 4)

/-- The byte that the file has for an address. -/
def fileByte (b : Bytes32) (payload : Nat) (ph : Phdr) (va : Nat) : UInt8 :=
  b (w32 (payload + ph.pOffset + (va - ph.pVaddr)))

/-- What a process sees at an address after a segment, when it saw the bytes `c` before. -/
def byteAfter (b : Bytes32) (payload : Nat) (c : Nat → UInt8) (ph : Phdr) (va : Nat) : UInt8 :=
  if inWords ph va then fileByte b payload ph va
  else if inPages ph (va / 4096) then 0 else c va

/-- What a process sees after these segments. -/
def userByte (b : Bytes32) (payload : Nat) (l : List Phdr) : Nat → UInt8 :=
  l.foldl (byteAfter b payload) fun _ => 0

/-- The first of the segments that has the page. -/
def firstWith (l : List Phdr) (p : Nat) : Option Phdr := l.find? fun ph => inPages ph p

/-- What of the segment `ph` stays, where the segments `l₂` come after it, of all the segments
`l`. -/
structure SegmentKept (b : Bytes32) (payload : Nat) (l l₂ : List Phdr) (ph : Phdr) : Prop where
  /-- the file has a zero wherever it is not copied by words, and wherever a later segment has the
  page -/
  bytes : ∀ o, o < ph.pFilesz →
    ph.pFilesz / 4 * 4 ≤ o ∨ covered l₂ ((ph.pVaddr + o) / 4096) = true →
      b (w32 (payload + ph.pOffset + o)) = 0
  /-- the first segment that has a page of it asks for the same rights -/
  rights : ∀ o, o < ph.pMemsz → ∀ q, firstWith l ((ph.pVaddr + o) / 4096) = some q →
    hasFlag q.pFlags pfW = hasFlag ph.pFlags pfW ∧ hasFlag q.pFlags pfX = hasFlag ph.pFlags pfX

/-- Everything of the image stays. -/
def ImageKept (b : Bytes32) (payload : Nat) : Prop :=
  ∀ l₁ ph l₂, segments b payload = l₁ ++ ph :: l₂ →
    SegmentKept b payload (segments b payload) l₂ ph

variable {b : Bytes32} {payload size : Nat} {k : Kernel} {s : LoadState} {l : List Phdr} {ph : Phdr}
  {u : Owners} {va : Nat}

theorem userByte_append (b : Bytes32) (payload : Nat) (l : List Phdr) (ph : Phdr) :
    userByte b payload (l ++ [ph]) = byteAfter b payload (userByte b payload l) ph := by
  unfold userByte
  rw [List.foldl_append]
  rfl

/-- Segments that copy nothing to an address fill its page with zeros or leave it. -/
theorem foldl_byteAfter (b : Bytes32) (payload : Nat) (c : Nat → UInt8) :
    ∀ l₂ : List Phdr, (∀ q ∈ l₂, inWords q va = false) →
      l₂.foldl (byteAfter b payload) c va = if covered l₂ (va / 4096) then 0 else c va := by
  intro l₂
  induction l₂ generalizing c with
  | nil =>
    intro _
    rfl
  | cons q l₂ ih =>
    intro h
    have hq := h q List.mem_cons_self
    have hrest := ih (byteAfter b payload c q) fun q' hq' => h q' (List.mem_cons_of_mem q hq')
    have hcov : covered (q :: l₂) (va / 4096) = (inPages q (va / 4096) || covered l₂ (va / 4096)) :=
      List.any_cons
    rw [List.foldl_cons, hrest, hcov, byteAfter, hq]
    cases inPages q (va / 4096) <;> cases covered l₂ (va / 4096) <;> rfl

/-- **What a process sees of a segment**, whose addresses no later segment copies to. -/
theorem userByte_split (b : Bytes32) (payload : Nat) (l₁ : List Phdr) {l₂ : List Phdr}
    (hpage : inPages ph (va / 4096) = true) (hlater : ∀ q ∈ l₂, inWords q va = false) :
    userByte b payload (l₁ ++ ph :: l₂) va =
      if covered l₂ (va / 4096) then 0
      else if inWords ph va then fileByte b payload ph va else 0 := by
  unfold userByte
  rw [List.foldl_append, List.foldl_cons, foldl_byteAfter b payload _ l₂ hlater, byteAfter, hpage]
  rfl

/-! ## 3. Stores to pages with frames of their own -/

/-- No two pages have one frame. -/
def Apart (u : Owners) : Prop :=
  ∀ p p' o o', u p = some o → u p' = some o' → o.frame = o'.frame → p = p'

/-- The process sees the bytes `c`. -/
def Shows (s : LoadState) (u : Owners) (c : Nat → UInt8) : Prop :=
  ∀ va o, u (va / 4096) = some o → s.mem (o.frame * 4096 + va % 4096) = c va

/-- Where a store goes, it goes to the page's frame. -/
theorem writeAddr_eq_some (h : Holds s.kernel.proc.vuserPD u) (hva : va < 0x80000000) {a : Nat}
    (ha : writeAddr s.kernel va = some a) :
    ∃ o, u (va / 4096) = some o ∧ a = o.frame * 4096 + va % 4096 := by
  rw [writeAddr_user h hva, Option.bind_eq_some_iff] at ha
  obtain ⟨o, ho, ha⟩ := ha
  split at ha
  · exact ⟨o, ho, (Option.some.inj ha).symm⟩
  · exact absurd ha (by simp)

/-- A store that reaches a byte of a page is one to its address. -/
theorem Apart.addr_eq (hu : Apart u) (h : Holds s.kernel.proc.vuserPD u) {va' : Nat} {o : Owned}
    (hva' : va' < 0x80000000) (ho : u (va / 4096) = some o)
    (hw : writeAddr s.kernel va' = some (o.frame * 4096 + va % 4096)) : va' = va := by
  obtain ⟨o', ho', ha⟩ := writeAddr_eq_some h hva' hw
  have hpage := hu _ _ _ _ ho ho' (by omega)
  omega

/-- **A run of stores, as the process sees it.** -/
theorem storeRun_shows (h : Holds s.kernel.proc.vuserPD u) (hu : Apart u) {addr count : Nat}
    {src c : Nat → UInt8} (hfit : addr + count ≤ 0x80000000)
    (hdone : (storeRun s addr count src).1 = true) (hs : Shows s u c) :
    Shows (storeRun s addr count src).2 u fun va =>
      if addr ≤ va ∧ va < addr + count then src (va - addr) else c va := by
  intro va o ho
  beta_reduce
  have haddr : ∀ j, j < count → w32 (addr + j) = addr + j := fun j hj => w32_of_lt (by omega)
  -- the one store of the run that reaches the byte
  have hone : ∀ j, 0 ≤ j → j < 0 + count →
      writeAddr s.kernel (w32 (addr + j)) = some (o.frame * 4096 + va % 4096) → addr + j = va := by
    intro j _ hj hw
    rw [haddr j (by omega)] at hw
    exact hu.addr_eq h (by omega) ho hw
  by_cases hin : addr ≤ va ∧ va < addr + count
  · rw [if_pos hin]
    have hall := storeRun_done.mp hdone (va - addr) (by omega)
    obtain ⟨a, ha⟩ := Option.isSome_iff_exists.mp hall
    have ha' := ha
    rw [haddr _ (by omega), Nat.add_sub_cancel' hin.1] at ha'
    obtain ⟨o', ho', rfl⟩ := writeAddr_eq_some h (by omega) ha'
    obtain rfl := Option.some.inj (ho.symm.trans ho')
    refine storeBytes_at hdone (Nat.zero_le _) (by omega) (fun x h1 h2 hx => ?_) ha
    have := hone x h1 h2 (hx.trans ha)
    omega
  · rw [if_neg hin, ← hs va o ho]
    refine storeBytes_of_ne fun j h1 h2 hw => hin ?_
    have := hone j h1 h2 hw
    omega

/-- The pages of the segment are those from its first one on. -/
theorem inPages_iff {p : Nat} :
    inPages ph p = true ↔ startPage ph ≤ p ∧ p < startPage ph + pgCount ph := by
  rw [inPages, Bool.and_eq_true, decide_eq_true_eq, decide_eq_true_eq]

theorem inWords_iff :
    inWords ph va = true ↔ ph.pVaddr ≤ va ∧ va < ph.pVaddr + ph.pFilesz / 4 * 4 := by
  rw [inWords, Bool.and_eq_true, decide_eq_true_eq, decide_eq_true_eq]

/-- The zeros of a segment. -/
theorem zeroSegment_shows (h : Holds s.kernel.proc.vuserPD u) (hu : Apart u) {c : Nat → UInt8}
    (hpages : startPage ph + pgCount ph ≤ 0x80000) (hdone : (zeroSegment s ph).1 = true)
    (hs : ∀ va o, u (va / 4096) = some o → inPages ph (va / 4096) = false →
      s.mem (o.frame * 4096 + va % 4096) = c va) :
    Shows (zeroSegment s ph).2 u fun va => if inPages ph (va / 4096) then 0 else c va := by
  have hseen : Shows s u fun va =>
      ((u (va / 4096)).map fun o => s.mem (o.frame * 4096 + va % 4096)).getD 0 := by
    intro va o ho
    beta_reduce
    rw [ho]
    rfl
  unfold zeroSegment at hdone ⊢
  rw [zeroCount (Or.inr hpages)] at hdone ⊢
  have hrun := storeRun_shows h hu (by omega) hdone hseen
  intro va o ho
  rw [hrun va o ho]
  beta_reduce
  rw [ho]
  cases hin : inPages ph (va / 4096) with
  | true =>
    have hrange := inPages_iff.mp hin
    exact if_pos (by omega)
  | false =>
    have hrange := mt inPages_iff.mpr (Bool.eq_false_iff.mp hin)
    rw [if_neg (by omega)]
    exact hs va o ho hin

/-- The words of a segment. -/
theorem copySegment_shows (b : Bytes32) (payload : Nat) (h : Holds s.kernel.proc.vuserPD u)
    (hu : Apart u) {c : Nat → UInt8} (hwords : ph.pVaddr + ph.pFilesz / 4 * 4 ≤ 0x80000000)
    (hdone : (copySegment b payload s ph).1 = true) (hs : Shows s u c) :
    Shows (copySegment b payload s ph).2 u fun va =>
      if inWords ph va then fileByte b payload ph va else c va := by
  unfold copySegment at hdone ⊢
  have hrun := storeRun_shows (s := s.record _) h hu hwords hdone hs
  intro va o ho
  rw [hrun va o ho]
  beta_reduce
  simp only [inWords_iff, fileByte]

/-- **Filling a segment, as the process sees it.** -/
theorem fillSegment_shows (b : Bytes32) (payload : Nat) (h : Holds s.kernel.proc.vuserPD u)
    (hu : Apart u) {c : Nat → UInt8} (hpages : startPage ph + pgCount ph ≤ 0x80000)
    (hwords : ph.pVaddr + ph.pFilesz / 4 * 4 ≤ 0x80000000)
    (hdone : (fillSegment b payload s ph).1 = true)
    (hs : ∀ va o, u (va / 4096) = some o → inPages ph (va / 4096) = false →
      s.mem (o.frame * 4096 + va % 4096) = c va) :
    Shows (fillSegment b payload s ph).2 u (byteAfter b payload c ph) := by
  have hz : (zeroSegment s ph).1 = true := by
    by_contra hz
    rw [fillSegment_fault b payload hz] at hdone
    exact hz hdone
  have hzero := zeroSegment_shows h hu hpages hz hs
  have hholds : Holds (zeroSegment s ph).2.kernel.proc.vuserPD u := by
    rw [zeroSegment_kernel]
    exact h
  rw [fillSegment_zeroed b payload hz] at hdone ⊢
  exact copySegment_shows b payload hholds hu hwords hdone hzero

/-! ## 4. The invariant of the loop -/

/-- The state between two segments: every page has the rights of the first segment that has it and
a frame of its own, and the process sees what the segments so far made of it. -/
structure ImageInv (b : Bytes32) (payload : Nat) (k : Kernel) (l : List Phdr) (s : LoadState)
    (u : Owners) : Prop extends LoadInv k l s u where
  first : ∀ p o, u p = some o → ∃ q, firstWith l p = some q ∧ o.flags = q.pFlags
  apart : Apart u
  taken : ∀ p o, u p = some o →
    ∃ r, o.frame = k.physStart / 4096 + r ∧ s.kernel.pmm.isFree r = false
  shows : Shows s u (userByte b payload l)

/-- The pages of a segment in the user half. -/
theorem pgCount_user (h : ph.pVaddr + ph.pMemsz ≤ 0x80000000) :
    pgCount ph = (ph.pVaddr + ph.pMemsz + 4095) / 4096 + 1 - ph.pVaddr / 4096 := by
  rw [pgCount_eq (by omega), w32_of_lt (n := ph.pVaddr + ph.pMemsz) (by omega)]
  unfold w32
  omega

/-- They have all its addresses. -/
theorem inPages_of_inSegment (h : ph.pVaddr + ph.pMemsz ≤ 0x80000000) (hva : InSegment ph va) :
    inPages ph (va / 4096) = true := by
  obtain ⟨hlo, hhi⟩ := hva
  rw [inPages_iff, pgCount_user h, startPage]
  omega

/-- The frames of a segment that was allocated. -/
theorem allocated_run (hk : LoaderOk k) (h : LoadInv k l s u) (hpos : 0 < pgCount ph)
    (hne : allocated s ph ≠ 0) :
    ∃ q, (∀ j, j < pgCount ph →
        (pageOwned ph (allocated s ph) j).frame = k.physStart / 4096 + (q + j)) ∧
      (∀ j, j < pgCount ph → s.kernel.pmm.isFree (q + j) = true) ∧
      ∀ p, (pmmAfter k (l ++ [ph])).isFree p =
        (s.kernel.pmm.isFree p && !decide (q ≤ p ∧ p < q + pgCount ph)) := by
  have hhigh := hk.high
  rw [← h.physStart, ← h.pages] at hhigh
  rw [pmmAfter_append, ← h.pmm, ← h.physStart]
  unfold allocated at *
  rcases allocatePages_spec s.kernel.pmm s.kernel.physStart hpos (pgCount_lt ph) with
    ⟨hnull, -⟩ | ⟨q, b', hsome, hrun, -, hfree, -⟩
  · rw [hnull] at hne
    exact absurd rfl hne
  · have hin := hrun.inside
    rw [hsome]
    refine ⟨q, fun j hj => ?_, fun j hj => hrun.run (q + j) (by omega) (by omega), hfree⟩
    rw [pageOwned, w32_w32_add]
    unfold w32
    simp only
    omega

theorem firstWith_isSome (l : List Phdr) (p : Nat) : (firstWith l p).isSome = covered l p := by
  rw [Bool.eq_iff_iff, firstWith, covered, List.find?_isSome, List.any_eq_true]

/-- Who owns a page after a segment was placed. -/
theorem placed_cases {ppage p : Nat} {o : Owned} (ho : placed u ph ppage p = some o) :
    u p = some o ∨
      u p = none ∧ inPages ph p = true ∧ o = pageOwned ph ppage (p - startPage ph) := by
  cases hu : u p with
  | some o' =>
    rw [placed_some hu] at ho
    exact Or.inl ho
  | none =>
    rw [placed_none hu] at ho
    split at ho
    · rename_i hin
      exact Or.inr ⟨rfl, hin, (Option.some.inj ho).symm⟩
    · exact absurd ho (by simp)

/-- The first segment that has a page owns it. -/
theorem ImageInv.placed_first (h : ImageInv b payload k l s u) (ppage p : Nat) {o : Owned}
    (ho : placed u ph ppage p = some o) :
    ∃ q, firstWith (l ++ [ph]) p = some q ∧ o.flags = q.pFlags := by
  rw [firstWith, List.find?_append]
  rcases placed_cases ho with hu | ⟨hu, hin, rfl⟩
  · obtain ⟨q', hq', hflags⟩ := h.first p o hu
    refine ⟨q', ?_, hflags⟩
    rw [← firstWith, hq']
    rfl
  · have hnone : firstWith l p = none := by
      rw [← Option.isNone_iff_eq_none, ← Option.not_isSome, firstWith_isSome, ← h.owned, hu]
      rfl
    refine ⟨ph, ?_, rfl⟩
    rw [← firstWith, hnone]
    simp [hin]

/-- Every page has a frame of its own after a segment was placed. -/
theorem ImageInv.placed_apart (hk : LoaderOk k) (h : ImageInv b payload k l s u)
    (hpos : 0 < pgCount ph) (hne : allocated s ph ≠ 0) :
    Apart (placed u ph (allocated s ph)) := by
  obtain ⟨q, hframe, hfree, -⟩ := allocated_run hk h.toLoadInv hpos hne
  -- a new page has a frame that was free, so no page had it
  have hnew : ∀ p p' o, u p = some o → inPages ph p' = true →
      o.frame ≠ (pageOwned ph (allocated s ph) (p' - startPage ph)).frame := by
    intro p p' o ho hin heq
    have hrange := inPages_iff.mp hin
    obtain ⟨r, hr, htaken⟩ := h.taken p o ho
    rw [hframe _ (by omega), hr] at heq
    have hfr := hfree (p' - startPage ph) (by omega)
    rw [← Nat.add_left_cancel heq, htaken] at hfr
    exact Bool.false_ne_true hfr
  intro p p' o o' ho ho' heq
  rcases placed_cases ho with hu | ⟨-, hin, rfl⟩
  · rcases placed_cases ho' with hu' | ⟨-, hin', rfl⟩
    · exact h.apart p p' o o' hu hu' heq
    · exact absurd heq (hnew p p' o hu hin')
  · rcases placed_cases ho' with hu' | ⟨-, hin', rfl⟩
    · exact absurd heq.symm (hnew p' p o' hu' hin)
    · have hrange := inPages_iff.mp hin
      have hrange' := inPages_iff.mp hin'
      rw [hframe _ (by omega), hframe _ (by omega)] at heq
      omega

/-- The frames of the pages are not free after a segment was placed. -/
theorem ImageInv.placed_taken (hk : LoaderOk k) (h : ImageInv b payload k l s u)
    (hpos : 0 < pgCount ph) (hne : allocated s ph ≠ 0) {p : Nat} {o : Owned}
    (ho : placed u ph (allocated s ph) p = some o) :
    ∃ r, o.frame = k.physStart / 4096 + r ∧ (pmmAfter k (l ++ [ph])).isFree r = false := by
  obtain ⟨q, hframe, -, hafter⟩ := allocated_run hk h.toLoadInv hpos hne
  rcases placed_cases ho with hu | ⟨-, hin, rfl⟩
  · obtain ⟨r, hr, htaken⟩ := h.taken p o hu
    refine ⟨r, hr, ?_⟩
    rw [hafter, htaken]
    rfl
  · have hrange := inPages_iff.mp hin
    refine ⟨q + (p - startPage ph), hframe _ (by omega), ?_⟩
    rw [hafter, decide_eq_true (by omega)]
    exact Bool.and_false _

/-- **What a segment preserves.** -/
theorem loadSegment_image (hk : LoaderOk k) (h : ImageInv b payload k l s u)
    (hwf : SegmentWellFormed size ph) (hne : allocated s ph ≠ 0)
    (hdone : (loadSegment b payload s ph).1 = true) :
    ImageInv b payload k (l ++ [ph]) (loadSegment b payload s ph).2
      (placed u ph (allocated s ph)) := by
  have huser := hwf.user
  have hsizes := hwf.sizes
  have hv : ph.pVaddr < 4294967296 := by omega
  have hpos : 0 < pgCount ph := by
    rw [pgCount_user huser]
    omega
  have hfit : InUserHalf ph := by
    by_contra hno
    have hfault := placeSegment_fault (s := s) hv hno
    rw [loadSegment_unplaced b payload hfault, hfault] at hdone
    exact Bool.false_ne_true hdone
  have hpages : startPage ph + pgCount ph ≤ 0x80000 := hfit.resolve_left (by omega)
  have hbase := loadSegment_inv h.toLoadInv hv hdone
  have hapart := h.placed_apart hk hpos hne
  refine { toLoadInv := hbase, first := fun p o => h.placed_first _ p, apart := hapart, taken := ?_,
           shows := ?_ }
  · intro p o ho
    rw [hbase.pmm]
    exact h.placed_taken hk hpos hne ho
  · obtain ⟨s', hplace, hholds, -, -, hmem, -⟩ := placeSegment_spec hfit h.holds
    rw [loadSegment_placed b payload hplace] at hdone ⊢
    rw [userByte_append]
    refine fillSegment_shows b payload hholds hapart hpages (by omega) hdone fun va o ho hin => ?_
    rw [hmem]
    rcases placed_cases ho with hu | ⟨-, hin', -⟩
    · exact h.shows va o hu
    · exact absurd (hin.symm.trans hin') Bool.false_ne_true

theorem ImageInv.congr {s' : LoadState} (h : ImageInv b payload k l s u)
    (hk : s'.kernel = s.kernel) (hm : s'.mem = s.mem) : ImageInv b payload k l s' u := by
  refine { toLoadInv := h.toLoadInv.congr hk, first := h.first, apart := h.apart, taken := ?_,
           shows := ?_ }
  · rw [hk]
    exact h.taken
  · intro va o ho
    rw [hm]
    exact h.shows va o ho

theorem readFields_mem (b : Bytes32) (payload idx : Nat) : ∀ (offs : List Nat) (s : LoadState),
    (readFields b payload idx s offs).mem = s.mem
  | [], _ => rfl
  | _ :: offs, s => readFields_mem b payload idx offs (s.record _)

theorem otherHeader_mem (b : Bytes32) (payload idx : Nat) (s : LoadState) :
    (otherHeader b payload idx s).mem = s.mem := by
  unfold otherHeader
  dsimp only
  split
  · exact readFields_mem b payload idx tlsFields _
  · rfl

/-- What a `PT_LOAD` header preserves. -/
theorem loadHeader_image (hk : LoaderOk k) {idx : Nat}
    (h : ImageInv b payload k (loadsBefore b payload idx) s u)
    (hwf : SegmentWellFormed size (readPhdr b (phdrAddr b payload idx)))
    (hne : (allocatePages (pmmAfter k (loadsBefore b payload idx)) k.physStart
      (pgCount (readPhdr b (phdrAddr b payload idx)))).1 ≠ 0)
    (hdone : (loadHeader b payload idx s).1 = true) :
    ∃ u', ImageInv b payload k (loadsBefore b payload idx ++ [readPhdr b (phdrAddr b payload idx)])
      (loadHeader b payload idx s).2 u' := by
  have hread : ImageInv b payload k (loadsBefore b payload idx)
      (readFields b payload idx (readType b payload idx s) loadFields) u :=
    h.congr (readFields_kernel b payload idx loadFields _) (readFields_mem b payload idx loadFields _)
  rw [← hread.physStart, ← hread.pmm] at hne
  rw [loadHeader] at hdone ⊢
  exact ⟨_, loadSegment_image hk hread hwf hne hdone⟩

/-- **What the loop over the program headers preserves**, when it comes to its end. -/
theorem loadHeaders_image (hk : LoaderOk k) :
    ∀ (left : Nat) {idx : Nat} {s : LoadState} {u : Owners},
      ImageInv b payload k (loadsBefore b payload idx) s u →
      (∀ i, idx ≤ i → i < idx + left → (readPhdr b (phdrAddr b payload i)).pType = ptLoad →
        SegmentWellFormed size (readPhdr b (phdrAddr b payload i)) ∧
          (allocatePages (pmmAfter k (loadsBefore b payload i)) k.physStart
            (pgCount (readPhdr b (phdrAddr b payload i)))).1 ≠ 0) →
      (loadHeaders b payload size left idx s).1 = none →
      ∃ u', ImageInv b payload k (loadsBefore b payload (idx + left))
        (loadHeaders b payload size left idx s).2 u'
  | 0, idx, s, u, h, _, _ => ⟨u, h⟩
  | left + 1, idx, s, u, h, hload, hnone => by
    have hsucc := loadsBefore_succ b payload idx
    have hend : idx + (left + 1) = idx + 1 + left := by omega
    have hrest : ∀ i, idx + 1 ≤ i → i < idx + 1 + left → _ :=
      fun i h1 h2 => hload i (by omega) (by omega)
    rw [hend]
    by_cases href : w32 (payload + size) < phdrAddr b payload idx
    · rw [loadHeaders_refused href] at hnone
      exact absurd hnone (by simp)
    · by_cases ht : (readPhdr b (phdrAddr b payload idx)).pType = ptLoad
      · rw [if_pos ht] at hsucc
        obtain ⟨hwf, hne⟩ := hload idx (le_refl idx) (by omega) ht
        have hnext := loadHeader_image hk h hwf hne
        rw [← hsucc] at hnext
        rw [loadHeaders_load href ht] at hnone ⊢
        cases hl : loadHeader b payload idx s with
        | mk ok s' =>
          rw [hl] at hnone hnext
          cases ok with
          | true =>
            obtain ⟨u', hinv⟩ := hnext rfl
            exact loadHeaders_image hk left hinv hrest hnone
          | false => exact absurd hnone (by simp)
      · rw [if_neg ht] at hsucc
        rw [loadHeaders_other href ht] at hnone ⊢
        refine loadHeaders_image hk left (u := u) ?_ hrest hnone
        rw [hsucc]
        exact h.congr (otherHeader_kernel b payload idx s) (otherHeader_mem b payload idx s)

/-! ## 5. The whole call -/

/-- A `PT_LOAD` header of the image, with the segments before it and behind it. -/
theorem segments_split {idx : Nat} (hidx : idx < ePhnum b payload)
    (ht : (readPhdr b (phdrAddr b payload idx)).pType = ptLoad) :
    ∃ l₂, segments b payload =
      loadsBefore b payload idx ++ readPhdr b (phdrAddr b payload idx) :: l₂ := by
  obtain ⟨left, hleft⟩ := Nat.exists_eq_add_of_lt hidx
  rw [segments, hleft]
  clear hleft hidx
  induction left with
  | zero =>
    refine ⟨[], ?_⟩
    rw [Nat.add_zero, loadsBefore_succ, if_pos ht]
  | succ left ih =>
    obtain ⟨l₂, hl⟩ := ih
    rw [loadsBefore_succ]
    split
    · refine ⟨l₂ ++ [readPhdr b (phdrAddr b payload (idx + (left + 1)))], ?_⟩
      rw [← Nat.add_assoc idx left 1, hl]
      simp
    · exact ⟨l₂, hl⟩

theorem checkHeader_mem (b : Bytes32) (payload : Nat) : ∀ (cs : List (Nat × Nat × Nat))
    (s : LoadState), (checkHeader b payload cs s).2.mem = s.mem
  | [], _ => rfl
  | (off, w, v) :: cs, s => by
    rw [checkHeader]
    split
    · rfl
    · exact checkHeader_mem b payload cs _

/-- The loop itself does not enter the program. -/
theorem loadHeaders_not_entered (b : Bytes32) (payload size entry : Nat) :
    ∀ (left idx : Nat) (s : LoadState),
      (loadHeaders b payload size left idx s).1 ≠ some (.entered entry)
  | 0, _, _ => by simp [loadHeaders]
  | left + 1, idx, s => by
    have hrest := loadHeaders_not_entered b payload size entry left (idx + 1)
    by_cases href : w32 (payload + size) < phdrAddr b payload idx
    · rw [loadHeaders_refused href]
      simp
    · by_cases ht : (readPhdr b (phdrAddr b payload idx)).pType = ptLoad
      · rw [loadHeaders_load href ht]
        cases hl : loadHeader b payload idx s with
        | mk ok s' =>
          cases ok with
          | true => exact hrest s'
          | false => simp
      · rw [loadHeaders_other href ht]
        exact hrest _

/-- What the call after the header tests leaves, when it succeeds. -/
theorem loadImage_image (hk : LoaderOk k) (hwf : WellFormed b payload size)
    (hmem : EnoughMemory k (segments b payload)) (h : ImageInv b payload k [] s u) {entry : Nat}
    (hret : (loadImage b payload size s).1 = .entered entry) :
    ∃ u', ImageInv b payload k (segments b payload) (loadImage b payload size s).2 u' := by
  have h0 : ImageInv b payload k (loadsBefore b payload 0) s u := h
  have hload : ∀ i, 0 ≤ i → i < 0 + ePhnum b payload →
      (readPhdr b (phdrAddr b payload i)).pType = ptLoad →
        SegmentWellFormed size (readPhdr b (phdrAddr b payload i)) ∧
          (allocatePages (pmmAfter k (loadsBefore b payload i)) k.physStart
            (pgCount (readPhdr b (phdrAddr b payload i)))).1 ≠ 0 := by
    intro i _ hi ht
    have hidx : i < ePhnum b payload := by omega
    obtain ⟨l₂, hsplit⟩ := segments_split hidx ht
    refine ⟨hwf.segment _ ?_, hmem _ _ _ hsplit⟩
    rw [hsplit]
    exact List.mem_append_right _ List.mem_cons_self
  have hloop := loadHeaders_image hk (ePhnum b payload) h0 hload
  rw [Nat.zero_add] at hloop
  cases hr : loadHeaders b payload size (ePhnum b payload) 0 s with
  | mk e s' =>
    rw [hr] at hloop
    cases e with
    | some e =>
      have hval : loadImage b payload size s = (e, s') := by rw [loadImage, hr]
      have hnot := loadHeaders_not_entered b payload size entry (ePhnum b payload) 0 s
      rw [hval] at hret
      rw [hr, ← hret] at hnot
      exact absurd rfl hnot
    | none =>
      have hval : loadImage b payload size s =
          (.entered (eEntry b payload), s'.record (.read (w32 (payload + 24)) 4)) := by
        rw [loadImage, hr]
      obtain ⟨u', hinv⟩ := hloop rfl
      rw [hval]
      exact ⟨u', hinv.congr rfl rfl⟩

/-- **The state after a call that succeeds.** -/
theorem setupElf_image (hk : LoaderOk k) (hwf : WellFormed b payload size)
    (hmem : EnoughMemory k (segments b payload)) {m : Mem} {entry : Nat}
    (hret : (setupElf b payload size (.start k m)).1 = .entered entry) :
    ∃ u, ImageInv b payload k (segments b payload) (setupElf b payload size (.start k m)).2 u := by
  have hkernel := (checkHeader_spec b payload size headerChecks
    { LoadState.start k m with vheap := 0 }).2.1
  have hm := checkHeader_mem b payload headerChecks { LoadState.start k m with vheap := 0 }
  have hstart : ImageInv b payload k [] { LoadState.start k m with vheap := 0 } fun _ => none := by
    have hnone : ∀ {α : Prop} {o : Owned}, (none : Option Owned) = some o → α :=
      fun ho => absurd ho (by simp)
    refine { holds := ?_, owned := fun _ => rfl, readable := fun _ _ ho => hnone ho, pmm := rfl,
             physStart := rfl, pages := rfl, first := fun _ _ ho => hnone ho,
             apart := fun _ _ _ _ ho => hnone ho, taken := fun _ _ ho => hnone ho,
             shows := fun _ _ ho => hnone ho }
    have hempty : ({ LoadState.start k m with vheap := 0 } : LoadState).kernel.proc.vuserPD =
        emptyTable := hk.empty
    rw [hempty]
    exact holds_emptyTable
  cases hc : checkHeader b payload headerChecks { LoadState.start k m with vheap := 0 } with
  | mk ok s =>
    rw [hc] at hkernel hm
    have hval : setupElf b payload size (.start k m) =
        if ok then loadImage b payload size (readHeader b payload s) else (.refused, s) := by
      rw [setupElf, hc]
    rw [hval] at hret ⊢
    cases ok with
    | false => exact absurd hret (by simp)
    | true => exact loadImage_image hk hwf hmem (hstart.congr hkernel hm) hret

/-! ## 6. Images that are entered -/

/-- The checks that an image passes beside being well formed. -/
structure Passes (b : Bytes32) (payload size : Nat) : Prop where
  below : payload + size < 4294967296
  /-- the section header of the string table is in it -/
  string : Inside payload size (stringHdrOffset b payload) 4
  /-- the pages of every segment are in the user half, with the one too many -/
  user : ∀ ph ∈ segments b payload, InUserHalf ph
  readable : ∀ ph ∈ segments b payload, hasFlag ph.pFlags pfR = true

/-- Where a header of the image is. -/
theorem WellFormed.phdrAddr_eq (h : WellFormed b payload size) (hbelow : payload + size < 4294967296)
    {idx : Nat} (hidx : idx < ePhnum b payload) :
    phdrAddr b payload idx = payload + ePhoff b payload + 32 * idx := by
  have htable := h.table
  exact w32_of_lt (by omega)

/-- It is in the image. -/
theorem WellFormed.inside_phdr (h : WellFormed b payload size) (hbelow : payload + size < 4294967296)
    {idx o : Nat} (hidx : idx < ePhnum b payload) (ho : o + 4 ≤ 32) :
    Inside payload size (phdrAddr b payload idx + o) 4 := by
  have htable := h.table
  rw [h.phdrAddr_eq hbelow hidx]
  intro j hj
  rw [w32_of_lt (by omega)]
  omega

/-- A well-formed segment passes the checks for segments. -/
theorem SegmentWellFormed.safe {l : List Phdr} (h : SegmentWellFormed size ph)
    (hbelow : payload + size < 4294967296) (huser : InUserHalf ph)
    (hread : hasFlag ph.pFlags pfR = true)
    (hmem : (allocatePages (pmmAfter k l) k.physStart (pgCount ph)).1 ≠ 0) :
    SegmentSafe payload size k l ph := by
  have hfile := h.file
  have hsizes := h.sizes
  have hend := h.user
  refine ⟨huser, Or.inr (Or.inr hmem), Or.inl hread, fun j hj => ?_, fun j hj => ?_⟩
  · rw [w32_of_lt (by omega)]
    omega
  · have hva : w32 (ph.pVaddr + j) = ph.pVaddr + j := w32_of_lt (by omega)
    rw [hva, inPages_of_inSegment hend ⟨by omega, by omega⟩, Bool.or_true]
    exact ⟨by omega, rfl⟩

/-- **A well-formed image is safe** if it passes these checks and there is memory for it. -/
theorem WellFormed.imageSafe (h : WellFormed b payload size) (hpass : Passes b payload size)
    (hmem : EnoughMemory k (segments b payload)) : ImageSafe b payload size k := by
  have hwhole := h.whole
  have hchecks : ∀ c ∈ headerChecks, c.1 + c.2.1 ≤ 52 := by decide
  have hphdr : ∀ {idx o : Nat}, idx < ePhnum b payload → o + 4 ≤ 32 →
      Inside payload size (phdrAddr b payload idx + o) 4 :=
    fun hidx ho => h.inside_phdr hpass.below hidx ho
  have hfields : (∀ o ∈ loadFields, o + 4 ≤ 32) ∧ ∀ o ∈ tlsFields, o + 4 ≤ 32 := by decide
  refine ⟨fun c hc => ?_, fun _ => hwhole, fun _ => hpass.string, fun _ idx hidx _ => ?_⟩
  · have := hchecks c (madeChecks_subset b payload _ hc)
    omega
  · refine ⟨hphdr (o := 0) hidx (by decide), fun ht => ⟨fun o ho => hphdr hidx (hfields.1 o ho), ?_⟩,
      fun _ o ho => hphdr hidx (hfields.2 o ho)⟩
    obtain ⟨l₂, hsplit⟩ := segments_split hidx ht
    have hph : readPhdr b (phdrAddr b payload idx) ∈ segments b payload := by
      rw [hsplit]
      exact List.mem_append_right _ List.mem_cons_self
    exact (h.segment _ hph).safe hpass.below (hpass.user _ hph) (hpass.readable _ hph)
      (hmem _ _ _ hsplit)

/-- The loop refuses no image whose headers are all in it. -/
theorem loadHeaders_not_refused (b : Bytes32) (payload size : Nat) :
    ∀ (left : Nat) {idx : Nat} (s : LoadState),
      (∀ i, idx ≤ i → i < idx + left → ¬ w32 (payload + size) < phdrAddr b payload i) →
      (loadHeaders b payload size left idx s).1 ≠ some .refused
  | 0, _, _, _ => by simp [loadHeaders]
  | left + 1, idx, s, h => by
    have href := h idx (le_refl idx) (by omega)
    have hrest : ∀ s, (loadHeaders b payload size left (idx + 1) s).1 ≠ some .refused :=
      fun s => loadHeaders_not_refused b payload size left s fun i h1 h2 => h i (by omega) (by omega)
    by_cases ht : (readPhdr b (phdrAddr b payload idx)).pType = ptLoad
    · rw [loadHeaders_load href ht]
      cases loadHeader b payload idx s with
      | mk ok s' =>
        cases ok with
        | true => exact hrest s'
        | false => simp
    · rw [loadHeaders_other href ht]
      exact hrest _

/-- **A well-formed image is entered** if it passes the checks and there is memory for it. -/
theorem setupElf_enters (hk : LoaderOk k) (m : Mem) (h : WellFormed b payload size)
    (hpass : Passes b payload size) (hmem : EnoughMemory k (segments b payload)) :
    (setupElf b payload size (.start k m)).1 = .entered (eEntry b payload) := by
  have hsafe := (setupElf_safe_iff b payload size k m hk h.fits).mpr (h.imageSafe hpass hmem)
  have hok := (checkHeader_spec b payload size headerChecks
    { LoadState.start k m with vheap := 0 }).1.mpr h.header
  have hfault := hsafe.1
  rw [setupElf, hok] at hfault ⊢
  simp only [if_true, loadImage] at hfault ⊢
  generalize readHeader b payload _ = s at hfault ⊢
  have hrefused : (loadHeaders b payload size (ePhnum b payload) 0 s).1 ≠ some .refused := by
    refine loadHeaders_not_refused b payload size _ s fun i _ hi => ?_
    have htable := h.table
    rw [h.phdrAddr_eq hpass.below (by omega), w32_of_lt hpass.below]
    omega
  cases hr : loadHeaders b payload size (ePhnum b payload) 0 s with
  | mk e s' =>
    rw [hr] at hfault hrefused
    cases e with
    | none => rfl
    | some e =>
      have hnot := loadHeaders_not_entered b payload size
      cases e with
      | refused => exact absurd rfl hrefused
      | fault => exact absurd rfl hfault
      | entered entry =>
        have := hnot entry (ePhnum b payload) 0 s
        rw [hr] at this
        exact absurd rfl this

/-! ## 7. What the process sees -/

/-- The words of one of two disjoint segments are not addresses of the other. -/
theorem inWords_disjoint {q : Phdr} (hq : q.pFilesz ≤ q.pMemsz)
    (hdis : ∀ va, InSegment ph va → ¬ InSegment q va) (hva : InSegment ph va) :
    inWords q va = false := by
  rw [Bool.eq_false_iff]
  intro hin
  have hrange := inWords_iff.mp hin
  exact hdis va hva ⟨hrange.1, by omega⟩

/-- What a page of an owner grants. -/
theorem asked_iff (flags : Nat) {o : Owned} (a : Nat) (hr : hasFlag o.flags pfR = true) :
    Asked flags ⟨a, segAttr o.flags⟩ ↔ hasFlag o.flags pfW = hasFlag flags pfW ∧
      hasFlag o.flags pfX = hasFlag flags pfX := by
  have hap : (segAttr o.flags).ap = segAp o.flags % 8 := rfl
  have hxn : (segAttr o.flags).xn = segExecute o.flags % 2 := rfl
  have hreads : (Leaf.mk a (segAttr o.flags)).usrReads = true := by
    rw [Leaf.usrReads, hap, segAp, hr]
    cases hasFlag o.flags pfW <;> rfl
  have hwrites : (Leaf.mk a (segAttr o.flags)).usrWrites = hasFlag o.flags pfW := by
    rw [Leaf.usrWrites, hap, segAp, hr]
    cases hasFlag o.flags pfW <;> rfl
  have hexec : (segAttr o.flags).xn = 0 ↔ hasFlag o.flags pfX = true := by
    rw [hxn, segExecute]
    cases hasFlag o.flags pfX <;> decide
  constructor
  · rintro ⟨-, hw, hx⟩
    exact ⟨hwrites.symm.trans hw, Bool.eq_iff_iff.mpr (hexec.symm.trans hx)⟩
  · rintro ⟨hw, hx⟩
    exact ⟨fun _ => hreads, hwrites.trans hw, hexec.trans (Bool.eq_iff_iff.mp hx)⟩

/-- A page of a segment has an owner. -/
theorem ImageInv.walk_segment (h : ImageInv b payload k l s u) (hph : ph ∈ l)
    (huser : ph.pVaddr + ph.pMemsz ≤ 0x80000000) (hva : InSegment ph va) :
    ∃ o : Owned, u (va / 4096) = some o ∧ walk s.kernel.proc.vuserPD va =
      some ⟨o.frame * 4096 + va % 4096, segAttr o.flags⟩ := by
  have hcov : covered l (va / 4096) = true :=
    List.any_eq_true.mpr ⟨ph, hph, inPages_of_inSegment huser hva⟩
  rw [← h.owned] at hcov
  obtain ⟨o, ho⟩ := Option.isSome_iff_exists.mp hcov
  refine ⟨o, ho, ?_⟩
  rw [h.holds.pages, ho]
  rfl

/-- The byte that the process sees at an address of a segment. -/
theorem ImageInv.sees_iff (h : ImageInv b payload k l s u) (hph : ph ∈ l)
    (huser : ph.pVaddr + ph.pMemsz ≤ 0x80000000) (hva : InSegment ph va) (x : UInt8) :
    (∃ lf, walk s.kernel.proc.vuserPD va = some lf ∧ s.mem lf.pa = x) ↔
      userByte b payload l va = x := by
  obtain ⟨o, ho, hwalk⟩ := h.walk_segment hph huser hva
  rw [hwalk, ← h.shows va o ho]
  constructor
  · rintro ⟨lf, hlf, hx⟩
    obtain rfl := Option.some.inj hlf
    exact hx
  · intro hx
    exact ⟨_, rfl, hx⟩

/-- The rights that the process has there. -/
theorem ImageInv.rights_iff (h : ImageInv b payload k l s u) (hph : ph ∈ l)
    (huser : ph.pVaddr + ph.pMemsz ≤ 0x80000000) (hva : InSegment ph va) (flags : Nat) :
    (∃ lf, walk s.kernel.proc.vuserPD va = some lf ∧ Asked flags lf) ↔
      ∀ q, firstWith l (va / 4096) = some q →
        hasFlag q.pFlags pfW = hasFlag flags pfW ∧ hasFlag q.pFlags pfX = hasFlag flags pfX := by
  obtain ⟨o, ho, hwalk⟩ := h.walk_segment hph huser hva
  obtain ⟨q, hq, hflags⟩ := h.first _ o ho
  have hask := asked_iff flags (o.frame * 4096 + va % 4096) (h.readable _ o ho)
  rw [hflags] at hask
  rw [hwalk, hq, hflags]
  constructor
  · rintro ⟨lf, hlf, hasked⟩ q' hq'
    obtain rfl := Option.some.inj hlf
    obtain rfl := Option.some.inj hq'
    exact hask.mp hasked
  · intro hall
    exact ⟨_, rfl, hask.mpr (hall q rfl)⟩

/-- What the process sees of a segment, by offsets. -/
theorem userByte_offset (b : Bytes32) (payload : Nat) (l₁ : List Phdr) {l₂ : List Phdr}
    (hwf : SegmentWellFormed size ph)
    (hlater : ∀ q ∈ l₂, q.pFilesz ≤ q.pMemsz ∧ ∀ va, InSegment ph va → ¬ InSegment q va) {o : Nat}
    (ho : o < ph.pMemsz) :
    userByte b payload (l₁ ++ ph :: l₂) (ph.pVaddr + o) =
      if ph.pFilesz / 4 * 4 ≤ o ∨ covered l₂ ((ph.pVaddr + o) / 4096) = true then 0
      else b (w32 (payload + ph.pOffset + o)) := by
  have hin : InSegment ph (ph.pVaddr + o) := ⟨by omega, by omega⟩
  have hwords : inWords ph (ph.pVaddr + o) = decide (o < ph.pFilesz / 4 * 4) := by
    rw [Bool.eq_iff_iff, inWords_iff, decide_eq_true_eq]
    omega
  rw [userByte_split b payload l₁ (inPages_of_inSegment hwf.user hin) fun q hq =>
    inWords_disjoint (hlater q hq).1 (hlater q hq).2 hin, fileByte, Nat.add_sub_cancel_left, hwords]
  cases covered l₂ ((ph.pVaddr + o) / 4096) with
  | true => simp
  | false =>
    by_cases hlt : o < ph.pFilesz / 4 * 4
    · rw [if_neg Bool.false_ne_true, if_pos (decide_eq_true hlt), if_neg (by simp; omega)]
    · rw [if_neg Bool.false_ne_true, if_neg (by simp; omega), if_pos (Or.inl (by omega))]

/-- **One segment is loaded** exactly when what it asks for stays. -/
theorem ImageInv.loaded_iff {l₁ l₂ : List Phdr} (h : ImageInv b payload k (l₁ ++ ph :: l₂) s u)
    (hwf : SegmentWellFormed size ph)
    (hlater : ∀ q ∈ l₂, q.pFilesz ≤ q.pMemsz ∧ ∀ va, InSegment ph va → ¬ InSegment q va) :
    SegmentLoaded b payload s ph ↔ SegmentKept b payload (l₁ ++ ph :: l₂) l₂ ph := by
  have huser := hwf.user
  have hsizes := hwf.sizes
  have hmem : ph ∈ l₁ ++ ph :: l₂ := List.mem_append_right _ List.mem_cons_self
  have hin : ∀ o, o < ph.pMemsz → InSegment ph (ph.pVaddr + o) :=
    fun o ho => ⟨by omega, by omega⟩
  constructor
  · intro hl
    constructor
    · intro o ho hlost
      have hsee := (h.sees_iff hmem huser (hin o (by omega)) _).mp (hl.file o ho)
      rw [userByte_offset b payload l₁ hwf hlater (by omega), if_pos hlost] at hsee
      exact hsee.symm
    · intro o ho
      exact (h.rights_iff hmem huser (hin o ho) _).mp (hl.rights o ho)
  · intro hkept
    constructor
    · intro o ho
      rw [h.sees_iff hmem huser (hin o (by omega)), userByte_offset b payload l₁ hwf hlater (by omega)]
      split
      · rename_i hlost
        exact (hkept.bytes o ho hlost).symm
      · rfl
    · intro o hfile ho
      rw [h.sees_iff hmem huser (hin o ho), userByte_offset b payload l₁ hwf hlater ho]
      exact if_pos (Or.inl (by omega))
    · intro o ho
      exact (h.rights_iff hmem huser (hin o ho) _).mpr (hkept.rights o ho)

/-- **The whole image.** -/
theorem ImageInv.image_iff (h : ImageInv b payload k (segments b payload) s u)
    (hwf : WellFormed b payload size) :
    (∀ ph ∈ segments b payload, SegmentLoaded b payload s ph) ↔ ImageKept b payload := by
  have hsplit : ∀ l₁ ph l₂, segments b payload = l₁ ++ ph :: l₂ →
      (SegmentLoaded b payload s ph ↔ SegmentKept b payload (segments b payload) l₂ ph) := by
    intro l₁ ph l₂ heq
    have hdis := hwf.disjoint
    have hseg := hwf.segment
    rw [heq] at h hdis hseg ⊢
    refine h.loaded_iff (hseg ph (List.mem_append_right _ List.mem_cons_self)) fun q hq => ?_
    have hq' : q ∈ l₁ ++ ph :: l₂ := List.mem_append_right _ (List.mem_cons_of_mem ph hq)
    exact ⟨(hseg q hq').sizes, List.rel_of_pairwise_cons (List.pairwise_append.mp hdis).2.1 hq⟩
  constructor
  · intro hall l₁ ph l₂ heq
    refine (hsplit l₁ ph l₂ heq).mp (hall ph ?_)
    rw [heq]
    exact List.mem_append_right _ List.mem_cons_self
  · intro hkept ph hph
    obtain ⟨l₁, l₂, heq⟩ := List.append_of_mem hph
    exact (hsplit l₁ ph l₂ heq).mpr (hkept l₁ ph l₂ heq)

/-- **Loading an image.**  For every well-formed image and every state with enough memory, when
`setup_elf` succeeds: the process sees every segment as the file has it exactly when nothing of
the image gets lost. -/
theorem setupElf_loads_iff (b : Bytes32) (payload size : Nat) (k : Kernel) (m : Mem) (entry : Nat)
    (hk : LoaderOk k) (hwf : WellFormed b payload size)
    (hmem : EnoughMemory k (segments b payload))
    (hret : (setupElf b payload size (.start k m)).1 = .entered entry) :
    (∀ ph ∈ segments b payload,
        SegmentLoaded b payload (setupElf b payload size (.start k m)).2 ph) ↔
      ImageKept b payload := by
  obtain ⟨u, hinv⟩ := setupElf_image hk hwf hmem hret
  exact hinv.image_iff hwf

/-- The segments of `onePage`. -/
def textSegment : Phdr := ⟨1, 116, 0x1000, 4, 4, 5⟩
def dataSegment : Phdr := ⟨1, 120, 0x1800, 6, 8, 6⟩

theorem onePage_segments : segments onePage 0xC0010000 = [textSegment, dataSegment] := by decide

theorem onePage_wellFormed : WellFormed onePage 0xC0010000 126 where
  fits := by decide
  header := by decide
  whole := by decide
  entry := by decide
  table := by decide
  segment := by
    intro ph hph
    rw [onePage_segments, List.mem_pair] at hph
    obtain rfl | rfl := hph
    · exact ⟨by decide, by decide, by decide⟩
    · exact ⟨by decide, by decide, by decide⟩
  disjoint := by
    rw [onePage_segments, List.pairwise_pair]
    rintro va ⟨hlo, hhi⟩ ⟨hlo', hhi'⟩
    simp only [textSegment, dataSegment] at hlo hhi hlo' hhi'
    omega

/-- There is a page for each of them. -/
theorem onePage_memory :
    (allocatePages (pmmAfter bootKernel []) bootKernel.physStart (pgCount textSegment)).1 ≠ 0 ∧
      (allocatePages (pmmAfter bootKernel [textSegment]) bootKernel.physStart
        (pgCount dataSegment)).1 ≠ 0 := by
  decide +kernel

theorem onePage_enoughMemory : EnoughMemory bootKernel (segments onePage 0xC0010000) := by
  rw [onePage_segments]
  intro l₁ ph l₂ heq
  obtain ⟨rfl, rfl, -⟩ | ⟨rfl, rfl, -⟩ : (l₁ = [] ∧ ph = textSegment ∧ l₂ = [dataSegment]) ∨
      (l₁ = [textSegment] ∧ ph = dataSegment ∧ l₂ = []) := by
    cases l₁ with
    | nil => simpa [eq_comm] using heq
    | cons q l₁ =>
      cases l₁ with
      | nil => simpa [eq_comm] using heq
      | cons q' l₁ => simp at heq
  · exact onePage_memory.1
  · exact onePage_memory.2

theorem onePage_passes : Passes onePage 0xC0010000 126 where
  below := by decide
  string := by
    have hstring : stringHdrOffset onePage 0xC0010000 = 0xC0010010 := by decide
    rw [hstring]
    intro j hj
    rw [w32_of_lt (by omega)]
    omega
  user := by
    rw [onePage_segments]
    simp [InUserHalf, textSegment, dataSegment, pgCount, startPage, w32, sub32]
  readable := by
    rw [onePage_segments]
    decide

theorem onePage_entered :
    (setupElf onePage 0xC0010000 126 (.start bootKernel fun _ => 0)).1 = .entered 0x1000 :=
  setupElf_enters bootKernel_loaderOk _ onePage_wellFormed onePage_passes onePage_enoughMemory

/-- The theorem on the image of two segments on one page. -/
theorem setupElf_loads_iff_onePage :
    (∀ ph ∈ segments onePage 0xC0010000, SegmentLoaded onePage 0xC0010000
        (setupElf onePage 0xC0010000 126 (.start bootKernel fun _ => 0)).2 ph) ↔
      ImageKept onePage 0xC0010000 :=
  setupElf_loads_iff onePage 0xC0010000 126 bootKernel (fun _ => 0) 0x1000 bootKernel_loaderOk
    onePage_wellFormed onePage_enoughMemory onePage_entered

/-- An image of one segment: one byte, `0xAA`, at `0x1000`. -/
def oneByte : Bytes32 := fun a =>
  [0x7F, 0x45, 0x4C, 0x46, 1, 1, 1, 0, 0, 0, 0, 0, 0, 0, 0, 0,
    2, 0, 40, 0, 1, 0, 0, 0, 0, 0x10, 0, 0, 52, 0, 0, 0, 0, 0, 0, 0,
    0, 0, 0, 0, 52, 0, 32, 0, 1, 0, 40, 0, 0, 0, 0, 0,
    1, 0, 0, 0, 84, 0, 0, 0, 0, 0x10, 0, 0, 0, 0x10, 0, 0, 1, 0, 0, 0, 1, 0, 0, 0, 7, 0, 0, 0,
    0, 0x10, 0, 0, 0xAA].getD (a - 0xC0010000) 0

def oneByteSegment : Phdr := ⟨1, 84, 0x1000, 1, 1, 7⟩

theorem oneByte_segments : segments oneByte 0xC0010000 = [oneByteSegment] := by decide

theorem oneByte_wellFormed : WellFormed oneByte 0xC0010000 85 where
  fits := by decide
  header := by decide
  whole := by decide
  entry := by decide
  table := by decide
  segment := by
    intro ph hph
    rw [oneByte_segments, List.mem_singleton] at hph
    subst hph
    exact ⟨by decide, by decide, by decide⟩
  disjoint := by
    rw [oneByte_segments]
    exact List.pairwise_singleton _ _

theorem oneByte_memory : EnoughMemory bootKernel (segments oneByte 0xC0010000) := by
  rw [oneByte_segments]
  intro l₁ ph l₂ heq
  obtain ⟨rfl, rfl, -⟩ : l₁ = [] ∧ ph = oneByteSegment ∧ l₂ = [] := by
    cases l₁ with
    | nil => simpa [eq_comm] using heq
    | cons q l₁ => simp at heq
  decide +kernel

theorem oneByte_passes : Passes oneByte 0xC0010000 85 where
  below := by decide
  string := by
    have hstring : stringHdrOffset oneByte 0xC0010000 = 0xC0010010 := by decide
    rw [hstring]
    intro j hj
    rw [w32_of_lt (by omega)]
    omega
  user := by
    rw [oneByte_segments]
    simp [InUserHalf, oneByteSegment, pgCount, startPage, w32, sub32]
  readable := by
    rw [oneByte_segments]
    decide

theorem oneByte_entered :
    (setupElf oneByte 0xC0010000 85 (.start bootKernel fun _ => 0)).1 = .entered 0x1000 :=
  setupElf_enters bootKernel_loaderOk _ oneByte_wellFormed oneByte_passes oneByte_memory

/-- **A byte gets lost**: no word of the segment is whole, so nothing is copied. -/
theorem setupElf_loses_byte :
    WellFormed oneByte 0xC0010000 85 ∧ EnoughMemory bootKernel (segments oneByte 0xC0010000) ∧
      (setupElf oneByte 0xC0010000 85 (.start bootKernel fun _ => 0)).1 = .entered 0x1000 ∧
      ¬ ∀ ph ∈ segments oneByte 0xC0010000, SegmentLoaded oneByte 0xC0010000
        (setupElf oneByte 0xC0010000 85 (.start bootKernel fun _ => 0)).2 ph := by
  refine ⟨oneByte_wellFormed, oneByte_memory, oneByte_entered, ?_⟩
  obtain ⟨u, hinv⟩ := setupElf_image bootKernel_loaderOk oneByte_wellFormed oneByte_memory
    oneByte_entered
  rw [hinv.image_iff oneByte_wellFormed]
  intro hkept
  have hzero := (hkept [] oneByteSegment [] oneByte_segments).bytes 0 (by decide)
    (Or.inl (by decide))
  exact absurd hzero (by decide)

end AndixOs.Loader
