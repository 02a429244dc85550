/-
# What `setup_elf` touches

The loader should read only bytes of the image, and map and store only in the user half
(`LoadEvent.Ok`), whatever the bytes are.  Of the checks this needs, the code makes one: a program
header must not start behind the image.

`ImageSafe` lists the checks that are missing, on the fields of the image.  On exactly the images
that would pass them the loader is safe (`setupElf_safe_iff`).
-/
import AndixOs.Loader.Segment

namespace AndixOs.Loader

open AndixOs AndixOs.Mm

/-! ## 1. What the loader may do -/

/-- The bytes of a range lie in the image. -/
def Inside (payload size a count : Nat) : Prop :=
  ∀ j, j < count → payload ≤ w32 (a + j) ∧ w32 (a + j) < payload + size

/-- Reads stay in the image, the loop over the pages of a segment is bounded by its size, pages are
mapped in the user half and not to address 0, and stores go to the user half. -/
def LoadEvent.Ok (payload size : Nat) : LoadEvent → Prop
  | .read a count => Inside payload size a count
  | .pages count memsz => count ≤ memsz / 4096 + 3
  | .map vaddr paddr => vaddr < 0x80000000 ∧ paddr / 4096 ≠ 0
  | .store a count => ∀ j, j < count → w32 (a + j) < 0x80000000

/-- Everything on record is allowed. -/
def LogOk (payload size : Nat) (s : LoadState) : Prop := ∀ e ∈ s.log, e.Ok payload size

/-- The call comes to its end, and everything it did is allowed. -/
def Safe (payload size : Nat) (r : LoadEnd × LoadState) : Prop :=
  r.1 ≠ .fault ∧ LogOk payload size r.2

/-- The state before the call. -/
def LoadState.start (k : Kernel) (m : Mem) : LoadState := ⟨k, m, 0, 0, 0, []⟩

/-- The process is new, and physical memory is managed from some address on. -/
structure LoaderOk (k : Kernel) : Prop where
  empty : k.proc.vuserPD = emptyTable
  low : 4096 ≤ k.physStart
  high : k.physStart + 4096 * k.pmm.pages ≤ 4294967296

theorem bootKernel_loaderOk : LoaderOk bootKernel := ⟨rfl, by decide, by decide⟩

/-! ## 2. The checks that are missing -/

/-- The `PT_LOAD` headers before header `idx`. -/
def loadsBefore (b : Bytes32) (payload idx : Nat) : List Phdr :=
  ((List.range idx).map fun i => readPhdr b (phdrAddr b payload i)).filter
    fun ph => ph.pType = ptLoad

/-- The page is one of these segments'. -/
def covered (l : List Phdr) (p : Nat) : Bool := l.any fun ph => inPages ph p

/-- The free frames after these segments were allocated. -/
def pmmAfter (k : Kernel) (l : List Phdr) : Bitmap :=
  l.foldl (fun bm ph => (allocatePages bm k.physStart (pgCount ph)).2) k.pmm

/-- The checks for a segment that comes after the segments `l`. -/
structure SegmentSafe (payload size : Nat) (k : Kernel) (l : List Phdr) (ph : Phdr) : Prop where
  /-- its pages, with the one too many, are in the user half -/
  user : InUserHalf ph
  /-- there is memory for it, or its first page is mapped already -/
  memory : pgCount ph = 0 ∨ covered l (startPage ph) = true ∨
    (allocatePages (pmmAfter k l) k.physStart (pgCount ph)).1 ≠ 0
  /-- the kernel may write to its pages: it asks to be readable, or brings no page of its own -/
  readable : hasFlag ph.pFlags pfR = true ∨ ∀ p, inPages ph p = true → covered l p = true
  /-- the words of its file part are in the image -/
  source : Inside payload size (payload + ph.pOffset) (ph.pFilesz / 4 * 4)
  /-- and go to pages that are mapped -/
  target : ∀ j, j < ph.pFilesz / 4 * 4 → w32 (ph.pVaddr + j) < 0x80000000 ∧
    (covered l (w32 (ph.pVaddr + j) / 4096) || inPages ph (w32 (ph.pVaddr + j) / 4096)) = true

/-- The checks for program header `idx`. -/
structure HeaderSafe (b : Bytes32) (payload size : Nat) (k : Kernel) (idx : Nat) : Prop where
  type : Inside payload size (phdrAddr b payload idx) 4
  load : (readPhdr b (phdrAddr b payload idx)).pType = ptLoad →
    (∀ o ∈ loadFields, Inside payload size (phdrAddr b payload idx + o) 4) ∧
      SegmentSafe payload size k (loadsBefore b payload idx) (readPhdr b (phdrAddr b payload idx))
  tls : (readPhdr b (phdrAddr b payload idx)).pType = ptTls →
    ∀ o ∈ tlsFields, Inside payload size (phdrAddr b payload idx + o) 4

/-- The loop comes to header `idx`, and the one check there is lets it pass. -/
def Reached (b : Bytes32) (payload size idx : Nat) : Prop :=
  ∀ i, i ≤ idx → ¬ w32 (payload + size) < phdrAddr b payload i

/-- The header tests that are made: up to the first that fails. -/
def madeChecks (b : Bytes32) (payload : Nat) : List (Nat × Nat × Nat) → List (Nat × Nat × Nat)
  | [] => []
  | c :: cs =>
    if field b (payload + c.1) c.2.1 ≠ c.2.2 then [c] else c :: madeChecks b payload cs

/-- All header tests pass. -/
def headerOk (b : Bytes32) (payload : Nat) : Bool :=
  headerChecks.all fun c => field b (payload + c.1) c.2.1 == c.2.2

/-- **The checks for an image.** -/
structure ImageSafe (b : Bytes32) (payload size : Nat) (k : Kernel) : Prop where
  /-- it is as long as the tests need it -/
  checks : ∀ c ∈ madeChecks b payload headerChecks, c.1 + c.2.1 ≤ size
  /-- it has a whole header -/
  header : headerOk b payload = true → 52 ≤ size
  /-- the section header of the string table is in it -/
  string : headerOk b payload = true → Inside payload size (stringHdrOffset b payload) 4
  /-- and every program header is in order -/
  headers : headerOk b payload = true → ∀ idx, idx < ePhnum b payload →
    Reached b payload size idx → HeaderSafe b payload size k idx

/-! ## 3. Arithmetic of ranges -/

variable {b : Bytes32} {payload size : Nat} {k : Kernel} {s : LoadState} {l : List Phdr} {ph : Phdr}
  {u : Owners}

/-- A range that starts at an address as the code computes it. -/
theorem inside_w32 (a count : Nat) :
    Inside payload size (w32 a) count ↔ Inside payload size a count := by
  simp only [Inside, w32_w32_add]

/-- A field of the image's header is in the image if the image is long enough. -/
theorem inside_field (hsize : payload + size ≤ 4294967296) {off w : Nat} (hw : 0 < w)
    (hoff : off + w ≤ 4294967296) : Inside payload size (payload + off) w ↔ off + w ≤ size := by
  unfold Inside w32
  constructor
  · intro h
    have hlast := h (w - 1) (by omega)
    omega
  · intro h j hj
    omega

theorem field_lt (b : Bytes32) (a : Nat) : field b a 4 < 4294967296 := by
  have h0 := (b (w32 a)).toNat_lt
  have h1 := (b (w32 (a + 1))).toNat_lt
  have h2 := (b (w32 (a + 1 + 1))).toNat_lt
  have h3 := (b (w32 (a + 1 + 1 + 1))).toNat_lt
  simp only [field]
  omega

/-- The number of pages, with the two cases of the page boundary in one. -/
theorem pgCount_eq (hv : ph.pVaddr < 4294967296) :
    pgCount ph = w32 ((w32 (ph.pVaddr + ph.pMemsz) + 4095) / 4096 + 4294967297 -
      ph.pVaddr / 4096) := by
  have hend : (if w32 (ph.pVaddr + ph.pMemsz) % 4096 = 0 then w32 (ph.pVaddr + ph.pMemsz) / 4096
      else w32 (ph.pVaddr + ph.pMemsz) / 4096 + 1) =
        (w32 (ph.pVaddr + ph.pMemsz) + 4095) / 4096 := by
    split <;> omega
  have hlt := w32_lt (ph.pVaddr + ph.pMemsz)
  unfold pgCount
  simp only [hend]
  unfold sub32 startPage w32 at *
  omega

/-- The loop over the pages is bounded by the size when it stays in the user half. -/
theorem pgCount_le (hv : ph.pVaddr < 4294967296) (hm : ph.pMemsz < 4294967296)
    (hfit : InUserHalf ph) : pgCount ph ≤ ph.pMemsz / 4096 + 3 := by
  unfold InUserHalf at hfit
  rw [pgCount_eq hv] at hfit ⊢
  unfold startPage w32 at *
  omega

/-! ## 4. One segment -/

@[simp] theorem logOk_record (e : LoadEvent) :
    LogOk payload size (s.record e) ↔ e.Ok payload size ∧ LogOk payload size s :=
  List.forall_mem_cons

theorem covered_append (l : List Phdr) (ph : Phdr) (p : Nat) :
    covered (l ++ [ph]) p = (covered l p || inPages ph p) := by
  simp [covered]

theorem pmmAfter_append (k : Kernel) (l : List Phdr) (ph : Phdr) :
    pmmAfter k (l ++ [ph]) = (allocatePages (pmmAfter k l) k.physStart (pgCount ph)).2 := by
  simp [pmmAfter]

/-- The state between two segments: the pages of the segments so far are mapped, and the kernel may
write them. -/
structure LoadInv (k : Kernel) (l : List Phdr) (s : LoadState) (u : Owners) : Prop where
  holds : Holds s.kernel.proc.vuserPD u
  owned : ∀ p, (u p).isSome = covered l p
  readable : ∀ p o, u p = some o → hasFlag o.flags pfR = true
  pmm : s.kernel.pmm = pmmAfter k l
  physStart : s.kernel.physStart = k.physStart
  pages : s.kernel.pmm.pages = k.pmm.pages

theorem LoadInv.writable (h : LoadInv k l s u) (p : Nat) : Writable u p ↔ covered l p = true := by
  rw [← h.owned]
  constructor
  · rintro ⟨o, ho, -⟩
    rw [ho]
    rfl
  · intro hp
    obtain ⟨o, ho⟩ := Option.isSome_iff_exists.mp hp
    exact ⟨o, ho, h.readable p o ho⟩

/-- A frame that was allocated is not frame 0. -/
theorem allocated_frame (hk : LoaderOk k) (h : LoadInv k l s u) (hne : allocated s ph ≠ 0)
    {j : Nat} (hj : j < pgCount ph) : w32 (allocated s ph + 4096 * j) / 4096 ≠ 0 := by
  have hlow := hk.low
  have hhigh := hk.high
  rw [← h.physStart, ← h.pages] at hhigh
  rw [← h.physStart] at hlow
  unfold allocated at *
  rcases allocatePages_spec s.kernel.pmm s.kernel.physStart (show 0 < pgCount ph by omega)
      (pgCount_lt ph) with ⟨hnull, -⟩ | ⟨q, b', hsome, hrun, -⟩
  · rw [hnull] at hne
    exact absurd rfl hne
  · have hin := hrun.inside
    rw [hsome, w32_w32_add]
    unfold w32
    omega

/-- What is on record after placing a segment. -/
theorem placeSegment_logOk (hk : LoaderOk k) (h : LoadInv k l s u) (hfit : InUserHalf ph)
    (hv : ph.pVaddr < 4294967296) (hm : ph.pMemsz < 4294967296) {s' : LoadState}
    (hlog : ∀ e, e ∈ s'.log ↔ (e = .pages (pgCount ph) ph.pMemsz ∨ e ∈ s.log) ∨
      ∃ j, j < pgCount ph ∧ u (startPage ph + j) = none ∧
        e = .map (ph.pVaddr + 4096 * j) (w32 (allocated s ph + 4096 * j))) :
    LogOk payload size s' ↔ LogOk payload size s ∧
      (pgCount ph = 0 ∨ covered l (startPage ph) = true ∨ allocated s ph ≠ 0) := by
  have hnone : ∀ p, u p = none ↔ ¬ covered l p = true := by
    intro p
    rw [← h.owned]
    cases u p <;> simp
  have hpage : startPage ph = ph.pVaddr / 4096 := rfl
  constructor
  · intro hok
    refine ⟨fun e he => hok e ((hlog e).mpr (Or.inl (Or.inr he))), ?_⟩
    by_contra hno
    rw [not_or, not_or, not_not] at hno
    obtain ⟨hn, hc, hz⟩ := hno
    have hmap := hok _ ((hlog _).mpr (Or.inr ⟨0, by omega, (hnone _).mpr hc, rfl⟩))
    rw [hz] at hmap
    exact hmap.2 rfl
  · rintro ⟨hok, hmem⟩ e he
    rcases (hlog e).mp he with (rfl | he) | ⟨j, hj, hu, rfl⟩
    · exact pgCount_le hv hm hfit
    · exact hok e he
    · unfold InUserHalf at hfit
      refine ⟨by omega, ?_⟩
      by_cases hz : allocated s ph = 0
      · -- page 0 of the segment is mapped already, so this is a later one
        have hj0 : j ≠ 0 := by
          rintro rfl
          rcases hmem with hn | hc | hne
          · omega
          · exact (hnone _).mp hu hc
          · exact hne hz
        rw [hz]
        unfold w32
        omega
      · exact allocated_frame hk h hz hj

/-- The pages that the kernel may write after a segment is placed. -/
theorem LoadInv.writable_placed (h : LoadInv k l s u) (ppage p : Nat) :
    Writable (placed u ph ppage) p ↔
      covered l p = true ∨ (inPages ph p = true ∧ hasFlag ph.pFlags pfR = true) := by
  rw [← h.writable]
  unfold Writable
  cases hu : u p with
  | some o =>
    have hr := h.readable p o hu
    rw [placed_some hu]
    exact iff_of_true ⟨o, rfl, hr⟩ (Or.inl ⟨o, rfl, hr⟩)
  | none =>
    rw [placed_none hu]
    cases inPages ph p <;> simp [pageOwned]

/-- The zeros of a segment can be stored exactly when its pages are the kernel's to write. -/
theorem LoadInv.zeroSegment_done (h : LoadInv k l s u) (hfit : InUserHalf ph) {s' : LoadState}
    {ppage : Nat} (hholds : Holds s'.kernel.proc.vuserPD (placed u ph ppage)) :
    (zeroSegment s' ph).1 = true ↔
      hasFlag ph.pFlags pfR = true ∨ ∀ p, inPages ph p = true → covered l p = true := by
  rw [Loader.zeroSegment_done hholds hfit]
  constructor
  · intro hall
    by_cases hr : hasFlag ph.pFlags pfR = true
    · exact Or.inl hr
    · refine Or.inr fun p hp => ?_
      rcases (h.writable_placed ppage p).mp (hall p hp) with hc | ⟨-, hr'⟩
      · exact hc
      · exact absurd hr' hr
  · rintro (hr | hc) p hp
    · exact (h.writable_placed ppage p).mpr (Or.inr ⟨hp, hr⟩)
    · exact (h.writable_placed ppage p).mpr (Or.inl (hc p hp))

theorem logOk_storeRun {addr count : Nat} {src : Nat → UInt8} :
    LogOk payload size (storeRun s addr count src).2 ↔
      (∀ j, j < count → w32 (addr + j) < 0x80000000) ∧ LogOk payload size s :=
  List.forall_mem_cons

/-- The zeros of a segment go to the user half. -/
theorem logOk_zeroSegment (hfit : InUserHalf ph) :
    LogOk payload size (zeroSegment s ph).2 ↔ LogOk payload size s := by
  unfold zeroSegment
  rw [logOk_storeRun, zeroCount hfit]
  refine and_iff_right fun j hj => ?_
  unfold InUserHalf at hfit
  unfold w32
  omega

theorem logOk_copySegment :
    LogOk payload size (copySegment b payload s ph).2 ↔
      (∀ j, j < ph.pFilesz / 4 * 4 → w32 (ph.pVaddr + j) < 0x80000000) ∧
        Inside payload size (payload + ph.pOffset) (ph.pFilesz / 4 * 4) ∧
        LogOk payload size s := by
  unfold copySegment
  rw [logOk_storeRun, logOk_record]
  refine and_congr_right fun _ => and_congr_left fun _ => ?_
  exact inside_w32 _ _

/-- Filling a segment that was placed. -/
theorem fillSegment_safe (h : LoadInv k l s u) (hfit : InUserHalf ph) {s' : LoadState}
    {ppage : Nat} (hholds : Holds s'.kernel.proc.vuserPD (placed u ph ppage)) :
    (fillSegment b payload s' ph).1 = true ∧ LogOk payload size (fillSegment b payload s' ph).2 ↔
      LogOk payload size s' ∧
        (hasFlag ph.pFlags pfR = true ∨ ∀ p, inPages ph p = true → covered l p = true) ∧
        Inside payload size (payload + ph.pOffset) (ph.pFilesz / 4 * 4) ∧
        ∀ j, j < ph.pFilesz / 4 * 4 → w32 (ph.pVaddr + j) < 0x80000000 ∧
          (covered l (w32 (ph.pVaddr + j) / 4096) ||
            inPages ph (w32 (ph.pVaddr + j) / 4096)) = true := by
  have hzero := h.zeroSegment_done hfit hholds
  by_cases hz : (zeroSegment s' ph).1 = true
  · have hread := hzero.mp hz
    have hholds' : Holds (zeroSegment s' ph).2.kernel.proc.vuserPD (placed u ph ppage) := by
      rw [zeroSegment_kernel]
      exact hholds
    -- every page of the segment is writable now
    have hpage : ∀ p, Writable (placed u ph ppage) p ↔ (covered l p || inPages ph p) = true := by
      intro p
      rw [h.writable_placed, Bool.or_eq_true]
      constructor
      · rintro (hc | ⟨hp, -⟩)
        · exact Or.inl hc
        · exact Or.inr hp
      · rintro (hc | hp)
        · exact Or.inl hc
        · rcases hread with hr | hc
          · exact Or.inr ⟨hp, hr⟩
          · exact Or.inl (hc p hp)
    rw [fillSegment_zeroed b payload hz, logOk_copySegment, logOk_zeroSegment hfit]
    constructor
    · rintro ⟨hdone, huser, hsrc, hok⟩
      rw [copySegment_done b payload hholds' huser] at hdone
      exact ⟨hok, hread, hsrc, fun j hj => ⟨huser j hj, (hpage _).mp (hdone j hj)⟩⟩
    · rintro ⟨hok, -, hsrc, htarget⟩
      have huser : ∀ j, j < ph.pFilesz / 4 * 4 → w32 (ph.pVaddr + j) < 0x80000000 :=
        fun j hj => (htarget j hj).1
      refine ⟨?_, huser, hsrc, hok⟩
      rw [copySegment_done b payload hholds' huser]
      exact fun j hj => (hpage _).mpr (htarget j hj).2
  · rw [fillSegment_fault b payload hz]
    exact iff_of_false (fun hd => hz hd.1) fun hd => hz (hzero.mpr hd.2.1)

/-- **One segment.**  It is loaded without a fault and with nothing on record that is not allowed
exactly when it passes the checks. -/
theorem loadSegment_safe (hk : LoaderOk k) (h : LoadInv k l s u) (hv : ph.pVaddr < 4294967296)
    (hm : ph.pMemsz < 4294967296) :
    (loadSegment b payload s ph).1 = true ∧ LogOk payload size (loadSegment b payload s ph).2 ↔
      LogOk payload size s ∧ SegmentSafe payload size k l ph := by
  by_cases hfit : InUserHalf ph
  · obtain ⟨s', hplace, hholds, -, -, -, hlog⟩ := placeSegment_spec hfit h.holds
    have hmem : allocated s ph = (allocatePages (pmmAfter k l) k.physStart (pgCount ph)).1 := by
      unfold allocated
      rw [h.pmm, h.physStart]
    rw [loadSegment_placed b payload hplace, fillSegment_safe h hfit hholds,
      placeSegment_logOk hk h hfit hv hm hlog, hmem]
    constructor
    · rintro ⟨⟨hok, hmemory⟩, hread, hsrc, htarget⟩
      exact ⟨hok, hfit, hmemory, hread, hsrc, htarget⟩
    · rintro ⟨hok, -, hmemory, hread, hsrc, htarget⟩
      exact ⟨⟨hok, hmemory⟩, hread, hsrc, htarget⟩
  · have hfault := placeSegment_fault (s := s) hv hfit
    rw [loadSegment_unplaced b payload hfault, hfault]
    exact iff_of_false (fun hd => Bool.false_ne_true hd.1) fun hd => hfit hd.2.user

theorem allocatePages_pages (bm : Bitmap) (base n : Nat) :
    (allocatePages bm base n).2.pages = bm.pages := by
  unfold allocatePages
  split <;> rfl

/-- The state after a segment that was loaded. -/
theorem loadSegment_inv (h : LoadInv k l s u) (hv : ph.pVaddr < 4294967296)
    (hdone : (loadSegment b payload s ph).1 = true) :
    LoadInv k (l ++ [ph]) (loadSegment b payload s ph).2 (placed u ph (allocated s ph)) := by
  by_cases hfit : InUserHalf ph
  · obtain ⟨s', hplace, hholds, hpmm, hstart, -, -⟩ := placeSegment_spec hfit h.holds
    rw [loadSegment_placed b payload hplace] at hdone ⊢
    have hz : (zeroSegment s' ph).1 = true := by
      by_contra hz
      rw [fillSegment_fault b payload hz] at hdone
      exact hz hdone
    have hread := (h.zeroSegment_done hfit hholds).mp hz
    constructor
    · rw [fillSegment_kernel]
      exact hholds
    · intro p
      rw [isSome_placed, h.owned, covered_append]
    · intro p o ho
      cases hu : u p with
      | some o' =>
        rw [placed_some hu] at ho
        obtain rfl := Option.some.inj ho
        exact h.readable p _ hu
      | none =>
        rw [placed_none hu] at ho
        split at ho
        · rename_i hp
          obtain rfl := Option.some.inj ho
          refine hread.resolve_right fun hc => ?_
          have hcov := hc p hp
          rw [← h.owned, hu] at hcov
          exact Bool.false_ne_true hcov
        · exact absurd ho (by simp)
    · rw [fillSegment_kernel, hpmm, pmmAfter_append, h.pmm, h.physStart]
    · rw [fillSegment_kernel, hstart, h.physStart]
    · rw [fillSegment_kernel, hpmm, allocatePages_pages, h.pages]
  · have hfault := placeSegment_fault (s := s) hv hfit
    rw [loadSegment_unplaced b payload hfault, hfault] at hdone
    exact absurd hdone Bool.false_ne_true

theorem log_record (s : LoadState) (e : LoadEvent) : s.log ⊆ (s.record e).log :=
  List.subset_cons_self _ _

theorem mapUserPage_log (s : LoadState) (info : KernelMemInfo) :
    s.log ⊆ (mapUserPage s info).log := by
  unfold mapUserPage
  simp only
  split
  · exact List.subset_cons_self _ _
  · exact List.Subset.refl _

theorem mapRound_log (ph : Phdr) (ppage i : Nat) (s : LoadState) :
    s.log ⊆ (mapRound ph ppage i s).log := by
  unfold mapRound
  dsimp only
  exact mapUserPage_log s _

theorem mapSegment_log (ph : Phdr) (ppage : Nat) :
    ∀ (left i : Nat) (s : LoadState), s.log ⊆ (mapSegment ph ppage left i s).2.log
  | 0, _, _ => List.Subset.refl _
  | left + 1, i, s => by
    rw [mapSegment]
    split
    · exact log_record s _
    · exact List.Subset.trans (mapRound_log ph ppage i s) (mapSegment_log ph ppage left (i + 1) _)

theorem storeRun_subset (s : LoadState) (addr count : Nat) (src : Nat → UInt8) :
    s.log ⊆ (storeRun s addr count src).2.log := by
  rw [storeRun_log]
  exact List.subset_cons_self _ _

theorem fillSegment_log (s : LoadState) : s.log ⊆ (fillSegment b payload s ph).2.log := by
  have hzero : s.log ⊆ (zeroSegment s ph).2.log := by
    unfold zeroSegment
    exact storeRun_subset s _ _ _
  have hcopy : ∀ s : LoadState, s.log ⊆ (copySegment b payload s ph).2.log := by
    intro s
    unfold copySegment
    exact List.Subset.trans (log_record s _) (storeRun_subset _ _ _ _)
  by_cases hz : (zeroSegment s ph).1 = true
  · rw [fillSegment_zeroed b payload hz]
    exact List.Subset.trans hzero (hcopy _)
  · rw [fillSegment_fault b payload hz]
    exact hzero

theorem placeSegment_log (s : LoadState) : s.log ⊆ (placeSegment s ph).2.log := by
  have halloc : s.log ⊆ (allocSegment s ph).2.log := by
    rw [allocSegment]
    exact log_record _ _
  rw [placeSegment]
  exact List.Subset.trans halloc (mapSegment_log ph _ _ _ _)

theorem loadSegment_log (s : LoadState) : s.log ⊆ (loadSegment b payload s ph).2.log := by
  rw [loadSegment_eq]
  split
  · exact List.Subset.trans (placeSegment_log s) (fillSegment_log _)
  · exact placeSegment_log s

theorem readFields_log (idx : Nat) : ∀ (offs : List Nat) (s : LoadState),
    s.log ⊆ (readFields b payload idx s offs).log
  | [], _ => List.Subset.refl _
  | _ :: offs, s => List.Subset.trans (log_record s _) (readFields_log idx offs _)

theorem LogOk.of_subset {s' : LoadState} (h : LogOk payload size s') (hsub : s.log ⊆ s'.log) :
    LogOk payload size s := fun e he => h e (hsub he)

/-! ## 5. Every header -/

theorem loadHeader_log (b : Bytes32) (payload idx : Nat) (s : LoadState) :
    s.log ⊆ (loadHeader b payload idx s).2.log := by
  rw [loadHeader]
  refine List.Subset.trans ?_ (loadSegment_log _)
  exact List.Subset.trans (log_record s _) (readFields_log idx loadFields _)

theorem otherHeader_log (b : Bytes32) (payload idx : Nat) (s : LoadState) :
    s.log ⊆ (otherHeader b payload idx s).log := by
  unfold otherHeader readType
  dsimp only
  split
  · exact List.Subset.trans (log_record s _) (readFields_log idx tlsFields _)
  · exact log_record s _

/-- The loop at a header that starts behind the image. -/
theorem loadHeaders_refused {left idx : Nat}
    (hr : w32 (payload + size) < phdrAddr b payload idx) :
    loadHeaders b payload size (left + 1) idx s = (some .refused, s) := by
  rw [loadHeaders, if_pos hr]

/-- At a `PT_LOAD` header. -/
theorem loadHeaders_load {left idx : Nat}
    (hr : ¬ w32 (payload + size) < phdrAddr b payload idx)
    (ht : (readPhdr b (phdrAddr b payload idx)).pType = ptLoad) :
    loadHeaders b payload size (left + 1) idx s =
      if (loadHeader b payload idx s).1 then
        loadHeaders b payload size left (idx + 1) (loadHeader b payload idx s).2
      else (some .fault, (loadHeader b payload idx s).2) := by
  rw [loadHeaders, if_neg hr, if_pos ht]

/-- At any other header. -/
theorem loadHeaders_other {left idx : Nat}
    (hr : ¬ w32 (payload + size) < phdrAddr b payload idx)
    (ht : (readPhdr b (phdrAddr b payload idx)).pType ≠ ptLoad) :
    loadHeaders b payload size (left + 1) idx s =
      loadHeaders b payload size left (idx + 1) (otherHeader b payload idx s) := by
  rw [loadHeaders, if_neg hr, if_neg ht]

/-- What is on record stays there. -/
theorem loadHeaders_log (b : Bytes32) (payload size : Nat) : ∀ (left idx : Nat) (s : LoadState),
    s.log ⊆ (loadHeaders b payload size left idx s).2.log
  | 0, _, _ => List.Subset.refl _
  | left + 1, idx, s => by
    have hrest := loadHeaders_log b payload size left (idx + 1)
    by_cases hr : w32 (payload + size) < phdrAddr b payload idx
    · rw [loadHeaders_refused hr]
      exact List.Subset.refl _
    · by_cases ht : (readPhdr b (phdrAddr b payload idx)).pType = ptLoad
      · have hlog := loadHeader_log b payload idx s
        rw [loadHeaders_load hr ht]
        cases hl : loadHeader b payload idx s with
        | mk ok s' =>
          rw [hl] at hlog
          cases ok with
          | true => exact List.Subset.trans hlog (hrest s')
          | false => exact hlog
      · rw [loadHeaders_other hr ht]
        exact List.Subset.trans (otherHeader_log b payload idx s) (hrest _)

theorem LoadInv.congr {s' : LoadState} (h : LoadInv k l s u) (hk : s'.kernel = s.kernel) :
    LoadInv k l s' u := by
  constructor
  · rw [hk]
    exact h.holds
  · exact h.owned
  · exact h.readable
  · rw [hk, h.pmm]
  · rw [hk, h.physStart]
  · rw [hk, h.pages]

theorem loadsBefore_succ (b : Bytes32) (payload idx : Nat) :
    loadsBefore b payload (idx + 1) =
      if (readPhdr b (phdrAddr b payload idx)).pType = ptLoad then
        loadsBefore b payload idx ++ [readPhdr b (phdrAddr b payload idx)]
      else loadsBefore b payload idx := by
  unfold loadsBefore
  rw [List.range_succ, List.map_append, List.filter_append]
  split
  · rename_i h
    simp [h]
  · rename_i h
    simp [h]

theorem logOk_readFields (idx : Nat) : ∀ (offs : List Nat) (s : LoadState),
    LogOk payload size (readFields b payload idx s offs) ↔
      (∀ o ∈ offs, Inside payload size (phdrAddr b payload idx + o) 4) ∧ LogOk payload size s
  | [], s => by simp [readFields]
  | o :: offs, s => by
    have hstep : LogOk payload size (s.record (.read (w32 (phdrAddr b payload idx + o)) 4)) ↔
        Inside payload size (phdrAddr b payload idx + o) 4 ∧ LogOk payload size s := by
      rw [logOk_record]
      exact and_congr_left fun _ => inside_w32 _ _
    rw [List.forall_mem_cons, and_comm (a := Inside _ _ _ _), and_assoc, ← hstep]
    exact logOk_readFields idx offs _

theorem readFields_kernel (b : Bytes32) (payload idx : Nat) : ∀ (offs : List Nat) (s : LoadState),
    (readFields b payload idx s offs).kernel = s.kernel
  | [], _ => rfl
  | _ :: offs, s => readFields_kernel b payload idx offs (s.record _)

/-- The checks for the headers from a reached one on. -/
theorem headers_cons {idx left : Nat} {P : Nat → Prop} (hr : Reached b payload size idx) :
    (∀ i, idx ≤ i → i < idx + (left + 1) → Reached b payload size i → P i) ↔
      P idx ∧ ∀ i, idx + 1 ≤ i → i < idx + 1 + left → Reached b payload size i → P i := by
  constructor
  · intro h
    exact ⟨h idx (le_refl idx) (by omega) hr, fun i h1 h2 => h i (by omega) (by omega)⟩
  · rintro ⟨h0, h⟩ i h1 h2 hi
    rcases Nat.eq_or_lt_of_le h1 with rfl | hlt
    · exact h0
    · exact h i hlt (by omega) hi

/-- A `PT_LOAD` header. -/
theorem loadHeader_safe (size : Nat) (hk : LoaderOk k) {idx : Nat}
    (h : LoadInv k (loadsBefore b payload idx) s u)
    (ht : (readPhdr b (phdrAddr b payload idx)).pType = ptLoad) :
    (loadHeader b payload idx s).1 = true ∧ LogOk payload size (loadHeader b payload idx s).2 ↔
      LogOk payload size s ∧ HeaderSafe b payload size k idx := by
  have hv : (readPhdr b (phdrAddr b payload idx)).pVaddr < 4294967296 := field_lt b _
  have hm : (readPhdr b (phdrAddr b payload idx)).pMemsz < 4294967296 := field_lt b _
  have hread : LoadInv k (loadsBefore b payload idx)
      (readFields b payload idx (readType b payload idx s) loadFields) u :=
    h.congr (readFields_kernel b payload idx loadFields _)
  have htype : LogOk payload size (readType b payload idx s) ↔
      Inside payload size (phdrAddr b payload idx) 4 ∧ LogOk payload size s := by
    rw [readType, logOk_record]
    rfl
  rw [loadHeader, loadSegment_safe hk hread hv hm, logOk_readFields, htype]
  constructor
  · rintro ⟨⟨hfields, htyped, hok⟩, hseg⟩
    refine ⟨hok, htyped, fun _ => ⟨hfields, hseg⟩, fun htls => ?_⟩
    exact absurd (ht.symm.trans htls) (by decide)
  · rintro ⟨hok, htyped, hload, -⟩
    exact ⟨⟨(hload ht).1, htyped, hok⟩, (hload ht).2⟩

theorem loadHeader_inv {idx : Nat} (h : LoadInv k (loadsBefore b payload idx) s u)
    (hdone : (loadHeader b payload idx s).1 = true) :
    ∃ u', LoadInv k (loadsBefore b payload idx ++ [readPhdr b (phdrAddr b payload idx)])
      (loadHeader b payload idx s).2 u' := by
  rw [loadHeader] at hdone ⊢
  exact ⟨_, loadSegment_inv (h.congr (readFields_kernel b payload idx loadFields _)) (field_lt b _)
    hdone⟩

/-- Any other header. -/
theorem otherHeader_safe {idx : Nat} (ht : (readPhdr b (phdrAddr b payload idx)).pType ≠ ptLoad) :
    LogOk payload size (otherHeader b payload idx s) ↔
      LogOk payload size s ∧ HeaderSafe b payload size k idx := by
  have htype : LogOk payload size (readType b payload idx s) ↔
      Inside payload size (phdrAddr b payload idx) 4 ∧ LogOk payload size s := by
    rw [readType, logOk_record]
    rfl
  unfold otherHeader
  dsimp only
  split
  · rename_i htls
    refine Iff.trans (logOk_readFields idx tlsFields _) ?_
    rw [htype]
    constructor
    · rintro ⟨hfields, htyped, hok⟩
      exact ⟨hok, htyped, fun hl => absurd hl ht, fun _ => hfields⟩
    · rintro ⟨hok, htyped, -, hfields⟩
      exact ⟨hfields htls, htyped, hok⟩
  · rename_i htls
    rw [htype]
    constructor
    · rintro ⟨htyped, hok⟩
      exact ⟨hok, htyped, fun hl => absurd hl ht, fun hl => absurd hl htls⟩
    · rintro ⟨hok, htyped, -, -⟩
      exact ⟨htyped, hok⟩

theorem otherHeader_kernel (b : Bytes32) (payload idx : Nat) (s : LoadState) :
    (otherHeader b payload idx s).kernel = s.kernel := by
  unfold otherHeader
  dsimp only
  split
  · exact readFields_kernel b payload idx tlsFields _
  · rfl

/-- **The loop over the program headers.** -/
theorem loadHeaders_safe (size : Nat) (hk : LoaderOk k) :
    ∀ (left : Nat) {idx : Nat} {s : LoadState} {u : Owners},
      LoadInv k (loadsBefore b payload idx) s u →
      (∀ i, i < idx → ¬ w32 (payload + size) < phdrAddr b payload i) →
      ((loadHeaders b payload size left idx s).1 ≠ some .fault ∧
          LogOk payload size (loadHeaders b payload size left idx s).2 ↔
        LogOk payload size s ∧ ∀ i, idx ≤ i → i < idx + left → Reached b payload size i →
          HeaderSafe b payload size k i)
  | 0, idx, s, u, _, _ => by
    constructor
    · rintro ⟨-, hok⟩
      exact ⟨hok, fun i h1 h2 => absurd h2 (by omega)⟩
    · rintro ⟨hok, -⟩
      exact ⟨by simp [loadHeaders], hok⟩
  | left + 1, idx, s, u, h, hpass => by
    by_cases href : w32 (payload + size) < phdrAddr b payload idx
    · rw [loadHeaders_refused href]
      constructor
      · rintro ⟨-, hok⟩
        exact ⟨hok, fun i h1 _ hi => absurd href (hi idx h1)⟩
      · rintro ⟨hok, -⟩
        exact ⟨by simp, hok⟩
    · have hreach : Reached b payload size idx := by
        intro i hi
        rcases Nat.eq_or_lt_of_le hi with rfl | hlt
        · exact href
        · exact hpass i hlt
      have hpass' : ∀ i, i < idx + 1 → ¬ w32 (payload + size) < phdrAddr b payload i :=
        fun i hi => hreach i (by omega)
      have hsucc := loadsBefore_succ b payload idx
      rw [headers_cons hreach]
      by_cases hload : (readPhdr b (phdrAddr b payload idx)).pType = ptLoad
      · rw [if_pos hload] at hsucc
        have hhead := loadHeader_safe size hk h hload
        have hnext := loadHeader_inv h
        rw [← hsucc] at hnext
        rw [loadHeaders_load href hload]
        cases hl : loadHeader b payload idx s with
        | mk ok s' =>
          rw [hl] at hhead hnext
          cases ok with
          | true =>
            obtain ⟨u', hinv⟩ := hnext rfl
            rw [← and_assoc, ← hhead]
            simp only [if_true, true_and]
            exact loadHeaders_safe size hk left hinv hpass'
          | false =>
            refine iff_of_false (fun hd => hd.1 rfl) fun hd => ?_
            exact Bool.false_ne_true (hhead.mpr ⟨hd.1, hd.2.1⟩).1
      · rw [if_neg hload] at hsucc
        rw [loadHeaders_other href hload, ← and_assoc, ← otherHeader_safe hload]
        refine loadHeaders_safe size hk left (u := u) ?_ hpass'
        rw [hsucc]
        exact h.congr (otherHeader_kernel b payload idx s)

/-! ## 6. The whole call -/

/-- The header tests. -/
theorem checkHeader_spec (b : Bytes32) (payload size : Nat) :
    ∀ (cs : List (Nat × Nat × Nat)) (s : LoadState),
      ((checkHeader b payload cs s).1 = true ↔
          (cs.all fun c => field b (payload + c.1) c.2.1 == c.2.2) = true) ∧
        (checkHeader b payload cs s).2.kernel = s.kernel ∧
        (LogOk payload size (checkHeader b payload cs s).2 ↔
          (∀ c ∈ madeChecks b payload cs, Inside payload size (payload + c.1) c.2.1) ∧
            LogOk payload size s)
  | [], s => by simp [checkHeader, madeChecks]
  | (off, w, v) :: cs, s => by
    have hstep : LogOk payload size (s.record (.read (w32 (payload + off)) w)) ↔
        Inside payload size (payload + off) w ∧ LogOk payload size s := by
      rw [logOk_record]
      exact and_congr_left fun _ => inside_w32 _ _
    by_cases hne : field b (payload + off) w ≠ v
    · have hval : checkHeader b payload ((off, w, v) :: cs) s =
          (false, s.record (.read (w32 (payload + off)) w)) := if_pos hne
      have hmade : madeChecks b payload ((off, w, v) :: cs) = [(off, w, v)] := if_pos hne
      rw [hval, hmade]
      refine ⟨by simp [hne], rfl, hstep.trans (by simp)⟩
    · have hval : checkHeader b payload ((off, w, v) :: cs) s =
          checkHeader b payload cs (s.record (.read (w32 (payload + off)) w)) := if_neg hne
      have hmade : madeChecks b payload ((off, w, v) :: cs) =
          (off, w, v) :: madeChecks b payload cs := if_neg hne
      obtain ⟨h1, h2, h3⟩ := checkHeader_spec b payload size cs
        (s.record (.read (w32 (payload + off)) w))
      rw [hval, hmade, List.forall_mem_cons]
      refine ⟨h1.trans (by simp [not_not.mp hne]), h2, h3.trans ?_⟩
      rw [hstep]
      tauto

theorem madeChecks_subset (b : Bytes32) (payload : Nat) :
    ∀ cs : List (Nat × Nat × Nat), madeChecks b payload cs ⊆ cs
  | [] => List.Subset.refl _
  | c :: cs => by
    rw [madeChecks]
    split
    · simp
    · exact List.cons_subset_cons c (madeChecks_subset b payload cs)

/-- The header tests read only the image exactly when it is as long as they need it. -/
theorem madeChecks_inside (hsize : payload + size ≤ 4294967296) :
    (∀ c ∈ madeChecks b payload headerChecks, Inside payload size (payload + c.1) c.2.1) ↔
      ∀ c ∈ madeChecks b payload headerChecks, c.1 + c.2.1 ≤ size := by
  have hsmall : ∀ c ∈ headerChecks, 0 < c.2.1 ∧ c.1 + c.2.1 ≤ 4294967296 := by decide
  refine forall₂_congr fun c hc => ?_
  obtain ⟨hw, hoff⟩ := hsmall c (madeChecks_subset b payload _ hc)
  exact inside_field hsize hw hoff

/-- The reads of the rest of the header. -/
theorem logOk_readHeader (hsize : payload + size ≤ 4294967296) :
    LogOk payload size (readHeader b payload s) ↔
      52 ≤ size ∧ Inside payload size (stringHdrOffset b payload) 4 ∧ LogOk payload size s := by
  have hfield : ∀ {off w : Nat}, 0 < w → off + w ≤ 52 →
      (Inside payload size (w32 (payload + off)) w ↔ off + w ≤ size) :=
    fun hw hoff => (inside_w32 _ _).trans (inside_field hsize hw (by omega))
  simp only [readHeader, logOk_record, LoadEvent.Ok]
  rw [hfield (by decide) (by decide), hfield (by decide) (by decide),
    hfield (by decide) (by decide), hfield (by decide) (by decide)]
  constructor
  · rintro ⟨-, -, hstring, h52, -, hok⟩
    exact ⟨h52, hstring, hok⟩
  · rintro ⟨h52, hstring, hok⟩
    exact ⟨by omega, by omega, hstring, h52, by omega, hok⟩

/-- The call after the header tests. -/
theorem loadImage_safe (hk : LoaderOk k) (hsize : payload + size ≤ 4294967296)
    (h : LoadInv k [] s u) (hok : LogOk payload size s → 52 ≤ size) :
    Safe payload size (loadImage b payload size s) ↔
      LogOk payload size s ∧ ∀ idx, idx < ePhnum b payload → Reached b payload size idx →
        HeaderSafe b payload size k idx := by
  have h0 : LoadInv k (loadsBefore b payload 0) s u := h
  have hloop := loadHeaders_safe size hk (ePhnum b payload) h0
    fun i hi => absurd hi (Nat.not_lt_zero i)
  have hall : (∀ i, 0 ≤ i → i < 0 + ePhnum b payload → Reached b payload size i →
      HeaderSafe b payload size k i) ↔ ∀ i, i < ePhnum b payload → Reached b payload size i →
        HeaderSafe b payload size k i := by
    simp only [Nat.zero_le, Nat.zero_add, true_imp_iff]
  rw [hall] at hloop
  rw [← hloop]
  cases hr : loadHeaders b payload size (ePhnum b payload) 0 s with
  | mk e s' =>
    have hsub := loadHeaders_log b payload size (ePhnum b payload) 0 s
    rw [hr] at hsub
    cases e with
    | some e =>
      have hval : loadImage b payload size s = (e, s') := by rw [loadImage, hr]
      rw [hval]
      exact and_congr_left fun _ => not_congr Option.some_inj.symm
    | none =>
      have hval : loadImage b payload size s =
          (.entered (eEntry b payload), s'.record (.read (w32 (payload + 24)) 4)) := by
        rw [loadImage, hr]
      rw [hval, Safe, logOk_record]
      constructor
      · rintro ⟨-, -, hok'⟩
        exact ⟨by simp, hok'⟩
      · rintro ⟨-, hok'⟩
        have h52 := hok (hok'.of_subset hsub)
        have hentry := (inside_field (w := 4) hsize (by decide) (show 24 + 4 ≤ _ by decide)).mpr
          (show 24 + 4 ≤ size by omega)
        exact ⟨by simp, (inside_w32 _ _).mpr hentry, hok'⟩

/-- **What `setup_elf` touches.**  For every image, every size and every state of the physical
memory: the call ends, reads only bytes of the image, maps and stores only in the user half, maps
no page to address 0 and runs no loop longer than the image says, exactly when the image passes
the checks that are missing. -/
theorem setupElf_safe_iff (b : Bytes32) (payload size : Nat) (k : Kernel) (m : Mem)
    (hk : LoaderOk k) (hsize : payload + size ≤ 4294967296) :
    Safe payload size (setupElf b payload size (.start k m)) ↔ ImageSafe b payload size k := by
  obtain ⟨hpass, hkernel, hlog⟩ := checkHeader_spec b payload size headerChecks
    { LoadState.start k m with vheap := 0 }
  have hstart : LoadInv k [] { LoadState.start k m with vheap := 0 } fun _ => none := by
    refine ⟨?_, fun _ => rfl, fun _ _ ho => absurd ho (by simp), rfl, rfl, rfl⟩
    have hempty : ({ LoadState.start k m with vheap := 0 } : LoadState).kernel.proc.vuserPD =
        emptyTable := hk.empty
    rw [hempty]
    exact holds_emptyTable
  have hnil : LogOk payload size { LoadState.start k m with vheap := 0 } :=
    fun e he => absurd he List.not_mem_nil
  rw [madeChecks_inside hsize, and_iff_left hnil] at hlog
  cases hc : checkHeader b payload headerChecks { LoadState.start k m with vheap := 0 } with
  | mk ok s =>
    rw [hc] at hpass hkernel hlog
    have hval : setupElf b payload size (.start k m) =
        if ok then loadImage b payload size (readHeader b payload s) else (.refused, s) := by
      rw [setupElf, hc]
    rw [hval]
    cases ok with
    | false =>
      have hno : ¬ headerOk b payload = true := fun h => Bool.false_ne_true (hpass.mpr h)
      constructor
      · rintro ⟨-, hok⟩
        exact ⟨hlog.mp hok, fun h => absurd h hno, fun h => absurd h hno, fun h => absurd h hno⟩
      · intro h
        exact ⟨by simp, hlog.mpr h.checks⟩
    | true =>
      have hyes : headerOk b payload = true := hpass.mp rfl
      have hread := logOk_readHeader (b := b) (s := s) hsize
      have hinv : LoadInv k [] (readHeader b payload s) fun _ => none := hstart.congr hkernel
      rw [if_pos rfl, loadImage_safe hk hsize hinv fun hok => (hread.mp hok).1, hread, hlog]
      constructor
      · rintro ⟨⟨h52, hstring, hchecks⟩, hheaders⟩
        exact ⟨hchecks, fun _ => h52, fun _ => hstring, fun _ => hheaders⟩
      · intro h
        exact ⟨⟨h.header hyes, h.string hyes, h.checks⟩, h.headers hyes⟩

/-- An image of two segments on the page at `0x1000`: four bytes to read and execute, and behind
them six bytes to read and write, with two more of memory. -/
def onePage : Bytes32 := fun a =>
  [0x7F, 0x45, 0x4C, 0x46, 1, 1, 1, 0, 0, 0, 0, 0, 0, 0, 0, 0,
    2, 0, 40, 0, 1, 0, 0, 0, 0, 0x10, 0, 0, 52, 0, 0, 0, 0, 0, 0, 0,
    0, 0, 0, 0, 52, 0, 32, 0, 2, 0, 40, 0, 0, 0, 0, 0,
    1, 0, 0, 0, 116, 0, 0, 0, 0, 0x10, 0, 0, 0, 0x10, 0, 0, 4, 0, 0, 0, 4, 0, 0, 0, 5, 0, 0, 0,
    0, 0x10, 0, 0,
    1, 0, 0, 0, 120, 0, 0, 0, 0, 0x18, 0, 0, 0, 0x18, 0, 0, 6, 0, 0, 0, 8, 0, 0, 0, 6, 0, 0, 0,
    0, 0x10, 0, 0,
    1, 2, 3, 4, 5, 6, 7, 8, 9, 10].getD (a - 0xC0010000) 0

/-- The theorem on that image. -/
theorem setupElf_safe_iff_onePage :
    Safe 0xC0010000 126 (setupElf onePage 0xC0010000 126 (.start bootKernel fun _ => 0)) ↔
      ImageSafe onePage 0xC0010000 126 bootKernel :=
  setupElf_safe_iff onePage 0xC0010000 126 bootKernel (fun _ => 0) bootKernel_loaderOk (by decide)

/-- A file with nothing but the four magic bytes. -/
def magicOnly : Bytes32 := fun a => [0x7F, 0x45, 0x4C, 0x46].getD (a - 0xC0010000) 0

/-- **A short file is read past its end**: `e_type` is read behind the four bytes. -/
theorem setupElf_reads_outside :
    ¬ Safe 0xC0010000 4 (setupElf magicOnly 0xC0010000 4 (.start bootKernel fun _ => 0)) := by
  rintro ⟨-, hok⟩
  have hmem : LoadEvent.read 0xC0010010 2 ∈
      (setupElf magicOnly 0xC0010000 4 (.start bootKernel fun _ => 0)).2.log := by
    decide +kernel
  have hread := hok _ hmem 0 (by decide)
  exact absurd hread (by decide)

end AndixOs.Loader
