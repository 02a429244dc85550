/-
# First fit

What the page allocators give out, exactly.  `mmm_allocate_pages`, `pmm_allocate_pages`,
`smm_allocate_pages` and `allocate_task_mapped_page_frames` are four copies of one search, and it
is first fit (`pageCopies_first_fit`).  `pmm_allocate_aligned_pages` is another copy, in which the
test for the end of a run became the `else` of the test for its start: a run of one page is never
complete (`pmmAllocateAlignedPages_fits_iff`).  `pmm_free_pages` takes back what
`pmm_allocate_pages` gave only if that was one page, since it adds the number of the round to the
address and not that many pages (`pmmFreePages_restores_iff`).
-/
import AndixOs.Mm.Kernel

namespace AndixOs.Mm

variable {b b' : Bitmap} {k : Kernel} {n q : Nat}

/-! ## 1. What an allocation does to a bitmap -/

/-- The bits of the `n` pages from `q` on are cleared, and nothing else is written. -/
structure Clears (b b' : Bitmap) (q n : Nat) : Prop where
  words : b'.words = b.words
  isFree : ∀ p, b'.isFree p = (b.isFree p && !decide (q ≤ p ∧ p < q + n))
  outside : ∀ x : Int, x < 0 ∨ b.words ≤ x → b'.word x = b.word x

/-- First fit: the lowest run of `n` free pages is taken, or there is none and nothing changes. -/
def Allocates (b : Bitmap) (n : Nat) : Option Nat × Bitmap → Prop
  | (some q, b') => FirstRun b.isFree n b.pages q ∧ Clears b b' q n
  | (none, b') => b' = b ∧ ∀ q, q + n ≤ b.pages → ¬ FreeRun b.isFree q n

/-- The search of the copies: the first page of the run, and the bitmap. -/
def firstFit (b : Bitmap) (numpages : Nat) : Option Nat × Bitmap :=
  match scanWords b numpages b.words ⟨0, 0, 0⟩ with
  | .more _ => (none, b)
  | .found s i j =>
    (some (s.starti * 32 + s.startj), { b with word := markPages b.word s.starti s.startj i j })

/-- The address of a page of an area, 0 for `NULL`. -/
def startAddr (base : Nat) : Option Nat → Nat
  | none => 0
  | some q => w32 (base + q * 4096)

/-- The pages of an area have addresses, and none of them is 0. -/
def Bitmap.Fits (b : Bitmap) (base : Nat) : Prop := 0 < base ∧ base + 4096 * b.pages ≤ 4294967296

theorem allocatePages_eq (b : Bitmap) (base n : Nat) :
    allocatePages b base n = (startAddr base (firstFit b n).1, (firstFit b n).2) := by
  unfold allocatePages firstFit
  cases scanWords b n b.words ⟨0, 0, 0⟩ with
  | more s => rfl
  | found s i j => rfl

/-- The pages of a run, marked. -/
theorem clears_markPages (b : Bitmap) {starti startj i j : Nat} (hn : 0 < n) (hj : startj < 32)
    (hj' : j < 32) (hlast : 32 * i + j + 1 = 32 * starti + startj + n)
    (hin : 32 * starti + startj + n ≤ b.pages) :
    Clears b { b with word := markPages b.word starti startj i j } (32 * starti + startj) n := by
  have hpages : b.pages = 32 * b.words := rfl
  constructor
  · rfl
  · exact isFree_markPages b hn hj hj' hlast
  · exact fun x hx => markPages_outside b.word (by omega)

/-- **The search is first fit.** -/
theorem firstFit_allocates (b : Bitmap) (hn : 0 < n) (hn' : n < 4294967296) :
    Allocates b n (firstFit b n) := by
  have hspec := scanWords_spec hn hn' b.words (le_refl b.words) (scanWords_start b hn)
  unfold firstFit
  cases hr : scanWords b n b.words ⟨0, 0, 0⟩ with
  | more s =>
    rw [hr] at hspec
    exact ⟨rfl, fun q hq => hspec.scanning.none_yet q hq⟩
  | found s i j =>
    rw [hr] at hspec
    obtain ⟨hfirst, hlast, hsj, hj⟩ := hspec
    simp only [Nat.mul_comm s.starti 32]
    exact ⟨hfirst, clears_markPages b hn hsj hj hlast hfirst.inside⟩

/-- The address says whether there is a run. -/
theorem startAddr_eq_zero_iff {base : Nat} {r : Option Nat × Bitmap} (hb : b.Fits base)
    (hn : 0 < n) (h : Allocates b n r) :
    startAddr base r.1 = 0 ↔ ∀ q, q + n ≤ b.pages → ¬ FreeRun b.isFree q n := by
  obtain ⟨hpos, htop⟩ := hb
  obtain ⟨_ | q, b'⟩ := r
  · exact ⟨fun _ => h.2, fun _ => rfl⟩
  · have hin := h.1.inside
    have haddr : startAddr base (some q) = base + q * 4096 := w32_of_lt (by omega)
    rw [haddr]
    exact ⟨fun h0 => absurd h0 (by omega), fun hno => absurd h.1.run (hno q hin)⟩

/-- **The four copies** are first fit, and one function of the bitmap and the number of pages but
for the address they start from; `NULL` says that there is no run, wherever the area lies in the
address space. -/
theorem pageCopies_first_fit :
    (∀ (b : Bitmap) (n : UInt32), n ≠ 0 → Allocates b n.toNat (firstFit b n.toNat)) ∧
    (∀ (b : Bitmap) (base : Nat) (n : UInt32), n ≠ 0 → b.Fits base →
      (startAddr base (firstFit b n.toNat).1 = 0 ↔
        ∀ q, q + n.toNat ≤ b.pages → ¬ FreeRun b.isFree q n.toNat)) ∧
    ∀ (k : Kernel) (n : UInt32),
      mmmAllocatePages k n.toNat = (startAddr mmmStart (firstFit k.mmm n.toNat).1,
        { k with mmm := (firstFit k.mmm n.toNat).2 }) ∧
      pmmAllocatePages k n.toNat = (startAddr k.physStart (firstFit k.pmm n.toNat).1,
        { k with pmm := (firstFit k.pmm n.toNat).2 }) ∧
      smmAllocatePages k n.toNat = (startAddr k.layout.smmStart (firstFit k.smm n.toNat).1,
        { k with smm := (firstFit k.smm n.toNat).2 }) ∧
      allocateTaskMappedPageFrames k n.toNat =
        (startAddr userStartMappedMem (firstFit k.proc.membitmap n.toNat).1,
          { k with proc := { k.proc with membitmap := (firstFit k.proc.membitmap n.toNat).2 } }) := by
  have hpos : ∀ n : UInt32, n ≠ 0 → 0 < n.toNat := by
    intro n hn
    exact Nat.pos_of_ne_zero fun h0 => hn (UInt32.toNat_inj.mp h0)
  have hfit : ∀ (b : Bitmap) (n : UInt32), n ≠ 0 → Allocates b n.toNat (firstFit b n.toNat) :=
    fun b n hn => firstFit_allocates b (hpos n hn) n.toNat_lt
  refine ⟨hfit, fun b base n hn hb => startAddr_eq_zero_iff hb (hpos n hn) (hfit b n hn), ?_⟩
  intro k n
  simp only [mmmAllocatePages, pmmAllocatePages, smmAllocatePages, allocateTaskMappedPageFrames,
    allocatePages_eq, and_self]

/-- **The search for a single page** finds one if one is free. -/
theorem allocatePage_none {base : Nat} (hb : b.Fits base) (h : (allocatePage b base).1 = 0) :
    ∀ p < b.pages, b.isFree p = false := by
  intro p hp
  have hpages : b.pages = 32 * b.words := rfl
  unfold allocatePage at h
  cases hi : (List.range b.words).find? fun (i : Nat) => b.word i != 0 with
  | none =>
    have hzero := List.find?_eq_none.mp hi (p / 32) (List.mem_range.mpr (by omega))
    have hword : b.word (p / 32 : Nat) = 0 := by simpa using hzero
    rw [Bitmap.isFree, hword]
    exact BitVec.getLsbD_zero
  | some i =>
    simp only [hi] at h
    cases hj : (List.range 32).find? fun j => b.word i &&& bit j != 0 with
    | none =>
      -- a word that is not 0 has a bit that is set
      have hne := List.find?_some hi
      refine absurd ?_ (bne_iff_ne.mp hne)
      ext j hlt
      have hbit := List.find?_eq_none.mp hj j (List.mem_range.mpr hlt)
      rw [bne_iff_ne, and_bit_ne_zero hlt] at hbit
      rw [← BitVec.getLsbD_eq_getElem, Bool.eq_false_of_not_eq_true hbit]
      exact BitVec.getLsbD_zero.symm
    | some j =>
      have hi := List.mem_range.mp (List.mem_of_find?_eq_some hi)
      have hj32 := List.mem_range.mp (List.mem_of_find?_eq_some hj)
      obtain ⟨hpos, htop⟩ := hb
      simp only [hj, w32_of_lt (show base + (i * 32 + j) * 4096 < 4294967296 by omega)] at h
      omega

/-- The areas after the boot are such areas. -/
example : bootKernel.mmm.Fits mmmStart ∧ bootKernel.pmm.Fits bootKernel.physStart := by
  unfold Bitmap.Fits
  decide

/-! ## 2. Aligned runs -/

/-- The pages whose address is a multiple of `align`. -/
def alignedPage (base align p : Nat) : Bool := (base + p * 4096) % align == 0

/-- What an aligned allocation should do: the lowest run of `n` free pages whose start is aligned is
taken, or there is none and nothing changes. -/
def AllocatesAligned (k : Kernel) (n align : Nat) (r : Nat × Kernel) : Prop :=
  (∃ q b', FirstRunFrom k.pmm.isFree (alignedPage k.physStart align) n k.pmm.pages q ∧
    r = (w32 (k.physStart + q * 4096), { k with pmm := b' }) ∧ Clears k.pmm b' q n) ∨
  ((∀ q, ¬ FirstRunFrom k.pmm.isFree (alignedPage k.physStart align) n k.pmm.pages q) ∧ r = (0, k))

/-- The test of the source: the padding to the next multiple is a whole `align`. -/
theorem startsAligned_eq {base align e : Nat} (hal : align = 2 ^ e) (hlt : align < 4294967296) :
    startsAligned base align = alignedPage base align := by
  funext p
  have hpos : 0 < align := hal ▸ Nat.two_pow_pos e
  have hmask : ∀ x, x &&& (align - 1) = x % align := by
    intro x
    rw [hal]
    exact Nat.and_two_pow_sub_one_eq_mod x e
  have hdvd : align ∣ 4294967296 := by
    have he : e < 32 := (Nat.pow_lt_pow_iff_right (by decide)).mp (hal ▸ hlt)
    have hpow : 4294967296 = 2 ^ 32 := rfl
    rw [hal, hpow]
    exact Nat.pow_dvd_pow 2 (by omega)
  have hmod : w32 (base + p * 4096) % align = (base + p * 4096) % align :=
    Nat.mod_mod_of_dvd _ hdvd
  have hrem := Nat.mod_lt (base + p * 4096) hpos
  unfold startsAligned alignedPage
  rw [sub32_of_le hpos hlt, hmask, hmod, sub32_of_le (Nat.le_of_lt hrem) hlt]
  rw [Bool.eq_iff_iff, beq_iff_eq, beq_iff_eq]
  omega

/-- The locals of the aligned search and the page they have come to. -/
structure SeekingAt (b : Bitmap) (ok : Nat → Bool) (n p : Nat) (s : Search) : Prop where
  seeking : Seeking b.isFree ok n p s.k
  start : s.k ≠ 0 → 32 * s.starti + s.startj + s.k = p
  bit : s.k ≠ 0 → s.startj < 32

/-- What the aligned search knows when it is found. -/
structure FoundFrom (b : Bitmap) (ok : Nat → Bool) (n : Nat) (s : Search) (i j : Nat) : Prop where
  first : FirstRunFrom b.isFree ok n b.pages (32 * s.starti + s.startj)
  last : 32 * i + j + 1 = 32 * s.starti + s.startj + n
  startBit : s.startj < 32
  lastBit : j < 32

theorem SeekingAt.reset {ok : Nat → Bool} {p : Nat} {s : Search} (h : Seeking b.isFree ok n p 0) :
    SeekingAt b ok n p { s with k := 0 } := ⟨h, fun h0 => absurd rfl h0, fun h0 => absurd rfl h0⟩

/-- The inner loop, for runs of at least two pages. -/
theorem scanAlignedBits_first {ok : Nat → Bool} {i : Nat} (hn : 1 < n) (hn' : n < 4294967296)
    (hi : i < b.words) :
    ∀ (left : Nat) {s : Search}, left ≤ 32 → SeekingAt b ok n (32 * i + (32 - left)) s →
      match scanAlignedBits b ok n i left s with
      | .more s' => SeekingAt b ok n (32 * i + 32) s'
      | .found s' i' j' => FoundFrom b ok n s' i' j'
  | 0, s, _, h => h
  | left + 1, s, hl, h => by
    have hj : 31 - left < 32 := by omega
    have hp : 32 * i + (32 - (left + 1)) = 32 * i + (31 - left) := by omega
    have hp' : 32 * i + (32 - left) = 32 * i + (31 - left) + 1 := by omega
    have hpos : 0 < n := by omega
    have hbit := and_bit_ne_zero (w := b.word i) hj
    rw [← isFree_word b hj] at hbit
    rw [hp] at h
    rw [scanAlignedBits, sub32_one hpos hn']
    by_cases hw : b.word i &&& bit (31 - left) ≠ 0
    · rw [if_pos hw]
      have hfree := hbit.mp hw
      by_cases hk : s.k = 0
      · rw [if_pos hk]
        have hseek := h.seeking
        rw [hk] at hseek
        by_cases hal : ok (32 * i + (31 - left)) = true
        · -- the run starts here
          rw [if_pos hal]
          refine scanAlignedBits_first hn hn' hi left (by omega)
            ⟨hp' ▸ hseek.longer hfree (fun _ => hal) hn, fun _ => ?_, fun _ => hj⟩
          simp only
          omega
        · rw [if_neg hal]
          refine scanAlignedBits_first hn hn' hi left (by omega) ?_
          have hsame : s = { s with k := 0 } := by rw [← hk]
          rw [hsame]
          exact SeekingAt.reset (hp' ▸ hseek.skip hpos (by simpa using hal))
      · rw [if_neg hk]
        have hst := h.start hk
        have hlt := h.seeking.count_lt hk
        by_cases hend : s.k = n - 1
        · rw [if_pos hend]
          have hpages : b.pages = 32 * b.words := rfl
          have hfound := h.seeking.found hfree hk (by omega) (m := b.pages) (by omega)
          have hq : 32 * i + (31 - left) - s.k = 32 * s.starti + s.startj := by omega
          exact ⟨hq ▸ hfound, by omega, h.bit hk, hj⟩
        · rw [if_neg hend]
          refine scanAlignedBits_first hn hn' hi left (by omega)
            ⟨hp' ▸ h.seeking.longer hfree (fun h0 => absurd h0 hk) (by omega), fun _ => ?_,
              fun _ => h.bit hk⟩
          simp only
          omega
    · rw [if_neg hw]
      have hbusy : b.isFree (32 * i + (31 - left)) = false := by
        rw [← Bool.not_eq_true]
        exact fun hfree => hw (hbit.mpr hfree)
      exact scanAlignedBits_first hn hn' hi left (by omega)
        (SeekingAt.reset (hp' ▸ h.seeking.busy hpos hbusy))

/-- A word without free pages cuts every start off. -/
theorem seeking_zeroWord {ok : Nat → Bool} {i c : Nat} (hn : 0 < n)
    (h : Seeking b.isFree ok n (32 * i) c) (hw : b.word i = 0) :
    Seeking b.isFree ok n (32 * i + 32) 0 := by
  have hbusy : ∀ j, j < 32 → b.isFree (32 * i + j) = false := by
    intro j hj
    rw [isFree_word b hj, hw]
    exact BitVec.getLsbD_zero
  have hseek : ∀ j, j < 32 → Seeking b.isFree ok n (32 * i + (j + 1)) 0 := by
    intro j
    induction j with
    | zero => exact fun hj => h.busy hn (hbusy 0 hj)
    | succ j ih => exact fun hj => (ih (by omega)).busy hn (hbusy (j + 1) hj)
  exact hseek 31 (by omega)

/-- The outer loop. -/
theorem scanAlignedWords_first {ok : Nat → Bool} (hn : 1 < n) (hn' : n < 4294967296) :
    ∀ (left : Nat) {s : Search}, left ≤ b.words → SeekingAt b ok n (32 * (b.words - left)) s →
      match scanAlignedWords b ok n left s with
      | .more s' => SeekingAt b ok n b.pages s'
      | .found s' i' j' => FoundFrom b ok n s' i' j'
  | 0, s, _, h => h
  | left + 1, s, hl, h => by
    have hnext : 32 * (b.words - (left + 1)) + 32 = 32 * (b.words - left) := by omega
    rw [scanAlignedWords]
    by_cases hw : b.word (b.words - (left + 1) : Nat) ≠ 0
    · rw [if_pos hw]
      have hin := scanAlignedBits_first hn hn' (i := b.words - (left + 1)) (by omega) 32
        (le_refl 32) h
      cases hr : scanAlignedBits b ok n (b.words - (left + 1)) 32 s with
      | more s' =>
        rw [hr] at hin
        exact scanAlignedWords_first hn hn' left (by omega) (hnext ▸ hin)
      | found s' i' j' =>
        rw [hr] at hin
        exact hin
    · rw [if_neg hw]
      exact scanAlignedWords_first hn hn' left (by omega)
        (SeekingAt.reset (hnext ▸ seeking_zeroWord (by omega) h.seeking (not_not.mp hw)))

/-- **The aligned search for two pages or more** finds the first aligned run. -/
theorem allocateAlignedPages_first (base align : Nat) (hn : 1 < n) (hn' : n < 4294967296) :
    (∃ q b', FirstRunFrom b.isFree (startsAligned base align) n b.pages q ∧
      allocateAlignedPages b base n align = (w32 (base + q * 4096), b') ∧ Clears b b' q n) ∨
    ((∀ q, ¬ FirstRunFrom b.isFree (startsAligned base align) n b.pages q) ∧
      allocateAlignedPages b base n align = (0, b)) := by
  have hstart : SeekingAt b (startsAligned base align) n (32 * (b.words - b.words)) ⟨0, 0, 0⟩ := by
    rw [Nat.sub_self]
    exact ⟨Seeking.begin (by omega), fun h => absurd rfl h, fun h => absurd rfl h⟩
  have hspec := scanAlignedWords_first hn hn' b.words (le_refl b.words) hstart
  unfold allocateAlignedPages
  cases hr : scanAlignedWords b (startsAligned base align) n b.words ⟨0, 0, 0⟩ with
  | more s =>
    rw [hr] at hspec
    exact Or.inr ⟨hspec.seeking.exhausted, rfl⟩
  | found s i j =>
    rw [hr] at hspec
    obtain ⟨hfirst, hlast, hsj, hj⟩ := hspec
    simp only [Nat.mul_comm s.starti 32]
    exact Or.inl ⟨_, _, hfirst, rfl, clears_markPages b (by omega) hsj hj hlast hfirst.inside⟩

/-- One page: the first free page only starts the run, and then the count is past `numpages - 1`. -/
theorem scanAlignedBits_one (b : Bitmap) (ok : Nat → Bool) (i : Nat) :
    ∀ (left : Nat) (s : Search), ∃ s', scanAlignedBits b ok 1 i left s = .more s'
  | 0, s => ⟨s, rfl⟩
  | left + 1, s => by
    have hsub : sub32 1 1 = 0 := rfl
    rw [scanAlignedBits, hsub]
    by_cases hk : s.k = 0
    · simp only [hk, if_true]
      split
      · split
        · exact scanAlignedBits_one b ok i left _
        · exact scanAlignedBits_one b ok i left _
      · exact scanAlignedBits_one b ok i left _
    · simp only [if_neg hk]
      split
      · exact scanAlignedBits_one b ok i left _
      · exact scanAlignedBits_one b ok i left _

theorem scanAlignedWords_one (b : Bitmap) (ok : Nat → Bool) :
    ∀ (left : Nat) (s : Search), ∃ s', scanAlignedWords b ok 1 left s = .more s'
  | 0, s => ⟨s, rfl⟩
  | left + 1, s => by
    rw [scanAlignedWords]
    split
    · obtain ⟨s', hs⟩ := scanAlignedBits_one b ok (b.words - (left + 1)) 32 s
      rw [hs]
      exact scanAlignedWords_one b ok left s'
    · exact scanAlignedWords_one b ok left _

/-- **A request for one aligned page fails**, whatever is free. -/
theorem allocateAlignedPages_one (b : Bitmap) (base align : Nat) :
    allocateAlignedPages b base 1 align = (0, b) := by
  obtain ⟨s', hs⟩ := scanAlignedWords_one b (startsAligned base align) b.words ⟨0, 0, 0⟩
  unfold allocateAlignedPages
  rw [hs]

/-- A run of one page. -/
theorem freeRun_one {free : Nat → Bool} : FreeRun free q 1 ↔ free q = true := by
  constructor
  · exact fun h => h q (le_refl q) (by omega)
  · intro h r h1 h2
    obtain rfl : r = q := by omega
    exact h

/-- **When `pmm_allocate_aligned_pages` is right**: when more than one page is asked for, or no free
page is aligned. -/
theorem pmmAllocateAlignedPages_fits_iff (k : Kernel) {n align : UInt32} (hn : n ≠ 0)
    (hal : ∃ e, 12 ≤ e ∧ align.toNat = 2 ^ e) :
    AllocatesAligned k n.toNat align.toNat (pmmAllocateAlignedPages k n.toNat align.toNat) ↔
      n ≠ 1 ∨ ∀ p, p < k.pmm.pages → alignedPage k.physStart align.toNat p = true →
        k.pmm.isFree p = false := by
  obtain ⟨e, -, he⟩ := hal
  have hok : startsAligned k.physStart align.toNat = alignedPage k.physStart align.toNat :=
    startsAligned_eq he align.toNat_lt
  have hpos : n.toNat ≠ 0 := fun h0 => hn (UInt32.toNat_inj.mp h0)
  by_cases hone : n = 1
  · subst hone
    have hnull : pmmAllocateAlignedPages k (1 : UInt32).toNat align.toNat = (0, k) := by
      rw [pmmAllocateAlignedPages, UInt32.toNat_one, allocateAlignedPages_one]
    rw [hnull, UInt32.toNat_one]
    constructor
    · rintro (⟨q, b', hq, hr, hc⟩ | ⟨hno, -⟩)
      · -- the page is still free
        have hk : k.pmm = b' := congrArg (fun r : Nat × Kernel => r.2.pmm) hr
        have hfree := freeRun_one.mp hq.run
        have hcleared := hc.isFree q
        rw [← hk, hfree, decide_eq_true ⟨le_refl q, Nat.lt_succ_self q⟩] at hcleared
        exact absurd hcleared (by decide)
      · refine Or.inr fun p hp hstart => ?_
        rw [← Bool.not_eq_true]
        intro hfree
        obtain ⟨q', hq'⟩ := exists_firstRunFrom hp hstart (freeRun_one.mpr hfree)
        exact hno q' hq'
    · rintro (hne | hnone)
      · exact absurd rfl hne
      · refine Or.inr ⟨fun q hq => ?_, rfl⟩
        have hfree := freeRun_one.mp hq.run
        rw [hnone q hq.inside hq.start] at hfree
        exact Bool.false_ne_true hfree
  · have hlt : 1 < n.toNat := by
      have hne : n.toNat ≠ 1 := fun h1 => hone (UInt32.toNat_inj.mp h1)
      omega
    refine ⟨fun _ => Or.inl hone, fun _ => ?_⟩
    have hfirst := allocateAlignedPages_first (b := k.pmm) k.physStart align.toNat hlt n.toNat_lt
    rw [hok] at hfirst
    rcases hfirst with ⟨q, b', hq, hr, hc⟩ | ⟨hno, hr⟩
    · exact Or.inl ⟨q, b', hq, by rw [pmmAllocateAlignedPages, hr], hc⟩
    · exact Or.inr ⟨hno, by rw [pmmAllocateAlignedPages, hr]⟩

/-- The pages of `pmm` on a machine right after the boot. -/
theorem bootKernel_pmm : bootKernel.pmm = .allFree 1240 := rfl

/-- The two pages of a page directory on that machine. -/
theorem pmmAllocateAlignedPages_fits_directory :
    AllocatesAligned bootKernel (2 : UInt32).toNat (0x4000 : UInt32).toNat
      (pmmAllocateAlignedPages bootKernel (2 : UInt32).toNat (0x4000 : UInt32).toNat) :=
  (pmmAllocateAlignedPages_fits_iff bootKernel (by decide) ⟨14, by decide, rfl⟩).mpr
    (Or.inl (by decide))

/-- One page of 4096 bytes on the same machine: every page is free and aligned, and the answer is
`NULL`. -/
theorem pmmAllocateAlignedPages_misses :
    pmmAllocateAlignedPages bootKernel 1 0x1000 = (0, bootKernel) ∧
      bootKernel.pmm.isFree 0 = true ∧ ¬ AllocatesAligned bootKernel 1 0x1000
        (pmmAllocateAlignedPages bootKernel 1 0x1000) := by
  have hnull : pmmAllocateAlignedPages bootKernel 1 0x1000 = (0, bootKernel) := by
    rw [pmmAllocateAlignedPages, allocateAlignedPages_one]
  refine ⟨hnull, isFree_allFree _ _, ?_⟩
  rintro (⟨q, b', -, hr, hc⟩ | ⟨hno, -⟩)
  · rw [hnull] at hr
    have hk : bootKernel.pmm = b' := congrArg (fun r : Nat × Kernel => r.2.pmm) hr
    have hcleared := hc.isFree q
    rw [← hk, decide_eq_true ⟨le_refl q, Nat.lt_succ_self q⟩, bootKernel_pmm, isFree_allFree]
      at hcleared
    exact absurd hcleared (by decide)
  · have haligned : alignedPage bootKernel.physStart 0x1000 0 = true := by decide
    obtain ⟨q, hq⟩ := exists_firstRunFrom (m := bootKernel.pmm.pages) (n := 1) (by decide) haligned
      (freeRun_one.mpr (isFree_allFree 1240 0))
    exact hno q hq

/-! ## 3. Freeing a run -/

/-- `pmm_free_pages`. -/
def pmmFreePages (k : Kernel) (page num : Nat) : Kernel :=
  (List.range num).foldl (fun k i => pmmFreePage k (w32 (page + i))) k

/-- The pages that end up free: those of the `num` bytes from `page` on. -/
theorem isFree_pmmFreePages (k : Kernel) (page num p : Nat) :
    (pmmFreePages k page num).pmm.isFree p = true ↔ k.pmm.isFree p = true ∨
      ∃ i, i < num ∧ freedPage k.physStart (w32 (page + i)) = some p := by
  have hstart : ∀ num, (pmmFreePages k page num).physStart = k.physStart := by
    intro num
    induction num with
    | zero => rfl
    | succ num ih =>
      rw [pmmFreePages, List.range_succ, List.foldl_append, ← pmmFreePages]
      exact ih
  induction num with
  | zero => simp [pmmFreePages]
  | succ num ih =>
    rw [pmmFreePages, List.range_succ, List.foldl_append, ← pmmFreePages, List.foldl_cons,
      List.foldl_nil, pmmFreePage]
    simp only
    rw [isFree_freePage, Bool.or_eq_true, decide_eq_true_eq, hstart]
    refine (or_congr_left ih).trans (or_assoc.trans (or_congr_right ⟨?_, ?_⟩))
    · rintro (⟨i, hi, hpage⟩ | hpage)
      · exact ⟨i, by omega, hpage⟩
      · exact ⟨num, by omega, hpage⟩
    · rintro ⟨i, hi, hpage⟩
      rcases Nat.lt_or_ge i num with hlt | hge
      · exact Or.inl ⟨i, hlt, hpage⟩
      · obtain rfl : i = num := by omega
        exact Or.inr hpage

/-- A byte less than `n` behind the start of page `q` is in page `q + n - 1` only if that is page
`q`, and if the signed difference of the addresses reaches it. -/
theorem freedPage_last {base i : Nat} (hn : 0 < n) (hi : i < n) (hn' : n < 4294967296)
    (h : freedPage base (w32 (w32 (base + q * 4096) + i)) = some (q + n - 1)) :
    n = 1 ∧ q < 524288 := by
  have hdiff : sub32 (w32 (w32 (base + q * 4096) + i)) base = (q * 4096 + i) % 4294967296 := by
    unfold sub32 w32
    omega
  have hle := Nat.mod_le (q * 4096 + i) 4294967296
  unfold freedPage at h
  rw [hdiff] at h
  split at h
  · have hq := Option.some.inj h
    constructor
    · omega
    · omega
  · split at h
    · have hq := Option.some.inj h
      omega
    · cases h

/-- Freeing a page of the first 2 GB writes no word in front of the bitmap. -/
theorem freePage_front (b : Bitmap) {base page : Nat} {x : Int}
    (hpage : sub32 page base < 2147483648) (hx : x < 0) :
    (freePage b base page).word x = b.word x := by
  have hquot := tdiv_4096 page base
  rw [if_pos hpage] at hquot
  simp only [freePage, hquot]
  refine Function.update_of_ne ?_ _ _
  rw [Int.tdiv_eq_ediv_of_nonneg (by omega)]
  omega

/-- A bitmap is its bits and the words in front of it. -/
theorem Bitmap.eq_of_isFree (hwords : b'.words = b.words) (hbits : ∀ p, b'.isFree p = b.isFree p)
    (hfront : ∀ x : Int, x < 0 → b'.word x = b.word x) : b' = b := by
  obtain ⟨words, word⟩ := b
  obtain ⟨words', word'⟩ := b'
  obtain rfl : words' = words := hwords
  congr 1
  funext x
  rcases lt_or_ge x 0 with hneg | hpos
  · exact hfront x hneg
  · obtain ⟨i, rfl⟩ := Int.eq_ofNat_of_zero_le hpos
    ext j hj
    have hbit := hbits (32 * i + j)
    rw [isFree_word _ hj, isFree_word _ hj] at hbit
    rw [← BitVec.getLsbD_eq_getElem, ← BitVec.getLsbD_eq_getElem]
    exact hbit

/-- The last page of a run comes back only if the run is that page. -/
theorem Clears.last_freed {p : Bitmap} {k : Kernel} (hc : Clears p k.pmm q n)
    (hrun : FreeRun p.isFree q n) (hn : 0 < n) (hn' : n < 4294967296)
    (hrest : (pmmFreePages k (w32 (k.physStart + q * 4096)) n).pmm = p) : n = 1 ∧ q < 524288 := by
  have hbit := isFree_pmmFreePages k (w32 (k.physStart + q * 4096)) n (q + n - 1)
  rw [hrest, hrun (q + n - 1) (by omega) (by omega), hc.isFree, decide_eq_true (by omega)] at hbit
  obtain hold | ⟨i, hi, hfreed⟩ := hbit.mp rfl
  · simp at hold
  · exact freedPage_last hn hi hn' hfreed

/-- A page of the first 2 GB comes back. -/
theorem Clears.freePage_one {base : Nat} (hc : Clears b b' q 1) (hrun : FreeRun b.isFree q 1)
    (hlow : q < 524288) : freePage b' base (w32 (base + q * 4096)) = b := by
  have hdiff : sub32 (w32 (base + q * 4096)) base = q * 4096 := by
    unfold sub32 w32
    omega
  have hfreed : freedPage base (w32 (base + q * 4096)) = some q := by
    unfold freedPage
    rw [hdiff, if_pos (by omega)]
    congr 1
    omega
  refine Bitmap.eq_of_isFree hc.words (fun p => ?_) fun x hx => ?_
  · rw [isFree_freePage, hfreed, hc.isFree]
    by_cases hpq : p = q
    · subst hpq
      rw [freeRun_one.mp hrun]
      simp
    · have hother : ¬ some q = some p := fun h => hpq (Option.some.inj h).symm
      rw [decide_eq_false (by omega), decide_eq_false hother]
      simp
  · rw [← hc.outside x (Or.inl hx)]
    exact freePage_front b' (by omega) hx

/-- **When `pmm_free_pages` takes back what `pmm_allocate_pages` gave**: when that was one page, and
the page lies in the first 2 GB of the area. -/
theorem pmmFreePages_restores_iff (k : Kernel) {n : UInt32} (hn : n ≠ 0)
    (hp : (pmmAllocatePages k n.toNat).1 ≠ 0) :
    pmmFreePages (pmmAllocatePages k n.toNat).2 (pmmAllocatePages k n.toNat).1 n.toNat = k ↔
      n = 1 ∧ ∀ q, FirstRun k.pmm.isFree 1 k.pmm.pages q → q < 524288 := by
  have hpos : 0 < n.toNat := Nat.pos_of_ne_zero fun h0 => hn (UInt32.toNat_inj.mp h0)
  have hlt := n.toNat_lt
  have hfit := firstFit_allocates k.pmm hpos hlt
  have heq : pmmAllocatePages k n.toNat = (startAddr k.physStart (firstFit k.pmm n.toNat).1,
      { k with pmm := (firstFit k.pmm n.toNat).2 }) := by
    simp only [pmmAllocatePages, allocatePages_eq]
  rw [heq] at hp ⊢
  clear heq
  generalize firstFit k.pmm n.toNat = r at hp hfit ⊢
  obtain ⟨_ | q, b'⟩ := r
  · exact absurd rfl hp
  obtain ⟨hrun, hc⟩ := hfit
  simp only [startAddr]
  constructor
  · intro hrest
    obtain ⟨hone, hlow⟩ := Clears.last_freed (k := { k with pmm := b' }) hc hrun.run hpos hlt
      (congrArg Kernel.pmm hrest)
    refine ⟨UInt32.toNat_inj.mp hone, fun q' hq' => ?_⟩
    rw [hone] at hrun
    exact (hrun.unique hq') ▸ hlow
  · rintro ⟨rfl, hlow⟩
    have hone : pmmFreePages { k with pmm := b' } (w32 (k.physStart + q * 4096)) (1 : UInt32).toNat =
        { k with pmm := freePage b' k.physStart (w32 (k.physStart + q * 4096)) } := by
      rw [UInt32.toNat_one, pmmFreePages, List.range_one, List.foldl_cons, List.foldl_nil,
        Nat.add_zero, w32_of_lt (w32_lt _)]
      rfl
    rw [hone, hc.freePage_one hrun.run (hlow q hrun)]

/-- One page right after the boot. -/
theorem pmmFreePages_restores_one :
    pmmFreePages (pmmAllocatePages bootKernel (1 : UInt32).toNat).2
      (pmmAllocatePages bootKernel (1 : UInt32).toNat).1 (1 : UInt32).toNat = bootKernel := by
  refine (pmmFreePages_restores_iff bootKernel (by decide) (by decide +kernel)).mpr
    ⟨rfl, fun q hq => ?_⟩
  have hin := hq.inside
  have hpages : bootKernel.pmm.pages = 39680 := rfl
  omega

/-- Two pages right after the boot: the second one is not given back. -/
theorem pmmFreePages_keeps_second :
    let r := pmmAllocatePages bootKernel 2
    r.1 = 0x76500000 ∧ (pmmFreePages r.2 r.1 2).pmm.isFree 1 = false ∧
      pmmFreePages r.2 r.1 2 ≠ bootKernel := by
  have hbit : (pmmFreePages (pmmAllocatePages bootKernel 2).2 (pmmAllocatePages bootKernel 2).1
      2).pmm.isFree 1 = false := by
    decide +kernel
  refine ⟨by decide +kernel, hbit, fun heq => ?_⟩
  rw [heq, bootKernel_pmm, isFree_allFree] at hbit
  exact absurd hbit (by decide)

end AndixOs.Mm
