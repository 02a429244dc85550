/-
# Page bitmaps

`pmm.c`, `mmm.c` and `umm.c` each keep a bitmap of pages, one bit a page, 1 for a free page, and
each has its own copy of the same search: over the words, over the bits of a word that is not
zero, counting the free pages seen in a row.  `allocatePages` is that search and the marking loop
after it; `pmmFreePage` sets a bit again.

`allocatePages_spec` says what the search returns and what it leaves.
-/
import AndixOs.Lib.FirstRun
import AndixOs.Lib.Mem32
import Mathlib.Logic.Function.Basic

namespace AndixOs.Mm

/-- The size of a page. -/
def smallPageSize : Nat := 0x1000

/-! ## 1. The bitmap -/

/-- `1 << j` as the ARM shift computes it: 0 from 32 on. -/
def bit (j : Nat) : BitVec 32 := 1#32 <<< j

/-- A bitmap of `words` words and the memory around it: a page number that is out of range leads
to a word outside. -/
structure Bitmap where
  words : Nat
  word : Int → BitVec 32

/-- The bit of page `p`. -/
def Bitmap.isFree (b : Bitmap) (p : Nat) : Bool := (b.word (p / 32 : Nat)).getLsbD (p % 32)

/-- The pages a bitmap has. -/
def Bitmap.pages (b : Bitmap) : Nat := 32 * b.words

theorem Bitmap.pages_of_words {b : Bitmap} {n : Nat} (h : b.words = n) : b.pages = 32 * n := by
  rw [Bitmap.pages, h]

/-- The bitmap after `pmm_init` or `mmm_init`: every page is free. -/
def Bitmap.allFree (words : Nat) : Bitmap := ⟨words, fun _ => 0xFFFFFFFF#32⟩

/-! ## 2. The search -/

/-- The locals of the search: the free pages seen in a row, and where they start. -/
structure Search where
  k : Nat
  starti : Nat
  startj : Nat

/-- How a loop of the search ends: at its bound, or in the middle at the last page wanted. -/
inductive Scan where
  | more (s : Search)
  | found (s : Search) (i j : Nat)

/-- The inner loop, with `left` bits of word `i` to go. -/
def scanBits (b : Bitmap) (numpages i : Nat) : Nat → Search → Scan
  | 0, s => .more s
  | left + 1, s =>
    if b.word i &&& bit (31 - left) ≠ 0 then
      let s := if s.k = 0 then ⟨0, i, 31 - left⟩ else s
      if s.k = sub32 numpages 1 then .found s i (31 - left)
      else scanBits b numpages i left { s with k := s.k + 1 }
    else scanBits b numpages i left { s with k := 0 }

/-- The outer loop, with `left` words to go. -/
def scanWords (b : Bitmap) (numpages : Nat) : Nat → Search → Scan
  | 0, s => .more s
  | left + 1, s =>
    if b.word (b.words - (left + 1) : Nat) ≠ 0 then
      match scanBits b numpages (b.words - (left + 1)) 32 s with
      | .more s => scanWords b numpages left s
      | .found s i j => .found s i j
    else scanWords b numpages left { s with k := 0 }

/-- The innermost marking loop: the bits `from_ … to_` of a word are cleared. -/
def markBits (w : BitVec 32) (from_ to_ : Nat) : BitVec 32 :=
  (List.range' from_ (to_ + 1 - from_)).foldl (fun w tj => w &&& ~~~(bit tj)) w

/-- The marking loop's body for word `ti`. -/
def markWord (starti startj i j : Nat) (word : Int → BitVec 32) (ti : Nat) : Int → BitVec 32 :=
  Function.update word ti
    (markBits (word ti) (if ti = starti then startj else 0) (if ti = i then j else 32))

/-- The marking loop from page `(starti, startj)` to page `(i, j)`. -/
def markPages (word : Int → BitVec 32) (starti startj i j : Nat) : Int → BitVec 32 :=
  (List.range' starti (i + 1 - starti)).foldl (markWord starti startj i j) word

/-- The search with its marking: the address of the run, 0 for `NULL`. -/
def allocatePages (b : Bitmap) (base numpages : Nat) : Nat × Bitmap :=
  match scanWords b numpages b.words ⟨0, 0, 0⟩ with
  | .more _ => (0, b)
  | .found s i j =>
    (w32 (base + (s.starti * 32 + s.startj) * 4096),
      { b with word := markPages b.word s.starti s.startj i j })

/-- The search of `pmm_allocate_page` and `mmm_allocate_page`: the first free bit. -/
def allocatePage (b : Bitmap) (base : Nat) : Nat × Bitmap :=
  match (List.range b.words).find? fun (i : Nat) => b.word i != 0 with
  | none => (0, b)
  | some i =>
    match (List.range 32).find? fun j => b.word i &&& bit j != 0 with
    | none => (0, b)
    | some j =>
      (w32 (base + (i * 32 + j) * 4096),
        { b with word := Function.update b.word i (b.word i &&& ~~~(bit j)) })

/-- The inner loop of `pmm_allocate_aligned_pages`: a run starts only where `aligned` lets it, and
the test for its end is the `else` of the test for its start. -/
def scanAlignedBits (b : Bitmap) (aligned : Nat → Bool) (numpages i : Nat) : Nat → Search → Scan
  | 0, s => .more s
  | left + 1, s =>
    if b.word i &&& bit (31 - left) ≠ 0 then
      if s.k = 0 then
        if aligned (32 * i + (31 - left)) then
          scanAlignedBits b aligned numpages i left ⟨1, i, 31 - left⟩
        else scanAlignedBits b aligned numpages i left s
      else if s.k = sub32 numpages 1 then .found s i (31 - left)
      else scanAlignedBits b aligned numpages i left { s with k := s.k + 1 }
    else scanAlignedBits b aligned numpages i left { s with k := 0 }

/-- The outer loop of `pmm_allocate_aligned_pages`. -/
def scanAlignedWords (b : Bitmap) (aligned : Nat → Bool) (numpages : Nat) : Nat → Search → Scan
  | 0, s => .more s
  | left + 1, s =>
    if b.word (b.words - (left + 1) : Nat) ≠ 0 then
      match scanAlignedBits b aligned numpages (b.words - (left + 1)) 32 s with
      | .more s => scanAlignedWords b aligned numpages left s
      | .found s i j => .found s i j
    else scanAlignedWords b aligned numpages left { s with k := 0 }

/-- The test of `pmm_allocate_aligned_pages` for page `p`: the padding is `align` itself. -/
def startsAligned (base align p : Nat) : Bool :=
  sub32 align (w32 (base + p * 4096) &&& sub32 align 1) == align

/-- The search of `pmm_allocate_aligned_pages` with its marking. -/
def allocateAlignedPages (b : Bitmap) (base numpages align : Nat) : Nat × Bitmap :=
  match scanAlignedWords b (startsAligned base align) numpages b.words ⟨0, 0, 0⟩ with
  | .more _ => (0, b)
  | .found s i j =>
    (w32 (base + (s.starti * 32 + s.startj) * 4096),
      { b with word := markPages b.word s.starti s.startj i j })

/-- `pmm_free_page`: the difference of the pointers is signed, and so are its quotients. -/
def freePage (b : Bitmap) (base page : Nat) : Bitmap :=
  let diff : Int := (BitVec.ofNat 32 (sub32 page base)).toInt
  let offset := diff.tdiv 4096
  let i := offset.tdiv 32
  let j := offset - i * 32
  { b with word := Function.update b.word i (b.word i ||| (if j < 0 then 0 else bit j.toNat)) }

/-! ## 3. Bits -/

theorem getLsbD_bit (j r : Nat) : (bit j).getLsbD r = (decide (r < 32) && decide (r = j)) := by
  simp only [bit, BitVec.getLsbD_shiftLeft, BitVec.getLsbD_one]
  rcases Nat.lt_trichotomy r j with h | h | h
  · have : r ≠ j := by omega
    simp [h, this]
  · subst h
    simp
  · have h1 : r ≠ j := by omega
    have h2 : ¬ (r - j = 0) := by omega
    simp [h1, h2]

/-- The test of a bit. -/
theorem and_bit_ne_zero {w : BitVec 32} {j : Nat} (hj : j < 32) :
    w &&& bit j ≠ 0 ↔ w.getLsbD j = true := by
  constructor
  · intro h
    by_contra hw
    apply h
    ext r hr
    rw [← BitVec.getLsbD_eq_getElem, BitVec.getLsbD_and, getLsbD_bit]
    by_cases hrj : r = j
    · subst hrj
      simp [Bool.eq_false_iff.mpr hw]
    · simp [hrj]
  · intro hw h
    have hb : (w &&& bit j).getLsbD j = true := by
      rw [BitVec.getLsbD_and, getLsbD_bit, hw]
      simp [hj]
    rw [h, show (0 : BitVec 32).getLsbD j = false from BitVec.getLsbD_zero] at hb
    exact Bool.false_ne_true hb

theorem getLsbD_markBits (w : BitVec 32) (from_ to_ r : Nat) :
    (markBits w from_ to_).getLsbD r =
      (w.getLsbD r && !(decide (from_ ≤ r) && decide (r ≤ to_))) := by
  unfold markBits
  generalize hn : to_ + 1 - from_ = n
  induction n generalizing w from_ with
  | zero =>
    have : ¬ (from_ ≤ r ∧ r ≤ to_) := by omega
    rw [List.range'_zero, List.foldl_nil, ← Bool.decide_and, decide_eq_false this]
    simp
  | succ n ih =>
    rw [List.range'_succ, List.foldl_cons, ih _ _ (by omega), BitVec.getLsbD_and,
      BitVec.getLsbD_not, getLsbD_bit]
    by_cases hr : r < 32
    · by_cases hrf : r = from_
      · subst hrf
        have : r ≤ to_ := by omega
        simp [hr, this]
      · have : decide (from_ + 1 ≤ r) = decide (from_ ≤ r) := by
          rw [decide_eq_decide]
          omega
        rw [this, decide_eq_true hr, decide_eq_false hrf]
        simp
    · simp [BitVec.getLsbD_of_ge w r (by omega)]

/-- The page behind bit `j` of word `i`. -/
theorem isFree_word (b : Bitmap) {i j : Nat} (hj : j < 32) :
    b.isFree (32 * i + j) = (b.word i).getLsbD j := by
  unfold Bitmap.isFree
  rw [show (32 * i + j) / 32 = i by omega, show (32 * i + j) % 32 = j by omega]

theorem isFree_allFree (words p : Nat) : (Bitmap.allFree words).isFree p = true := by
  have h : (0xFFFFFFFF#32 : BitVec 32) = BitVec.allOnes 32 := by decide
  unfold Bitmap.isFree Bitmap.allFree
  rw [h, BitVec.getLsbD_allOnes, decide_eq_true (show p % 32 < 32 by omega)]

/-! ## 4. What the search finds -/

/-- The locals of the search and the page they have come to. -/
structure At (b : Bitmap) (n p : Nat) (s : Search) : Prop where
  scanning : Scanning b.isFree n p s.k
  start : s.k ≠ 0 → 32 * s.starti + s.startj + s.k = p
  bit : s.k ≠ 0 → s.startj < 32

/-- What the search knows when it is found: `p` is the first page of the run. -/
structure FoundAt (b : Bitmap) (n : Nat) (s : Search) (i j : Nat) : Prop where
  first : FirstRun b.isFree n b.pages (32 * s.starti + s.startj)
  last : 32 * i + j + 1 = 32 * s.starti + s.startj + n
  startBit : s.startj < 32
  lastBit : j < 32

theorem sub32_one {n : Nat} (hn : 0 < n) (hn' : n < 4294967296) : sub32 n 1 = n - 1 :=
  sub32_of_le hn hn'

/-- The inner loop, from bit `32 - left` on. -/
theorem scanBits_spec {b : Bitmap} {n i : Nat} (hn : 0 < n) (hn' : n < 4294967296)
    (hi : i < b.words) :
    ∀ (left : Nat) {s : Search}, left ≤ 32 → At b n (32 * i + (32 - left)) s →
      match scanBits b n i left s with
      | .more s' => At b n (32 * i + 32) s'
      | .found s' i' j' => FoundAt b n s' i' j'
  | 0, s, _, h => h
  | left + 1, s, hl, h => by
    have hj : 31 - left < 32 := by omega
    have hp : 32 * i + (32 - (left + 1)) = 32 * i + (31 - left) := by omega
    have hp' : 32 * i + (31 - left) + 1 = 32 * i + (32 - left) := by omega
    rw [hp] at h
    rw [scanBits]
    by_cases hw : b.word i &&& bit (31 - left) ≠ 0
    · rw [if_pos hw, sub32_one hn hn']
      have hfree : b.isFree (32 * i + (31 - left)) = true := by
        rw [isFree_word b hj]
        exact (and_bit_ne_zero hj).mp hw
      -- the start of the run, fresh or old
      obtain ⟨s1, hs1, hk1, hst, hbt⟩ : ∃ s1 : Search,
          (if s.k = 0 then (⟨0, i, 31 - left⟩ : Search) else s) = s1 ∧ s1.k = s.k ∧
            32 * s1.starti + s1.startj + s.k = 32 * i + (31 - left) ∧ s1.startj < 32 := by
        by_cases hk : s.k = 0
        · exact ⟨_, if_pos hk, hk.symm, by simp only [hk]; omega, hj⟩
        · exact ⟨_, if_neg hk, rfl, h.start hk, h.bit hk⟩
      simp only [hs1, hk1]
      by_cases hk : s.k = n - 1
      · rw [if_pos hk]
        have hf := h.scanning.found hfree (m := b.pages) (by omega)
          (by have : b.pages = 32 * b.words := rfl; omega)
        refine ⟨?_, by omega, hbt, hj⟩
        rw [show 32 * s1.starti + s1.startj = 32 * i + (31 - left) - s.k by omega]
        exact hf
      · rw [if_neg hk]
        apply scanBits_spec hn hn' hi left (by omega)
        have hlt : s.k + 1 < n := by
          have := h.scanning.none_yet (32 * i + (31 - left) - s.k)
          by_contra hge
          have hkn : n ≤ s.k := by omega
          exact this (by have := h.scanning.count; omega) (h.scanning.recent.shorten hkn)
        refine ⟨?_, fun _ => by simp only; omega, fun _ => hbt⟩
        rw [← hp']
        exact h.scanning.longer hfree hlt
    · rw [if_neg hw]
      apply scanBits_spec hn hn' hi left (by omega)
      have hbusy : b.isFree (32 * i + (31 - left)) = false := by
        rw [isFree_word b hj, ← Bool.not_eq_true]
        exact fun hb => hw ((and_bit_ne_zero hj).mpr hb)
      refine ⟨?_, fun h0 => absurd rfl h0, fun h0 => absurd rfl h0⟩
      rw [← hp']
      exact h.scanning.busy hn hbusy

/-- A word without free pages is passed over. -/
theorem At.zeroWord {b : Bitmap} {n i : Nat} {s : Search} (hn : 0 < n) (h : At b n (32 * i) s)
    (hw : b.word i = 0) : At b n (32 * i + 32) { s with k := 0 } := by
  have hbusy : ∀ j, j < 32 → b.isFree (32 * i + j) = false := by
    intro j hj
    rw [isFree_word b hj, hw]
    exact BitVec.getLsbD_zero
  have hscan : ∀ j, j < 32 → Scanning b.isFree n (32 * i + (j + 1)) 0 := by
    intro j
    induction j with
    | zero => exact fun hj => h.scanning.busy hn (hbusy 0 hj)
    | succ j ih => exact fun hj => (ih (by omega)).busy hn (hbusy (j + 1) hj)
  exact ⟨hscan 31 (by omega), fun h0 => absurd rfl h0, fun h0 => absurd rfl h0⟩

/-- The outer loop. -/
theorem scanWords_spec {b : Bitmap} {n : Nat} (hn : 0 < n) (hn' : n < 4294967296) :
    ∀ (left : Nat) {s : Search}, left ≤ b.words → At b n (32 * (b.words - left)) s →
      match scanWords b n left s with
      | .more s' => At b n b.pages s'
      | .found s' i' j' => FoundAt b n s' i' j'
  | 0, s, _, h => h
  | left + 1, s, hl, h => by
    have hnext : 32 * (b.words - (left + 1)) + 32 = 32 * (b.words - left) := by omega
    rw [scanWords]
    by_cases hw : b.word (b.words - (left + 1) : Nat) ≠ 0
    · rw [if_pos hw]
      have hin := scanBits_spec hn hn' (i := b.words - (left + 1)) (by omega) 32
        (le_refl 32) h
      cases hr : scanBits b n (b.words - (left + 1)) 32 s with
      | more s' =>
        rw [hr] at hin
        exact scanWords_spec hn hn' left (by omega) (hnext ▸ hin)
      | found s' i' j' =>
        rw [hr] at hin
        exact hin
    · rw [if_neg hw]
      exact scanWords_spec hn hn' left (by omega) (hnext ▸ h.zeroWord hn (not_not.mp hw))

/-! ## 5. What the marking clears -/

/-- The words the marking loop has been through are cleared inside the run, the others are not
touched. -/
theorem foldl_markWord (starti startj i j : Nat) :
    ∀ (len ti : Nat) (word : Int → BitVec 32) (x : Int),
      (List.range' ti len).foldl (markWord starti startj i j) word x =
        if (ti : Int) ≤ x ∧ x < ti + len then
          markBits (word x) (if x = starti then startj else 0) (if x = i then j else 32)
        else word x
  | 0, ti, word, x => by
    rw [List.range'_zero, List.foldl_nil, if_neg (by omega)]
  | len + 1, ti, word, x => by
    rw [List.range'_succ, List.foldl_cons, foldl_markWord starti startj i j len (ti + 1)]
    by_cases hx : x = ti
    · subst hx
      rw [if_neg (by omega), if_pos (by omega), markWord, Function.update_self]
      simp only [Nat.cast_inj]
    · rw [markWord, Function.update_of_ne hx]
      by_cases hr : (ti : Int) ≤ x ∧ x < ti + (len + 1 : Nat)
      · rw [if_pos hr, if_pos (by omega)]
      · rw [if_neg hr, if_neg (by omega)]

/-- **The marking clears the pages of the run and no others.** -/
theorem getLsbD_markPages (word : Int → BitVec 32) {starti startj i j : Nat} (hj : startj < 32)
    (hle : 32 * starti + startj ≤ 32 * i + j) (hj' : j < 32) (t r : Nat) (hr : r < 32) :
    (markPages word starti startj i j t).getLsbD r =
      ((word t).getLsbD r &&
        !decide (32 * starti + startj ≤ 32 * t + r ∧ 32 * t + r ≤ 32 * i + j)) := by
  rw [markPages, foldl_markWord]
  by_cases ht : starti ≤ t ∧ t ≤ i
  · rw [if_pos (by omega), getLsbD_markBits, ← Bool.decide_and]
    congr 2
    rw [decide_eq_decide]
    simp only [Nat.cast_inj]
    split <;> split <;> omega
  · rw [if_neg (by omega), decide_eq_false (by omega)]
    simp

theorem markPages_outside (word : Int → BitVec 32) {starti startj i j : Nat} {x : Int}
    (h : x < starti ∨ (i : Int) < x) : markPages word starti startj i j x = word x := by
  rw [markPages, foldl_markWord, if_neg (by omega)]

/-- The bits of the run are cleared and no others. -/
theorem isFree_markPages (b : Bitmap) {n starti startj i j : Nat} (hn : 0 < n) (hj : startj < 32)
    (hj' : j < 32) (hlast : 32 * i + j + 1 = 32 * starti + startj + n) (p : Nat) :
    Bitmap.isFree { b with word := markPages b.word starti startj i j } p =
      (b.isFree p && !decide (32 * starti + startj ≤ p ∧ p < 32 * starti + startj + n)) := by
  unfold Bitmap.isFree
  rw [getLsbD_markPages b.word hj (by omega) hj' _ _ (by omega)]
  congr 2
  rw [decide_eq_decide]
  omega

/-! ## 6. The allocator as a whole -/

theorem scanWords_start (b : Bitmap) {n : Nat} (hn : 0 < n) :
    At b n (32 * (b.words - b.words)) ⟨0, 0, 0⟩ :=
  ⟨by rw [Nat.sub_self]; exact Scanning.start hn, fun h => absurd rfl h, fun h => absurd rfl h⟩

/-- **What the search returns.**  Either there is no run of free pages and nothing changes, or the
address is that of the first run, and exactly its pages are marked. -/
theorem allocatePages_spec (b : Bitmap) (base : Nat) {n : Nat} (hn : 0 < n)
    (hn' : n < 4294967296) :
    (allocatePages b base n = (0, b) ∧ ∀ q, ¬ FirstRun b.isFree n b.pages q) ∨
    ∃ q b', allocatePages b base n = (w32 (base + q * 4096), b') ∧
      FirstRun b.isFree n b.pages q ∧ b'.words = b.words ∧
      (∀ p, b'.isFree p = (b.isFree p && !decide (q ≤ p ∧ p < q + n))) ∧
      (∀ x : Int, x < 0 ∨ b.words ≤ x → b'.word x = b.word x) := by
  have hspec := scanWords_spec hn hn' b.words (le_refl b.words) (scanWords_start b hn)
  unfold allocatePages
  cases hr : scanWords b n b.words ⟨0, 0, 0⟩ with
  | more s =>
    rw [hr] at hspec
    exact Or.inl ⟨rfl, hspec.scanning.exhausted⟩
  | found s i j =>
    rw [hr] at hspec
    obtain ⟨hfirst, hlast, hsj, hj⟩ := hspec
    refine Or.inr ⟨32 * s.starti + s.startj, { b with word := markPages b.word s.starti s.startj i j },
      ?_, hfirst, rfl, ?_, ?_⟩
    · simp only [Nat.mul_comm s.starti 32]
    · exact isFree_markPages b hn hsj hj hlast
    · intro x hx
      have hin := hfirst.inside
      have : b.pages = 32 * b.words := rfl
      exact markPages_outside b.word (by omega)

/-- No pages are never found. -/
theorem scanBits_zero (b : Bitmap) (i : Nat) :
    ∀ (left : Nat) {s : Search} (bound : Nat), s.k + left ≤ bound → bound < 4294967295 →
      ∃ s', scanBits b 0 i left s = .more s' ∧ s'.k ≤ bound
  | 0, s, bound, h, _ => ⟨s, rfl, by omega⟩
  | left + 1, s, bound, h, hb => by
    rw [scanBits]
    have hsub : sub32 0 1 = 4294967295 := rfl
    split
    · have hk : (if s.k = 0 then (⟨0, i, 31 - left⟩ : Search) else s).k = s.k := by
        split
        · rename_i h0
          exact h0.symm
        · rfl
      rw [hsub, if_neg (by rw [hk]; omega)]
      exact scanBits_zero b i left bound (by simp only [hk]; omega) hb
    · exact scanBits_zero b i left bound (by simp only; omega) hb

theorem scanWords_zero (b : Bitmap) :
    ∀ (left : Nat) {s : Search} (bound : Nat), s.k + 32 * left ≤ bound → bound < 4294967295 →
      ∃ s', scanWords b 0 left s = .more s'
  | 0, s, _, _, _ => ⟨s, rfl⟩
  | left + 1, s, bound, h, hb => by
    rw [scanWords]
    split
    · obtain ⟨s', hs, hk⟩ := scanBits_zero b (b.words - (left + 1)) 32 (s := s) (s.k + 32)
        (le_refl _) (by omega)
      rw [hs]
      exact scanWords_zero b left bound (by omega) hb
    · exact scanWords_zero b left bound (by simp only; omega) hb

/-- A request for no pages fails. -/
theorem allocatePages_zero {b : Bitmap} (base : Nat) (hb : b.pages < 4294967295) :
    allocatePages b base 0 = (0, b) := by
  obtain ⟨s', hs⟩ := scanWords_zero b b.words (s := ⟨0, 0, 0⟩) b.pages
    (by unfold Bitmap.pages; simp only; omega) hb
  unfold allocatePages
  rw [hs]

/-! ## 7. Single pages, and aligned runs -/

/-- **What the search for a single page returns.** -/
theorem allocatePage_spec (b : Bitmap) (base : Nat) :
    allocatePage b base = (0, b) ∨
    ∃ q b', allocatePage b base = (w32 (base + q * 4096), b') ∧ q < b.pages ∧
      b.isFree q = true ∧ b'.words = b.words ∧
      ∀ p, b'.isFree p = (b.isFree p && !decide (p = q)) := by
  unfold allocatePage
  cases hi : (List.range b.words).find? fun (i : Nat) => b.word i != 0 with
  | none => exact Or.inl rfl
  | some i =>
    have hlt := List.mem_range.mp (List.mem_of_find?_eq_some hi)
    cases hj : (List.range 32).find? fun j => b.word i &&& bit j != 0 with
    | none => exact Or.inl (by simp only [hj])
    | some j =>
      have hj32 := List.mem_range.mp (List.mem_of_find?_eq_some hj)
      have hbit : b.word i &&& bit j ≠ 0 := by
        have := List.find?_some hj
        exact bne_iff_ne.mp this
      refine Or.inr ⟨32 * i + j,
        ⟨b.words, Function.update b.word i (b.word i &&& ~~~(bit j))⟩, ?_, ?_, ?_, rfl, ?_⟩
      · simp only [hj, Nat.mul_comm i 32]
      · unfold Bitmap.pages
        omega
      · rw [isFree_word b hj32]
        exact (and_bit_ne_zero hj32).mp hbit
      · intro p
        simp only [Bitmap.isFree]
        by_cases hp : p / 32 = i
        · subst hp
          rw [Function.update_self, BitVec.getLsbD_and, BitVec.getLsbD_not, getLsbD_bit,
            decide_eq_true (show p % 32 < 32 by omega), Bool.true_and, Bool.true_and]
          congr 2
          rw [decide_eq_decide]
          omega
        · rw [Function.update_of_ne (by omega), decide_eq_false (by omega)]
          simp

/-- What the aligned search knows before page `p`: the last `k` pages are free. -/
structure Counting (b : Bitmap) (p : Nat) (s : Search) : Prop where
  count : s.k ≤ p
  recent : FreeRun b.isFree (p - s.k) s.k
  start : s.k ≠ 0 → 32 * s.starti + s.startj + s.k = p
  bit : s.k ≠ 0 → s.startj < 32

theorem Counting.reset {b : Bitmap} {p : Nat} {s : Search} : Counting b p { s with k := 0 } :=
  ⟨Nat.zero_le p, fun r h1 h2 => absurd h1 (by simp only [Nat.sub_zero, Nat.add_zero] at h2 ⊢; omega),
    fun h => absurd rfl h, fun h => absurd rfl h⟩

/-- A free page after the last `k`. -/
theorem Counting.run_succ {b : Bitmap} {p : Nat} {s : Search} (h : Counting b p s)
    (hp : b.isFree p = true) : FreeRun b.isFree (p - s.k) (s.k + 1) := by
  intro r h1 h2
  have hc := h.count
  rcases Nat.lt_or_ge r p with hlt | hge
  · exact h.recent r h1 (by omega)
  · rw [show r = p by omega]
    exact hp

/-- A found run: free, inside, and of the length asked for. -/
structure FoundRun (b : Bitmap) (n : Nat) (s : Search) (i j : Nat) : Prop where
  run : FreeRun b.isFree (32 * s.starti + s.startj) n
  last : 32 * i + j + 1 = 32 * s.starti + s.startj + n
  word : i < b.words
  startBit : s.startj < 32
  lastBit : j < 32

theorem scanAlignedBits_spec {b : Bitmap} (aligned : Nat → Bool) {numpages n i : Nat} (hn : 0 < n)
    (hn' : sub32 numpages 1 = n - 1) (hi : i < b.words) :
    ∀ (left : Nat) {s : Search}, left ≤ 32 → Counting b (32 * i + (32 - left)) s →
      match scanAlignedBits b aligned numpages i left s with
      | .more s' => Counting b (32 * i + 32) s'
      | .found s' i' j' => FoundRun b n s' i' j'
  | 0, s, _, h => h
  | left + 1, s, hl, h => by
    have hj : 31 - left < 32 := by omega
    have hp : 32 * i + (32 - (left + 1)) = 32 * i + (31 - left) := by omega
    have hp' : 32 * i + (32 - left) = 32 * i + (31 - left) + 1 := by omega
    rw [hp] at h
    rw [scanAlignedBits]
    by_cases hw : b.word i &&& bit (31 - left) ≠ 0
    · rw [if_pos hw]
      have hfree : b.isFree (32 * i + (31 - left)) = true := by
        rw [isFree_word b hj]
        exact (and_bit_ne_zero hj).mp hw
      have hrun := h.run_succ hfree
      have hc := h.count
      by_cases hk : s.k = 0
      · rw [if_pos hk]
        by_cases hal : aligned (32 * i + (31 - left)) = true
        · -- the run starts here
          rw [if_pos hal]
          apply scanAlignedBits_spec aligned hn hn' hi left (by omega)
          rw [hp']
          refine ⟨by simp only; omega, ?_, fun _ => by simp only, fun _ => hj⟩
          rw [hk] at hrun
          exact hrun
        · rw [if_neg hal]
          apply scanAlignedBits_spec aligned hn hn' hi left (by omega)
          have : s = { s with k := 0 } := by
            rw [← hk]
          rw [this]
          exact Counting.reset
      · rw [if_neg hk, hn']
        have hst := h.start hk
        by_cases hend : s.k = n - 1
        · rw [if_pos hend]
          refine ⟨?_, by omega, hi, h.bit hk, hj⟩
          rw [show 32 * s.starti + s.startj = 32 * i + (31 - left) - s.k by omega,
            show n = s.k + 1 by omega]
          exact hrun
        · rw [if_neg hend]
          apply scanAlignedBits_spec aligned hn hn' hi left (by omega)
          rw [hp']
          refine ⟨by simp only; omega, ?_, fun _ => by simp only; omega, fun _ => h.bit hk⟩
          simp only
          rw [show 32 * i + (31 - left) + 1 - (s.k + 1) = 32 * i + (31 - left) - s.k by omega]
          exact hrun
    · rw [if_neg hw]
      exact scanAlignedBits_spec aligned hn hn' hi left (by omega) Counting.reset

theorem scanAlignedWords_spec {b : Bitmap} (aligned : Nat → Bool) {numpages n : Nat} (hn : 0 < n)
    (hn' : sub32 numpages 1 = n - 1) :
    ∀ (left : Nat) {s : Search}, left ≤ b.words → Counting b (32 * (b.words - left)) s →
      match scanAlignedWords b aligned numpages left s with
      | .more _ => True
      | .found s' i' j' => FoundRun b n s' i' j'
  | 0, _, _, _ => trivial
  | left + 1, s, hl, h => by
    have hnext : 32 * (b.words - (left + 1)) + 32 = 32 * (b.words - left) := by omega
    rw [scanAlignedWords]
    by_cases hw : b.word (b.words - (left + 1) : Nat) ≠ 0
    · rw [if_pos hw]
      have hin := scanAlignedBits_spec aligned hn hn' (i := b.words - (left + 1))
        (by omega) 32 (le_refl 32) h
      cases hr : scanAlignedBits b aligned numpages (b.words - (left + 1)) 32 s with
      | more s' =>
        rw [hr] at hin
        exact scanAlignedWords_spec aligned hn hn' left (by omega) (hnext ▸ hin)
      | found s' i' j' =>
        rw [hr] at hin
        exact hin
    · rw [if_neg hw]
      exact scanAlignedWords_spec aligned hn hn' left (by omega) Counting.reset

/-- **What the aligned search returns**: nothing, or a run of free pages that it has marked. -/
theorem allocateAlignedPages_spec (b : Bitmap) (base align : Nat) {n : Nat} (hn : 0 < n)
    (hn' : n < 4294967296) :
    allocateAlignedPages b base n align = (0, b) ∨
    ∃ q b', allocateAlignedPages b base n align = (w32 (base + q * 4096), b') ∧
      q + n ≤ b.pages ∧ FreeRun b.isFree q n ∧ b'.words = b.words ∧
      ∀ p, b'.isFree p = (b.isFree p && !decide (q ≤ p ∧ p < q + n)) := by
  have hspec := scanAlignedWords_spec (startsAligned base align) hn (sub32_one hn hn') b.words
    (le_refl b.words) (Counting.reset (s := ⟨0, 0, 0⟩))
  unfold allocateAlignedPages
  cases hr : scanAlignedWords b (startsAligned base align) n b.words ⟨0, 0, 0⟩ with
  | more s => exact Or.inl rfl
  | found s i j =>
    rw [hr] at hspec
    obtain ⟨hrun, hlast, hword, hsj, hj⟩ := hspec
    refine Or.inr ⟨32 * s.starti + s.startj, { b with word := markPages b.word s.starti s.startj i j },
      ?_, ?_, hrun, rfl, ?_⟩
    · simp only [Nat.mul_comm s.starti 32]
    · unfold Bitmap.pages
      omega
    · exact isFree_markPages b hn hsj hj hlast

/-- A request for no page finds none: the count never reaches `numpages - 1`. -/
theorem allocateAlignedPages_zero {b : Bitmap} (base align : Nat) (hb : b.pages < 4294967296) :
    allocateAlignedPages b base 0 align = (0, b) := by
  have hspec := scanAlignedWords_spec (startsAligned base align) (n := 4294967296) (by decide)
    (show sub32 0 1 = 4294967296 - 1 by decide) b.words (le_refl b.words)
    (Counting.reset (s := ⟨0, 0, 0⟩))
  unfold allocateAlignedPages
  cases hr : scanAlignedWords b (startsAligned base align) 0 b.words ⟨0, 0, 0⟩ with
  | more s => rfl
  | found s i j =>
    rw [hr] at hspec
    obtain ⟨-, hlast, hword, -, hj⟩ := hspec
    unfold Bitmap.pages at hb
    omega

/-! ## 8. Freeing a page -/

/-- The page whose bit `freePage` sets: the signed quotients go towards zero, so an address less
than a page below the base counts as page 0; from further below it sets no bit. -/
def freedPage (base page : Nat) : Option Nat :=
  if sub32 page base < 2147483648 then some (sub32 page base / 4096)
  else if 4294967296 - 4096 < sub32 page base then some 0
  else none

theorem toInt_ofNat_sub32 (page base : Nat) :
    (BitVec.ofNat 32 (sub32 page base)).toInt =
      if sub32 page base < 2147483648 then (sub32 page base : Int)
      else (sub32 page base : Int) - 4294967296 := by
  have hlt := sub32_lt page base
  rw [BitVec.toInt_eq_toNat_cond, BitVec.toNat_ofNat, Nat.mod_eq_of_lt hlt]
  split <;> split <;> omega

/-- The quotient of a signed difference. -/
theorem tdiv_4096 (page base : Nat) :
    ((BitVec.ofNat 32 (sub32 page base)).toInt).tdiv 4096 =
      if sub32 page base < 2147483648 then ((sub32 page base / 4096 : Nat) : Int)
      else -(((4294967296 - sub32 page base) / 4096 : Nat) : Int) := by
  have hlt := sub32_lt page base
  rw [toInt_ofNat_sub32]
  split
  · rw [Int.tdiv_eq_ediv_of_nonneg (by omega)]
    omega
  · rw [show (sub32 page base : Int) - 4294967296 = -((4294967296 - sub32 page base : Nat) : Int) by
      omega, Int.neg_tdiv, Int.tdiv_eq_ediv_of_nonneg (by omega)]
    omega

/-- Setting bit `j` of word `i`. -/
theorem isFree_update_or (b : Bitmap) {i j : Nat} (hj : j < 32) (p : Nat) :
    Bitmap.isFree { b with word := Function.update b.word i (b.word i ||| bit j) } p =
      (b.isFree p || decide (p = 32 * i + j)) := by
  simp only [Bitmap.isFree]
  by_cases hp : p / 32 = i
  · subst hp
    rw [Function.update_self, BitVec.getLsbD_or, getLsbD_bit]
    congr 1
    rw [← Bool.decide_and, decide_eq_decide]
    omega
  · rw [Function.update_of_ne (by omega), decide_eq_false (by omega), Bool.or_false]

/-- **What freeing a page sets.** -/
theorem isFree_freePage (b : Bitmap) (base page p : Nat) :
    (freePage b base page).isFree p = (b.isFree p || decide (freedPage base page = some p)) := by
  have hlt := sub32_lt page base
  simp only [freePage, tdiv_4096]
  unfold freedPage
  by_cases hpos : sub32 page base < 2147483648
  · rw [if_pos hpos, if_pos hpos]
    generalize sub32 page base / 4096 = q
    have hi : (q : Int).tdiv 32 = ((q / 32 : Nat) : Int) := by
      rw [Int.tdiv_eq_ediv_of_nonneg (by omega)]
      omega
    have hj : (q : Int) - ((q / 32 : Nat) : Int) * 32 = ((q % 32 : Nat) : Int) := by omega
    rw [hi, hj, if_neg (by omega), Int.toNat_natCast, isFree_update_or b (by omega)]
    congr 1
    rw [decide_eq_decide, Option.some.injEq]
    omega
  · rw [if_neg hpos, if_neg hpos]
    by_cases hnear : 4294967296 - 4096 < sub32 page base
    · rw [if_pos hnear, show (4294967296 - sub32 page base) / 4096 = 0 by omega]
      rw [show (-((0 : Nat) : Int)).tdiv 32 = ((0 : Nat) : Int) by decide,
        show (-((0 : Nat) : Int)) - ((0 : Nat) : Int) * 32 = 0 by decide, if_neg (by omega),
        show Int.toNat 0 = 0 from rfl, isFree_update_or b (by omega)]
      congr 1
      rw [decide_eq_decide, Option.some.injEq]
      omega
    · rw [if_neg hnear]
      have hq : 0 < (4294967296 - sub32 page base) / 4096 := by omega
      generalize (4294967296 - sub32 page base) / 4096 = q at hq
      rw [Int.neg_tdiv, Int.tdiv_eq_ediv_of_nonneg (by omega)]
      rw [decide_eq_false (by simp), Bool.or_false]
      simp only [Bitmap.isFree]
      -- either the shift is by a negative number, or the word lies in front of the bitmap
      by_cases hj : -(q : Int) - -((q : Int) / 32) * 32 < 0
      · rw [if_pos hj, show b.word (-((q : Int) / 32)) ||| 0 = b.word (-((q : Int) / 32)) from
          BitVec.or_zero, Function.update_eq_self]
      · rw [if_neg hj, Function.update_of_ne (by omega)]

end AndixOs.Mm
