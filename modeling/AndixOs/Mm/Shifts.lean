/-
# The shifts of the marking loops

Four allocators mark the run they have found with a copy of the same two loops, and the inner one
evaluates `1 << tj` for `tj` from `from` to `to`, with `to` included.  In the last word of the run
`to` is the last bit of the run, but in every word before it `to` is 32, one past the last bit.

* `markPages_eq_foldl`: the marking is the sequence of its rounds, so nothing is missing from the
  shifts counted here;
* `markSteps_defined_iff`: every shift is below 32 exactly when the run has one word only;
* `shifts_defined_iff`: the same for the four functions, in terms of the run that is asked for.
-/
import AndixOs.Mm.Allocators
import AndixOs.Mm.FirstFit

namespace AndixOs.Mm

/-! ## 1. The marking loop round by round -/

/-- A round of the inner loop: word `ti` becomes `word & ~(1 << tj)`. -/
structure MarkStep where
  ti : Nat
  tj : Nat
  deriving DecidableEq

def MarkStep.apply (word : Int → BitVec 32) (s : MarkStep) : Int → BitVec 32 :=
  Function.update word s.ti (word s.ti &&& ~~~(bit s.tj))

/-- The rounds of the inner loop for word `ti`. -/
def wordSteps (starti startj i j ti : Nat) : List MarkStep :=
  let from_ := if ti = starti then startj else 0
  let to_ := if ti = i then j else 32
  (List.range' from_ (to_ + 1 - from_)).map (MarkStep.mk ti)

/-- The rounds of the two loops, from page `(starti, startj)` to page `(i, j)`. -/
def markSteps (starti startj i j : Nat) : List MarkStep :=
  (List.range' starti (i + 1 - starti)).flatMap (wordSteps starti startj i j)

/-- The rounds after a search. -/
def Scan.markSteps : Scan → List MarkStep
  | .more _ => []
  | .found s i j => Mm.markSteps s.starti s.startj i j

variable {starti startj i j ti n q : Nat} {word : Int → BitVec 32} {s : MarkStep}

/-- The rounds of one word, one after the other. -/
theorem foldl_map_mark (ti : Nat) : ∀ (tjs : List Nat) (word : Int → BitVec 32),
    (tjs.map (MarkStep.mk ti)).foldl MarkStep.apply word =
      Function.update word ti (tjs.foldl (fun w tj => w &&& ~~~(bit tj)) (word ti))
  | [], word => by simp
  | tj :: tjs, word => by
    rw [List.map_cons, List.foldl_cons, foldl_map_mark ti tjs]
    simp [MarkStep.apply]

theorem markWord_eq_foldl : markWord starti startj i j word ti =
    (wordSteps starti startj i j ti).foldl MarkStep.apply word := by
  simp [markWord, wordSteps, markBits, foldl_map_mark]

/-- **The marking is the sequence of its rounds.** -/
theorem markPages_eq_foldl (word : Int → BitVec 32) (starti startj i j : Nat) :
    markPages word starti startj i j =
      (markSteps starti startj i j).foldl MarkStep.apply word := by
  unfold markPages markSteps
  rw [List.foldl_flatMap]
  congr 1
  funext word ti
  exact markWord_eq_foldl

/-! ## 2. Which shifts there are -/

theorem mem_wordSteps : s ∈ wordSteps starti startj i j ti ↔
    s.ti = ti ∧ (if ti = starti then startj else 0) ≤ s.tj ∧ s.tj ≤ if ti = i then j else 32 := by
  unfold wordSteps
  simp only [List.mem_map, List.mem_range'_1]
  constructor
  · rintro ⟨tj, ⟨hlo, hhi⟩, rfl⟩
    exact ⟨rfl, hlo, by simp only; omega⟩
  · rintro ⟨rfl, hlo, hhi⟩
    exact ⟨s.tj, ⟨hlo, by omega⟩, rfl⟩

theorem mem_markSteps : s ∈ markSteps starti startj i j ↔
    (starti ≤ s.ti ∧ s.ti ≤ i) ∧ (if s.ti = starti then startj else 0) ≤ s.tj ∧
      s.tj ≤ if s.ti = i then j else 32 := by
  unfold markSteps
  simp only [List.mem_flatMap, List.mem_range'_1, mem_wordSteps]
  constructor
  · rintro ⟨ti, ⟨hlo, hhi⟩, rfl, hs⟩
    exact ⟨⟨hlo, by omega⟩, hs⟩
  · rintro ⟨⟨hlo, hhi⟩, hs⟩
    exact ⟨s.ti, ⟨hlo, by omega⟩, rfl, hs⟩

/-- **The shifts of a run** are all defined exactly when the run lies in one word: the words before
the last one are marked up to bit 32. -/
theorem markSteps_defined_iff (hle : starti ≤ i) (hstart : startj < 32) (hend : j < 32) :
    (∀ s ∈ markSteps starti startj i j, s.tj < 32) ↔ starti = i := by
  constructor
  · intro hall
    by_contra hne
    have hmem : (⟨starti, 32⟩ : MarkStep) ∈ markSteps starti startj i j := by
      rw [mem_markSteps]
      simp only [if_true, if_neg hne]
      omega
    exact absurd (hall _ hmem) (Nat.lt_irrefl 32)
  · rintro rfl s hs
    obtain ⟨⟨hlo, hhi⟩, -, hto⟩ := mem_markSteps.mp hs
    rw [if_pos (Nat.le_antisymm hhi hlo)] at hto
    exact Nat.lt_of_le_of_lt hto hend

/-! ## 3. The four functions -/

/-- A call of an allocator with a marking loop. -/
inductive MarkingCall where
  | mmmAllocatePages (numpages : UInt32)
  | pmmAllocatePages (numpages : UInt32)
  | pmmAllocateAlignedPages (numpages align : UInt32)
  | smmAllocatePages (numpages : UInt32)

def MarkingCall.area : MarkingCall → PageArea
  | .mmmAllocatePages _ => .mmm
  | .pmmAllocatePages _ => .pmm
  | .pmmAllocateAlignedPages _ _ => .pmm
  | .smmAllocatePages _ => .smm

def MarkingCall.numpages : MarkingCall → Nat
  | .mmmAllocatePages n => n.toNat
  | .pmmAllocatePages n => n.toNat
  | .pmmAllocateAlignedPages n _ => n.toNat
  | .smmAllocatePages n => n.toNat

/-- The call itself. -/
def MarkingCall.run (k : Kernel) : MarkingCall → Nat × Kernel
  | .mmmAllocatePages n => Mm.mmmAllocatePages k n.toNat
  | .pmmAllocatePages n => Mm.pmmAllocatePages k n.toNat
  | .pmmAllocateAlignedPages n align => Mm.pmmAllocateAlignedPages k n.toNat align.toNat
  | .smmAllocatePages n => Mm.smmAllocatePages k n.toNat

/-- How its search ends. -/
def MarkingCall.scan (k : Kernel) : MarkingCall → Scan
  | .mmmAllocatePages n => scanWords k.mmm n.toNat k.mmm.words ⟨0, 0, 0⟩
  | .pmmAllocatePages n => scanWords k.pmm n.toNat k.pmm.words ⟨0, 0, 0⟩
  | .pmmAllocateAlignedPages n align =>
    scanAlignedWords k.pmm (startsAligned k.physStart align.toNat) n.toNat k.pmm.words ⟨0, 0, 0⟩
  | .smmAllocatePages n => scanWords k.smm n.toNat k.smm.words ⟨0, 0, 0⟩

/-- The rounds of its marking loop. -/
def MarkingCall.steps (k : Kernel) (c : MarkingCall) : List MarkStep := (c.scan k).markSteps

/-- The run that the call asks for starts at page `q`: the lowest one that is free, and that starts
where the alignment lets it. -/
def MarkingCall.WantsRun (k : Kernel) (c : MarkingCall) (q : Nat) : Prop :=
  match c with
  | .pmmAllocateAlignedPages n align =>
    FirstRunFrom k.pmm.isFree (startsAligned k.physStart align.toNat) n.toNat k.pmm.pages q
  | c => FirstRun (k.bitmap c.area).isFree c.numpages (k.bitmap c.area).pages q

/-- The run of `n` pages from page `q` on lies in one word of the bitmap. -/
def OneWord (q n : Nat) : Prop := q / 32 = (q + (n - 1)) / 32

instance (q n : Nat) : Decidable (OneWord q n) := inferInstanceAs (Decidable (_ = _))

variable {k : Kernel} {c : MarkingCall}

/-- **What a call leaves in its bitmap** is what these rounds leave. -/
theorem MarkingCall.run_bitmap (k : Kernel) (c : MarkingCall) :
    ((c.run k).2.bitmap c.area).word =
      (c.steps k).foldl MarkStep.apply (k.bitmap c.area).word := by
  have hplain : ∀ (b : Bitmap) (base n : Nat), (allocatePages b base n).2.word =
      (scanWords b n b.words ⟨0, 0, 0⟩).markSteps.foldl MarkStep.apply b.word := by
    intro b base n
    unfold allocatePages
    cases scanWords b n b.words ⟨0, 0, 0⟩ with
    | more s => rfl
    | found s i j => exact markPages_eq_foldl ..
  have haligned : ∀ (b : Bitmap) (base n align : Nat), (allocateAlignedPages b base n align).2.word =
      (scanAlignedWords b (startsAligned base align) n b.words ⟨0, 0, 0⟩).markSteps.foldl
        MarkStep.apply b.word := by
    intro b base n align
    unfold allocateAlignedPages
    cases scanAlignedWords b (startsAligned base align) n b.words ⟨0, 0, 0⟩ with
    | more s => rfl
    | found s i j => exact markPages_eq_foldl ..
  cases c with
  | mmmAllocatePages n => exact hplain ..
  | pmmAllocatePages n => exact hplain ..
  | pmmAllocateAlignedPages n align => exact haligned ..
  | smmAllocatePages n => exact hplain ..

/-! ## 4. When the shifts are defined -/

/-- A run of one page, or of none, lies in one word. -/
theorem oneWord_of_le_one (hn : n ≤ 1) : OneWord q n := by
  have hzero : n - 1 = 0 := by omega
  simp [OneWord, hzero]

/-- What the end of a search says about the run that was asked for: it is there and this is where it
lies, or the marking loop is not reached and no run of two pages or more was there. -/
inductive Outcome (WantsRun : Nat → Prop) (n : Nat) : Scan → Prop where
  | nothing (s : Search) (h : ∀ q, WantsRun q → OneWord q n) : Outcome WantsRun n (.more s)
  | found (s : Search) (i j : Nat) (some_page : 0 < n) (wants : WantsRun (32 * s.starti + s.startj))
      (last : 32 * i + j + 1 = 32 * s.starti + s.startj + n) (startBit : s.startj < 32)
      (lastBit : j < 32) : Outcome WantsRun n (.found s i j)

theorem scanWords_outcome {b : Bitmap} (hb : b.pages ≤ 1048576) (hn : n < 4294967296) :
    Outcome (FirstRun b.isFree n b.pages) n (scanWords b n b.words ⟨0, 0, 0⟩) := by
  rcases Nat.eq_zero_or_pos n with rfl | hpos
  · obtain ⟨s, hs⟩ := scanWords_zero b b.words (s := ⟨0, 0, 0⟩) b.pages (by simp [Bitmap.pages])
      (by omega)
    rw [hs]
    exact .nothing s fun q _ => oneWord_of_le_one (Nat.zero_le 1)
  · have hspec := scanWords_spec hpos hn b.words (le_refl b.words) (scanWords_start b hpos)
    cases hr : scanWords b n b.words ⟨0, 0, 0⟩ with
    | more s =>
      rw [hr] at hspec
      exact .nothing s fun q hq => absurd hq (hspec.scanning.exhausted q)
    | found s i j =>
      rw [hr] at hspec
      exact .found s i j hpos hspec.first hspec.last hspec.startBit hspec.lastBit

/-- A search for no aligned page finds none. -/
theorem scanAlignedWords_zero {b : Bitmap} (ok : Nat → Bool) (hb : b.pages ≤ 1048576) :
    ∃ s, scanAlignedWords b ok 0 b.words ⟨0, 0, 0⟩ = .more s := by
  have hspec := scanAlignedWords_spec ok (n := 4294967296) (by decide)
    (show sub32 0 1 = 4294967296 - 1 by decide) b.words (le_refl b.words)
    (Counting.reset (s := ⟨0, 0, 0⟩))
  cases hr : scanAlignedWords b ok 0 b.words ⟨0, 0, 0⟩ with
  | more s => exact ⟨s, rfl⟩
  | found s i j =>
    rw [hr] at hspec
    have hlast := hspec.last
    have hword := hspec.word
    have hbit := hspec.lastBit
    unfold Bitmap.pages at hb
    omega

theorem scanAlignedWords_outcome {b : Bitmap} (ok : Nat → Bool) (hb : b.pages ≤ 1048576)
    (hn : n < 4294967296) :
    Outcome (FirstRunFrom b.isFree ok n b.pages) n
      (scanAlignedWords b ok n b.words ⟨0, 0, 0⟩) := by
  rcases Nat.lt_or_ge 1 n with hlt | hle
  · have hstart : SeekingAt b ok n (32 * (b.words - b.words)) ⟨0, 0, 0⟩ := by
      rw [Nat.sub_self]
      exact SeekingAt.reset (s := ⟨0, 0, 0⟩) (Seeking.begin (by omega))
    have hspec := scanAlignedWords_first hlt hn b.words (le_refl b.words) hstart
    cases hr : scanAlignedWords b ok n b.words ⟨0, 0, 0⟩ with
    | more s =>
      rw [hr] at hspec
      exact .nothing s fun q hq => absurd hq (hspec.seeking.exhausted q)
    | found s i j =>
      rw [hr] at hspec
      exact .found s i j (Nat.zero_lt_of_lt hlt) hspec.first hspec.last hspec.startBit hspec.lastBit
  · -- for one page the search ends without a run, and for none as well
    obtain ⟨s, hs⟩ : ∃ s, scanAlignedWords b ok n b.words ⟨0, 0, 0⟩ = .more s := by
      rcases Nat.le_one_iff_eq_zero_or_eq_one.mp hle with rfl | rfl
      · exact scanAlignedWords_zero ok hb
      · exact scanAlignedWords_one b ok b.words _
    rw [hs]
    exact .nothing s fun q _ => oneWord_of_le_one hle

/-- **The end of the search** of each of the four functions. -/
theorem MarkingCall.outcome (hb : (k.bitmap c.area).pages ≤ 1048576) :
    Outcome (c.WantsRun k) c.numpages (c.scan k) := by
  cases c with
  | mmmAllocatePages n => exact scanWords_outcome hb n.toNat_lt
  | pmmAllocatePages n => exact scanWords_outcome hb n.toNat_lt
  | pmmAllocateAlignedPages n align => exact scanAlignedWords_outcome _ hb n.toNat_lt
  | smmAllocatePages n => exact scanWords_outcome hb n.toNat_lt

/-- A call asks for one run at most. -/
theorem MarkingCall.wantsRun_unique {q' : Nat} (h : c.WantsRun k q) (h' : c.WantsRun k q') :
    q = q' := by
  cases c with
  | mmmAllocatePages n => exact FirstRun.unique h h'
  | pmmAllocatePages n => exact FirstRun.unique h h'
  | pmmAllocateAlignedPages n align => exact FirstRunFrom.unique h h'
  | smmAllocatePages n => exact FirstRun.unique h h'

/-- **The marking loops** of the four functions evaluate only shifts below 32 exactly when the run
that is asked for, if there is one, lies in one word of the bitmap.  No area has more pages than
there are addresses. -/
theorem shifts_defined_iff (k : Kernel) (c : MarkingCall)
    (hb : (k.bitmap c.area).pages ≤ 1048576) :
    (∀ s ∈ c.steps k, s.tj < 32) ↔ ∀ q, c.WantsRun k q → OneWord q c.numpages := by
  have hout := MarkingCall.outcome hb
  unfold MarkingCall.steps
  generalize c.scan k = r at hout
  cases hout with
  | nothing s hone => exact ⟨fun _ => hone, fun _ s hs => absurd hs (by simp [Scan.markSteps])⟩
  | found s i j hpos hwants hlast hstart hend =>
    have hword : OneWord (32 * s.starti + s.startj) c.numpages ↔ s.starti = i := by
      unfold OneWord
      omega
    rw [Scan.markSteps, markSteps_defined_iff (by omega) hstart hend, ← hword]
    constructor
    · intro hone q hq
      rw [MarkingCall.wantsRun_unique hq hwants]
      exact hone
    · intro hall
      exact hall _ hwants

/-- Three stack pages right after the boot are marked, and they lie in the first word. -/
theorem shifts_defined_stack : (MarkingCall.smmAllocatePages 3).steps bootKernel ≠ [] ∧
    ∀ s ∈ (MarkingCall.smmAllocatePages 3).steps bootKernel, s.tj < 32 := by
  refine ⟨by decide +kernel,
    (shifts_defined_iff bootKernel (.smmAllocatePages 3) (by decide)).mpr ?_⟩
  intro q hq
  have hfirst : FirstRun bootKernel.smm.isFree 3 bootKernel.smm.pages 0 :=
    ⟨by decide, fun r _ _ => isFree_allFree _ r, fun q' hq' => absurd hq' (Nat.not_lt_zero q')⟩
  rw [FirstRun.unique hq hfirst]
  decide

/-- **Undefined shifts**: 33 mapable pages right after the boot take the first word and a bit of the
second, and `1 << 32` is evaluated for the first word. -/
theorem shift_by_word_size :
    ¬ ∀ s ∈ (MarkingCall.mmmAllocatePages 33).steps bootKernel, s.tj < 32 := by
  decide +kernel

end AndixOs.Mm
