/-
# Is an address mapped?

`mmm_is_mem_addr` and `smm_is_mem_addr` look up the page of an address in the bitmap of their area.
They answer 1 for a page in use, -1 for a free one (255, as they return a `uint8_t`), and 0 outside
the area.  But they compare the masked word with 1 and not with 0, so they see a free page only at
bit 0 of its word (`and_bit_eq_one_iff`); and where the end of the area is not the end of the
bitmap's last word, they look behind the bitmap.

`Ledger.record` follows any history of calls, also one that frees what nobody holds; the bitmaps say
what it says (`sound_of_history`), and from that `memAddr_right_iff` tells for which addresses the
answers are right.
-/
import AndixOs.Mm.Allocators

namespace AndixOs.Mm

/-! ## 1. The two functions -/

/-- The areas of addresses, as against that of frames. -/
inductive VirtArea where
  | mmm
  | smm

def VirtArea.area : VirtArea → PageArea
  | .mmm => .mmm
  | .smm => .smm

/-- `mmm_get_start_addr` and `smm_get_start_addr`. -/
def VirtArea.start (k : Kernel) : VirtArea → Nat
  | .mmm => mmmStart
  | .smm => k.layout.smmStart

/-- `mmm_get_end_addr` and `smm_get_end_addr`. -/
def VirtArea.end_ (k : Kernel) : VirtArea → Nat
  | .mmm => mmmEnd
  | .smm => k.layout.smmEnd

/-- `mmm_is_mem_addr`. -/
def mmmIsMemAddr (k : Kernel) (vaddr : Nat) : Nat := isMemAddr k.mmm mmmStart mmmEnd vaddr

/-- `smm_is_mem_addr`. -/
def smmIsMemAddr (k : Kernel) (vaddr : Nat) : Nat :=
  isMemAddr k.smm k.layout.smmStart k.layout.smmEnd vaddr

def VirtArea.isMemAddr (k : Kernel) (vaddr : Nat) : VirtArea → Nat
  | .mmm => mmmIsMemAddr k vaddr
  | .smm => smmIsMemAddr k vaddr

/-- The word of the bitmap that is read, if one is. -/
def memAddrWord (start end_ vaddr : Nat) : Option Nat :=
  if start ≤ vaddr ∧ vaddr < end_ then some ((vaddr - start) / 4096 / 32) else none

variable {k : Kernel} {s t : Ledger} {a : PageArea} {b b' : Bitmap} {start end_ vaddr p : Nat}

/-- No other word of the bitmap has a part in the answer. -/
theorem isMemAddr_congr
    (h : ∀ i, memAddrWord start end_ vaddr = some i → b.word (i : Nat) = b'.word (i : Nat)) :
    isMemAddr b start end_ vaddr = isMemAddr b' start end_ vaddr := by
  unfold isMemAddr
  by_cases hin : start ≤ vaddr ∧ vaddr < end_
  · simp only [if_pos hin, h _ (if_pos hin)]
  · simp only [if_neg hin]

/-! ## 2. The test of a bit -/

/-- The masked word is 1 only at bit 0. -/
theorem and_bit_eq_one_iff {w : BitVec 32} {j : Nat} (hj : j < 32) :
    w &&& bit j = 1 ↔ j = 0 ∧ w.getLsbD j = true := by
  constructor
  · intro h
    have hzero := congrArg (BitVec.getLsbD · 0) h
    simp only [BitVec.getLsbD_and, getLsbD_bit] at hzero
    obtain ⟨hw, hj0⟩ : w.getLsbD 0 = true ∧ 0 = j := by simpa using hzero
    subst hj0
    exact ⟨rfl, hw⟩
  · rintro ⟨rfl, hw⟩
    ext r hr
    rw [← BitVec.getLsbD_eq_getElem, BitVec.getLsbD_and, getLsbD_bit]
    by_cases hr0 : r = 0
    · subst hr0
      simpa using hw
    · simp [hr0]

/-- **What the functions answer** inside their area: 255 only for a free page at bit 0. -/
theorem isMemAddr_inside (hin : start ≤ vaddr ∧ vaddr < end_) (hp : (vaddr - start) / 4096 = p) :
    isMemAddr b start end_ vaddr = if p % 32 = 0 ∧ b.isFree p = true then 255 else 1 := by
  subst hp
  have hbit := and_bit_eq_one_iff (w := b.word ((vaddr - start) / 4096 / 32 : Nat))
    (Nat.mod_lt ((vaddr - start) / 4096) (by decide : 0 < 32))
  simp only [isMemAddr, if_pos hin, Bitmap.isFree]
  exact if_congr hbit rfl rfl

/-! ## 3. Any history of calls -/

/-- Page `p` is what the call frees: the page whose number the source computes from the address,
whoever holds it. -/
def Ledger.losesAny (s : Ledger) (op : AllocOp) (a : PageArea) (p : Nat) : Bool :=
  match op.frees with
  | some (a', page) => decide (a = a' ∧ freedPage (s.k.base a) page = some p)
  | none => false

/-- A call, of a caller that may free what it does not hold. -/
def Ledger.record (s : Ledger) (op : AllocOp) : Ledger where
  k := (op.run s.k).2
  out := fun a p => s.out a p && !s.losesAny op a p || s.gains op a p

/-- The call is no free: nothing is new. -/
theorem record_of_wants {op : AllocOp} (hf : op.frees = none) : s.record op = s.step op := by
  simp only [Ledger.record, Ledger.step, Ledger.losesAny, Ledger.loses, hf]

/-- A page that is freed is free, whoever held it. -/
theorem sound_record_frees {op : AllocOp} {page : Nat} (h : Sound s)
    (hf : op.frees = some (a, page)) (hw : op.wants = none) : Sound (s.record op) := by
  have hk : (s.record op).k = s.k.setBitmap (freePage (s.k.bitmap a) (s.k.base a) page) a := by
    simp only [Ledger.record, AllocOp.run_frees hf]
  have ho : OnlyArea a s.k (s.record op).k := by
    rw [hk]
    exact onlyArea_setBitmap rfl
  have hpages : ∀ a', ((s.record op).k.bitmap a').pages = (s.k.bitmap a').pages := by
    intro a'
    simp only [Bitmap.pages, ho.words_eq]
  have hout : ∀ a' p, (s.record op).out a' p =
      (s.out a' p && !decide (a' = a ∧ freedPage (s.k.base a') page = some p)) := by
    intro a' p
    simp only [Ledger.record, Ledger.losesAny, hf, gains_none hw, Bool.or_false]
  constructor
  · exact ho.placed h.toPlaced
  · intro a' p hp
    rw [hpages] at hp
    rw [hout, Bool.not_and, Bool.not_not, ← h.agree a' p hp]
    by_cases ha : a' = a
    · subst ha
      rw [hk, bitmap_setBitmap, isFree_freePage]
      simp
    · rw [ho.others a' ha]
      simp [ha]
  · intro a' p hp
    rw [hout, Bool.and_eq_true] at hp
    rw [hpages]
    exact h.held a' p hp.1

/-- **One call**, whatever it frees, keeps the bitmaps and the record together. -/
theorem sound_record (h : Sound s) (op : AllocOp) : Sound (s.record op) := by
  rcases op.wants_or_frees with ⟨a, n, hw, hf⟩ | ⟨a, page, hf, hw⟩
  · rw [record_of_wants hf]
    refine sound_step h ?_
    intro a' page hfrees
    rw [hf] at hfrees
    exact nomatch hfrees
  · exact sound_record_frees h hf hw

/-- No call moves an area. -/
theorem layout_record (s : Ledger) (op : AllocOp) : (s.record op).k.layout = s.k.layout := by
  cases op <;> rfl

theorem words_record (h : Sound s) (op : AllocOp) (a : PageArea) :
    ((s.record op).k.bitmap a).words = (s.k.bitmap a).words := by
  rcases op.wants_or_frees with ⟨a', n, hw, hf⟩ | ⟨a', page, hf, hw⟩
  · rw [record_of_wants hf]
    exact (sameAreas_step h).words a
  · have ho : OnlyArea a' s.k (s.record op).k := by
      simp only [Ledger.record, AllocOp.run_frees hf]
      exact onlyArea_setBitmap rfl
    exact ho.words_eq a

/-- What a history that starts with the areas of `k0` keeps. -/
structure SoundSince (k0 : Kernel) (s : Ledger) : Prop extends Sound s where
  layout : s.k.layout = k0.layout
  words : ∀ a, (s.k.bitmap a).words = (k0.bitmap a).words

/-- **After every history** of calls, the bitmaps say which pages are handed out. -/
theorem sound_of_history {phys stack : AreaRange} {ops : List AllocOp}
    (hrun : Run (fun s op t => t = s.record op) (Ledger.start k phys stack) ops s) :
    SoundSince (initAreas k phys stack) s := by
  refine hrun.invariant ?_ ⟨sound_start k phys stack, rfl, fun _ => rfl⟩
  rintro s op t hs rfl
  exact ⟨sound_record hs.toSound op, (layout_record s op).trans hs.layout,
    fun a => (words_record hs.toSound op a).trans (hs.words a)⟩

/-! ## 4. When the answers are right -/

/-- The page of an address. -/
def VirtArea.page (k : Kernel) (v : VirtArea) (vaddr : Nat) : Nat := (vaddr - v.start k) / 4096

/-- The answer for an address is right: 0 outside of the area; inside of it a word of the bitmap is
read, and the answer is 1 if the page is handed out and 255 if it is free. -/
def AnswersRight (s : Ledger) (v : VirtArea) (vaddr : Nat) : Prop :=
  if v.start s.k ≤ vaddr ∧ vaddr < v.end_ s.k then
    (memAddrWord (v.start s.k) (v.end_ s.k) vaddr).all (· < (s.k.bitmap v.area).words) = true ∧
      v.isMemAddr s.k vaddr = if s.out v.area (v.page s.k vaddr) = true then 1 else 255
  else v.isMemAddr s.k vaddr = 0

/-- The two functions are one, on the bitmap of the area. -/
theorem VirtArea.isMemAddr_eq (k : Kernel) (v : VirtArea) (vaddr : Nat) :
    v.isMemAddr k vaddr = Mm.isMemAddr (k.bitmap v.area) (v.start k) (v.end_ k) vaddr := by
  cases v <;> rfl

/-- One address, where the bitmaps and the record agree. -/
theorem answersRight_iff (h : Sound s) (v : VirtArea) (vaddr : Nat) :
    AnswersRight s v vaddr ↔ (v.start s.k ≤ vaddr ∧ vaddr < v.end_ s.k →
      v.page s.k vaddr < (s.k.bitmap v.area).pages ∧
      (s.out v.area (v.page s.k vaddr) = true ∨ v.page s.k vaddr % 32 = 0)) := by
  unfold AnswersRight
  rw [VirtArea.isMemAddr_eq]
  by_cases hin : v.start s.k ≤ vaddr ∧ vaddr < v.end_ s.k
  · rw [if_pos hin, isMemAddr_inside hin rfl]
    have hword : (memAddrWord (v.start s.k) (v.end_ s.k) vaddr).all
        (· < (s.k.bitmap v.area).words) = true ↔
          v.page s.k vaddr < (s.k.bitmap v.area).pages := by
      simp only [memAddrWord, if_pos hin, Option.all_some, decide_eq_true_eq, VirtArea.page,
        Bitmap.pages]
      omega
    rw [hword]
    have hpage : (vaddr - v.start s.k) / 4096 = v.page s.k vaddr := rfl
    simp only [hin, and_self, true_implies, hpage]
    refine and_congr_right fun hlt => ?_
    rw [h.agree _ _ hlt]
    cases hout : s.out v.area (v.page s.k vaddr) <;> simp
  · rw [if_neg hin]
    simp [Mm.isMemAddr, hin]

/-- **The two functions**, after any history of calls: the answer for an address is right exactly if
the address is outside of the area, or its page has a bit in the bitmap and is handed out or has the
number of a multiple of 32. -/
theorem memAddr_right_iff (k : Kernel) (phys stack : AreaRange) {ops : List AllocOp}
    (hrun : Run (fun s op t => t = s.record op) (Ledger.start k phys stack) ops s) (v : VirtArea)
    (vaddr : UInt32) :
    AnswersRight s v vaddr.toNat ↔
      (v.start (initAreas k phys stack) ≤ vaddr.toNat ∧
          vaddr.toNat < v.end_ (initAreas k phys stack) →
        v.page (initAreas k phys stack) vaddr.toNat <
            ((initAreas k phys stack).bitmap v.area).pages ∧
          (s.out v.area (v.page (initAreas k phys stack) vaddr.toNat) = true ∨
            v.page (initAreas k phys stack) vaddr.toNat % 32 = 0)) := by
  have hs := sound_of_history hrun
  have hplace : v.start s.k = v.start (initAreas k phys stack) ∧
      v.end_ s.k = v.end_ (initAreas k phys stack) := by
    cases v
    · exact ⟨rfl, rfl⟩
    · exact ⟨congrArg Layout.smmStart hs.layout, congrArg Layout.smmEnd hs.layout⟩
  have hpages : (s.k.bitmap v.area).pages = ((initAreas k phys stack).bitmap v.area).pages := by
    simp only [Bitmap.pages, hs.words]
  rw [answersRight_iff hs.toSound, hpages]
  simp only [VirtArea.page, hplace]

/-- The second of three mapable pages, after the first of them was freed. -/
theorem memAddr_right_second :
    ∃ s, Run (fun s op t => t = s.record op) (Ledger.start bootKernel bootPhys bootStack)
        [.mmmAllocatePages 3, .mmmFreePage 0x80000000] s ∧
      AnswersRight s .mmm (0x80001FFC : UInt32).toNat := by
  have hrun : Run (fun s op t => t = s.record op) (Ledger.start bootKernel bootPhys bootStack)
      [.mmmAllocatePages 3, .mmmFreePage 0x80000000]
      (((Ledger.start bootKernel bootPhys bootStack).record (.mmmAllocatePages 3)).record
        (.mmmFreePage 0x80000000)) := Run.cons rfl (Run.cons rfl (Run.nil _))
  refine ⟨_, hrun, (memAddr_right_iff bootKernel bootPhys bootStack hrun .mmm 0x80001FFC).mpr ?_⟩
  decide +kernel

/-- **A free page is taken for one in use**: the second mapable page, right after the boot.  And for
the last pages of the stack area a word behind the bitmap is read. -/
theorem memAddr_misses_free_page :
    ¬ AnswersRight (Ledger.start bootKernel bootPhys bootStack) .mmm 0x80001000 ∧
    ¬ AnswersRight (Ledger.start bootKernel bootPhys bootStack) .smm 0xFFFFE000 := by
  unfold AnswersRight
  decide +kernel

end AndixOs.Mm
