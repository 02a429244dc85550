/-
# Live allocations of the kernel heap

What a client of the heap relies on: its allocations lie in the heap, they do not overlap, and no
call changes the bytes of another one (`Safe`, `KeepsLive`).

The code does not give this on every run.  `prepareBestBlock` forgets the header when it looks for
the next block, so `prev_size` of that block goes stale; a later `kfree` or `kmalloc_align`
trusts it (`stale_prev_size_overlap`).  On the runs whose steps are `heapOk` the property holds in
every state (`heap_safe`).  The invariant is `HeapInv`: the headers tile the heap, and every live
allocation is in a block in use of its own.
-/
import AndixOs.Heap.BestFit

namespace AndixOs.Heap

open AndixOs

variable {L : Layout} {s t : HeapState} {m' : Mem} {b : Block Bool} {bs bs' : List (Block Bool)}

/-! ## 1. What clients rely on -/

/-- The live allocations are inside the heap and do not overlap. -/
structure Safe (L : Layout) (s : HeapState) : Prop where
  inside : ∀ x ∈ s.live, L.heapStart ≤ x.1 ∧ x.1 + x.2 ≤ L.heapStart + kernelHeapSize
  disjoint : s.live.Pairwise fun x y => x.1 + x.2 ≤ y.1 ∨ y.1 + y.2 ≤ x.1

/-- The allocation is another one than the one the call is about. -/
def HeapOp.Other : HeapOp → Nat × Nat → Prop
  | .kfree blk, x => x.1 ≠ blk
  | .write _ _ _, _ => False
  | _, _ => True

/-- The call changes no byte of another live allocation. -/
def KeepsLive (L : Layout) (s : HeapState) (op : HeapOp) : Prop :=
  ∀ t, heapStep L s op = some t → ∀ x ∈ s.live, op.Other x →
    ∀ y, x.1 ≤ y → y < x.1 + x.2 → t.mem y = s.mem y

/-! ## 2. The invariant -/

/-- A block in use whose data starts with the allocation. -/
def Owned (bs : List (Block Bool)) (x : Nat × Nat) : Prop :=
  ∃ b ∈ bs, b.addr + hdrSize = x.1 ∧ b.tag = false ∧ x.2 ≤ b.size

/-- The headers tile the heap with the blocks `bs`, and every live allocation is in its own block
in use. -/
structure HeapInv (L : Layout) (s : HeapState) (bs : List (Block Bool)) : Prop where
  row : Row s.mem L.heapStart bs L.top
  owned : ∀ x ∈ s.live, Owned bs x
  nodup : s.live.Pairwise fun x y => x.1 ≠ y.1

/-- **The invariant is enough.** -/
theorem HeapInv.safe (h : HeapInv L s bs) : Safe L s := by
  constructor
  · intro x hx
    obtain ⟨b, hb, haddr, -, hsize⟩ := h.owned x hx
    obtain ⟨hlo, hhi⟩ := Tiles.mem_le h.row hb
    unfold Block.stop Layout.top at hhi
    omega
  · refine h.nodup.imp_of_mem fun {x y} hx hy hne => ?_
    obtain ⟨b, hb, hbx, -, hbsize⟩ := h.owned x hx
    obtain ⟨c, hc, hcy, -, hcsize⟩ := h.owned y hy
    have hsep := Tiles.disjoint h.row hb hc (by omega)
    unfold Block.stop at hsep
    omega

theorem heapInit_inv (L : Layout) (m : Mem) :
    HeapInv L (heapInit L m) [⟨L.heapStart, kernelHeapSize - hdrSize, true⟩] := by
  exact ⟨initHeap_row L m, by simp [heapInit], List.Pairwise.nil⟩

/-! ## 3. Allocation -/

theorem cutRow_owned {x bsize sz : Nat} (hle : sz ≤ bsize) :
    ∃ c ∈ cutRow x bsize sz, c.addr = x ∧ c.tag = false ∧ sz ≤ c.size := by
  unfold cutRow
  split_ifs
  · exact ⟨_, List.mem_cons_self, rfl, rfl, Nat.le_refl _⟩
  · exact ⟨_, List.mem_cons_self, rfl, rfl, hle⟩

/-- A new allocation in a block of its own. -/
theorem HeapInv.push {p sz : Nat} (h : HeapInv L s bs) (hrow : Row m' L.heapStart bs' L.top)
    (hkeep : ∀ x, Owned bs x → Owned bs' x) (hnew : Owned bs' (p, sz))
    (hfresh : ∀ x, Owned bs x → x.1 ≠ p) : HeapInv L ⟨m', (p, sz) :: s.live⟩ bs' := by
  refine ⟨hrow, fun x hx => ?_, List.pairwise_cons.mpr ⟨fun x hx => ?_, h.nodup⟩⟩
  · rcases List.mem_cons.mp hx with rfl | hx
    · exact hnew
    · exact hkeep x (h.owned x hx)
  · exact (hfresh x (h.owned x hx)).symm

/-- A block in use stays owned when the row changes around it. -/
theorem Owned.of_mem {x : Nat × Nat} (h : Owned bs x)
    (hkeep : ∀ c ∈ bs, c.tag = false → c ∈ bs') : Owned bs' x := by
  obtain ⟨c, hc, haddr, hused, hsize⟩ := h
  exact ⟨c, hkeep c hc hused, haddr, hused, hsize⟩

/-- The data of a block in use is not in a free block. -/
theorem data_outside_free {c : Block Bool} {y : Nat} (h : Row s.mem L.heapStart bs L.top)
    (hb : b ∈ bs) (hfree : b.tag = true) (hc : c ∈ bs) (hused : c.tag = false)
    (hlo : c.addr + hdrSize ≤ y) (hhi : y < c.stop hdrSize) :
    y < b.addr ∨ b.stop hdrSize ≤ y := by
  have hne : c.addr ≠ b.addr := by
    intro heq
    rw [h.eq_of_addr hc hb heq, hfree] at hused
    cases hused
  rcases Tiles.disjoint h hc hb hne with hsep | hsep
  · exact Or.inl (by omega)
  · exact Or.inr (by omega)

/-- The data of a block is in no header. -/
theorem data_outside_header {c : Block Bool} {y : Nat} (h : Row s.mem L.heapStart bs L.top)
    (hb : b ∈ bs) (hc : c ∈ bs) (hlo : c.addr + hdrSize ≤ y) (hhi : y < c.stop hdrSize) :
    y < b.addr ∨ b.addr + hdrSize ≤ y := by
  rcases eq_or_ne c.addr b.addr with heq | hne
  · exact Or.inr (by omega)
  · have hsep := Tiles.disjoint h hc hb hne
    unfold Block.stop at *
    omega

/-- **`kmalloc` takes a step**: it returns, keeps the invariant, and keeps the live bytes. -/
theorem kmalloc_step (h : HeapInv L s bs) (sz : UInt32) (hok : heapOk L s (.kmalloc sz) = true) :
    ∃ t bs', heapStep L s (.kmalloc sz) = some t ∧ HeapInv L t bs' ∧
      ∀ x ∈ s.live, ∀ y, x.1 ≤ y → y < x.1 + x.2 → t.mem y = s.mem y := by
  obtain ⟨hnull, -⟩ | ⟨b, htakes⟩ := kmalloc_cases h.row sz
  · refine ⟨s, bs, ?_, h, fun _ _ _ _ _ => rfl⟩
    rw [heapStep, hnull]
    rfl
  have hb := htakes.mem
  obtain ⟨hfree, hle⟩ := htakes.fits
  have hhi := (Tiles.mem_le h.row hb).2
  have hpos := (h.row.addr_pos hb).1
  have hsize : size s.mem b.addr = b.size := congrArg Prod.fst (Tiles.mem_rd h.row hb)
  have hstep : heapStep L s (.kmalloc sz) = some ⟨prepareBestBlock L s.mem b.addr sz.toNat,
      (b.addr + hdrSize, sz.toNat) :: s.live⟩ := by
    rw [heapStep, htakes.call, Option.map_some, HeapState.alloc, if_neg (by omega)]
  have hspares : splitSpares b.size sz.toNat = true := by
    rw [heapOk, htakes.best] at hok
    simpa [Nat.ne_of_gt hpos, hsize] using hok
  obtain ⟨pre, post, rfl, -⟩ := Tiles.split h.row hb
  have hrow := h.row.cut (Nat.le_refl _) hle hspares
  refine ⟨_, _, hstep, h.push hrow ?_ ?_ ?_, ?_⟩
  · refine fun x hx => hx.of_mem fun c hc hused => ?_
    simp only [List.mem_append, List.mem_cons] at hc
    rcases hc with hc | rfl | hc
    · simp [hc]
    · rw [hfree] at hused
      cases hused
    · simp [hc]
  · obtain ⟨c, hc, haddr, hused, hsz⟩ := cutRow_owned (x := b.addr) hle
    exact ⟨c, by simp [hc], by rw [haddr], hused, hsz⟩
  · rintro x ⟨c, hc, haddr, hused, -⟩ heq
    have hcb : c = b := h.row.eq_of_addr hc hb (by omega)
    rw [hcb, hfree] at hused
    cases hused
  · intro x hx y hxy hyx
    obtain ⟨c, hc, haddr, hused, hsz⟩ := h.owned x hx
    have hout := data_outside_free h.row hb hfree hc hused (y := y) (by omega)
      (by unfold Block.stop; omega)
    rw [← hsize] at hle
    refine prepareBestBlock_of_ne hle (hsize.symm ▸ hhi) ?_
    rw [hsize]
    unfold Block.stop at hout
    omega

/-- The three headers that `kmalloc_align` writes are not in the data of a block in use. -/
theorem moveCut_data {pre post : List (Block Bool)} {l c : Block Bool} {pad sz y : Nat}
    (h : Row s.mem L.heapStart (pre ++ l :: b :: post) L.top)
    (hlast : mLastBlock s.mem b.addr = l.addr) (hfree : b.tag = true) (hpad : pad < b.size)
    (hle : sz ≤ b.size - pad) (hc : c ∈ pre ++ l :: b :: post) (hused : c.tag = false)
    (hlo : c.addr + hdrSize ≤ y) (hhi : y < c.stop hdrSize) :
    prepareBestBlock L (moveBlock s.mem b.addr pad).2 (b.addr + pad) sz y = s.mem y := by
  have hb : b ∈ pre ++ l :: b :: post := by simp
  have htop := (Tiles.mem_le h hb).2
  have hsize : size s.mem b.addr = b.size := congrArg Prod.fst (Tiles.mem_rd h hb)
  have hlb := (tiles_append.mp h).choose_spec.2.2.2.1
  have hrdl : rdBlk s.mem l.addr = (l.size, l.tag) := Tiles.mem_rd h (by simp)
  obtain ⟨-, -, hsize', hsame⟩ := moveBlock_spec hlb.symm hrdl hsize htop hlast hpad
  have hbstop : b.stop hdrSize = b.addr + hdrSize + b.size := rfl
  have hout := data_outside_free h hb hfree hc hused hlo hhi
  have hcut : prepareBestBlock L (moveBlock s.mem b.addr pad).2 (b.addr + pad) sz y =
      (moveBlock s.mem b.addr pad).2 y :=
    prepareBestBlock_of_ne (by omega) (by omega) (by omega)
  have hl := data_outside_header h (b := l) (by simp) hc hlo hhi
  rw [hcut]
  unfold hdrSize at *
  exact hsame y hl (by omega)

/-- **`kmalloc_align` takes a step.** -/
theorem kmallocAlign_step (h : HeapInv L s bs) (sz align : UInt32)
    (hok : heapOk L s (.kmallocAlign sz align) = true) :
    ∃ t bs', heapStep L s (.kmallocAlign sz align) = some t ∧ HeapInv L t bs' ∧
      ∀ x ∈ s.live, ∀ y, x.1 ≤ y → y < x.1 + x.2 → t.mem y = s.mem y := by
  obtain ⟨hnull, -⟩ | ⟨b, pad, htakes⟩ := kmallocAlign_cases h.row sz align
  · refine ⟨s, bs, ?_, h, fun _ _ _ _ _ => rfl⟩
    rw [heapStep, hnull]
    rfl
  have hb := htakes.mem
  obtain ⟨hfree, hpad, hle⟩ := htakes.fits
  obtain ⟨hlo, hhi⟩ := Tiles.mem_le h.row hb
  have hsize : size s.mem b.addr = b.size := congrArg Prod.fst (Tiles.mem_rd h.row hb)
  have hpos := (h.row.addr_pos hb).1
  rw [heapOk, htakes.best] at hok
  simp only [Option.all_some, Bool.or_eq_true, beq_iff_eq, Bool.and_eq_true, Nat.ne_of_gt hpos,
    false_or, hsize, htakes.pad_eq] at hok
  obtain ⟨hfollows, hspares⟩ := hok
  rw [heapStep, htakes.call]
  clear htakes
  obtain ⟨pre, l, post, rfl, hlast⟩ := followsLast_row h.row hb hfollows
  have hrow := h.row.moveCut (Nat.le_refl _) hlast.symm hpad hle hspares
  obtain ⟨x, -, hax, hrdl, hlb, -⟩ := tiles_append.mp h.row
  subst hax
  have hmove := (moveBlock_spec hlb.symm hrdl hsize hhi hlast.symm hpad).1
  have hret : w32 (b.addr + pad + hdrSize) = b.addr + pad + hdrSize := by
    have hroom := L.room
    unfold Block.stop Layout.top at hhi
    exact w32_of_lt (by omega)
  have hlow := L.low
  have hstep : Option.map (s.alloc sz) (some (w32 ((moveBlock s.mem b.addr pad).1 + hdrSize),
      prepareBestBlock L (moveBlock s.mem b.addr pad).2 (moveBlock s.mem b.addr pad).1 sz.toNat)) =
        some ⟨prepareBestBlock L (moveBlock s.mem b.addr pad).2 (b.addr + pad) sz.toNat,
          (b.addr + pad + hdrSize, sz.toNat) :: s.live⟩ := by
    rw [hmove, hret, Option.map_some, HeapState.alloc, if_neg (by omega)]
  refine ⟨_, _, hstep, h.push hrow ?_ ?_ ?_, ?_⟩
  · rintro x ⟨c, hc, haddr, hused, hsz⟩
    simp only [List.mem_append, List.mem_cons] at hc
    rcases hc with hc | rfl | rfl | hc
    · exact ⟨c, by simp [hc], haddr, hused, hsz⟩
    · -- the block before keeps its data and gains the padding
      exact ⟨⟨c.addr, c.size + pad, c.tag⟩, by simp, haddr, hused, Nat.le_add_right_of_le hsz⟩
    · rw [hfree] at hused
      cases hused
    · exact ⟨c, by simp [hc], haddr, hused, hsz⟩
  · obtain ⟨c, hc, haddr, hused, hsz⟩ := cutRow_owned (x := b.addr + pad) hle
    exact ⟨c, by simp [hc], by rw [haddr], hused, hsz⟩
  · rintro x ⟨c, hc, haddr, hused, -⟩ heq
    have hout := data_outside_free h.row hb hfree hc hused (y := c.addr + hdrSize)
    have hne : c.addr ≠ b.addr := by
      intro hcb
      rw [h.row.eq_of_addr hc hb hcb, hfree] at hused
      cases hused
    have hsep := Tiles.disjoint h.row hc hb hne
    unfold Block.stop at hsep
    omega
  · intro x hx y hxy hyx
    obtain ⟨c, hc, haddr, hused, hsz⟩ := h.owned x hx
    have hcstop : c.stop hdrSize = c.addr + hdrSize + c.size := rfl
    simp only
    exact moveCut_data h.row hlast.symm hfree hpad hle hc hused (by omega) (by omega)

/-- The calls return. -/
theorem HeapInv.returns (h : HeapInv L s bs) (sz align : UInt32) :
    (kmalloc L s.mem sz).isSome ∧ (kmallocAlign L s.mem sz align).isSome := by
  constructor
  · obtain ⟨hnull, -⟩ | ⟨b, htakes⟩ := kmalloc_cases h.row sz
    · rw [hnull]
      rfl
    · rw [htakes.call]
      rfl
  · obtain ⟨hnull, -⟩ | ⟨b, pad, htakes⟩ := kmallocAlign_cases h.row sz align
    · rw [hnull]
      rfl
    · rw [htakes.call]
      rfl

/-! ## 4. Freeing, and the clients' writes -/

theorem owns_iff {p n : Nat} : s.owns p n = true ↔ ∃ x ∈ s.live, x.1 = p ∧ n ≤ x.2 := by
  simp [HeapState.owns]

/-- What a client writes is in no header. -/
theorem HeapInv.owned_ne (h : HeapInv L s bs) {p off y : Nat} (hlive : s.owns p (off + 1) = true)
    (hb : b ∈ bs) (hlo : b.addr ≤ y) (hhi : y < b.addr + hdrSize) : y ≠ p + off := by
  obtain ⟨x, hx, rfl, hoff⟩ := owns_iff.mp hlive
  obtain ⟨c, hc, hcx, -, hcsize⟩ := h.owned x hx
  have hout := data_outside_header (y := x.1 + off) h.row hb hc (by omega)
    (by unfold Block.stop; omega)
  omega

theorem kfree_step {blk : Nat} (h : HeapInv L s bs) (hok : heapOk L s (.kfree blk) = true)
    (hstep : heapStep L s (.kfree blk) = some t) :
    (∃ bs', HeapInv L t bs') ∧
      ∀ x ∈ s.live, ∀ y, x.1 ≤ y → y < x.1 + x.2 → t.mem y = s.mem y := by
  rw [heapStep] at hstep
  by_cases hlive : s.owns blk 0 = true
  · rw [if_pos hlive] at hstep
    obtain rfl := Option.some.inj hstep
    obtain ⟨x, hx, rfl, -⟩ := owns_iff.mp hlive
    obtain ⟨b, hb, haddr, hused, -⟩ := h.owned x hx
    have hsub : x.1 - hdrSize = b.addr := by omega
    rw [heapOk] at hok
    simp only [hsub, Bool.or_eq_true, decide_eq_true_eq, Bool.not_eq_true', or_assoc] at hok
    obtain ⟨bs', hrow, hkeep, honly⟩ := kfree_row h.row hb hok
    rw [haddr] at hrow honly
    refine ⟨⟨bs', hrow, fun z hz => ?_, h.nodup.filter _⟩, fun z hz y hlo hhi => ?_⟩
    · simp only [List.mem_filter, bne_iff_ne] at hz
      obtain ⟨c, hc, hcz, hcused, hcsize⟩ := h.owned z hz.1
      refine ⟨c, hkeep c hc hcused ?_, hcz, hcused, hcsize⟩
      rintro rfl
      exact hz.2 (hcz.symm.trans haddr)
    · obtain ⟨c, hc, hcz, -, hcsize⟩ := h.owned z hz
      refine honly y fun a ha => ?_
      obtain ⟨d, hd, rfl⟩ := List.mem_map.mp ha
      exact data_outside_header h.row hd hc (by omega) (by unfold Block.stop; omega)
  · rw [if_neg hlive] at hstep
    cases hstep

theorem write_step {p off : Nat} {v : UInt8} (h : HeapInv L s bs)
    (hstep : heapStep L s (.write p off v) = some t) : HeapInv L t bs := by
  rw [heapStep] at hstep
  by_cases hlive : s.owns p (off + 1) = true
  · rw [if_pos hlive] at hstep
    obtain rfl := Option.some.inj hstep
    refine ⟨Tiles.congr h.row fun b hb => rdBlk_congr fun y hlo hhi => ?_, h.owned, h.nodup⟩
    exact store8_of_ne (h.owned_ne hlive hb (by omega) hhi)
  · rw [if_neg hlive] at hstep
    cases hstep

/-! ## 5. Every run -/

/-- One step keeps the invariant. -/
theorem heapStep_inv {op : HeapOp} (h : HeapInv L s bs) (hok : heapOk L s op = true)
    (hstep : heapStep L s op = some t) : ∃ bs', HeapInv L t bs' := by
  cases op with
  | kmalloc sz =>
    obtain ⟨u, bs', hu, hinv, -⟩ := kmalloc_step h sz hok
    obtain rfl := Option.some.inj (hu.symm.trans hstep)
    exact ⟨bs', hinv⟩
  | kmallocAlign sz align =>
    obtain ⟨u, bs', hu, hinv, -⟩ := kmallocAlign_step h sz align hok
    obtain rfl := Option.some.inj (hu.symm.trans hstep)
    exact ⟨bs', hinv⟩
  | kfree blk => exact (kfree_step h hok hstep).1
  | write p off v => exact ⟨bs, write_step h hstep⟩

/-- One step keeps the live bytes. -/
theorem HeapInv.keepsLive {op : HeapOp} (h : HeapInv L s bs) (hok : heapOk L s op = true) :
    KeepsLive L s op := by
  intro t hstep x hx hother y hlo hhi
  cases op with
  | kmalloc sz =>
    obtain ⟨u, bs', hu, -, hkeep⟩ := kmalloc_step h sz hok
    obtain rfl := Option.some.inj (hu.symm.trans hstep)
    exact hkeep x hx y hlo hhi
  | kmallocAlign sz align =>
    obtain ⟨u, bs', hu, -, hkeep⟩ := kmallocAlign_step h sz align hok
    obtain rfl := Option.some.inj (hu.symm.trans hstep)
    exact hkeep x hx y hlo hhi
  | kfree blk => exact (kfree_step h hok hstep).2 x hx y hlo hhi
  | write p off v => exact absurd hother id

/-- **The heap is safe on runs that take none of the wrong turns.**  From the heap `init_heap`
leaves, in every state reached by `heapOk` steps, the live allocations are inside the heap and do
not overlap, a `heapOk` call changes no byte of another one, and `kmalloc` and `kmalloc_align`
return. -/
theorem heap_safe (L : Layout) (m : Mem) (ops : List HeapOp) (t : HeapState)
    (hrun : Run (Guarded (fun s op => heapOk L s op = true) (stepOf (heapStep L)))
      (heapInit L m) ops t) :
    Safe L t ∧ (∀ op, heapOk L t op = true → KeepsLive L t op) ∧
      ∀ sz align, (kmalloc L t.mem sz).isSome ∧ (kmallocAlign L t.mem sz align).isSome := by
  have hkeep : ∀ s op u, (∃ bs, HeapInv L s bs) →
      Guarded (fun s op => heapOk L s op = true) (stepOf (heapStep L)) s op u →
        ∃ bs, HeapInv L u bs := by
    rintro s op u ⟨bs, hs⟩ ⟨hok, hstep⟩
    exact heapStep_inv hs hok hstep
  obtain ⟨bs, h⟩ := Run.invariant hkeep hrun ⟨_, heapInit_inv L m⟩
  exact ⟨h.safe, fun _ hok => h.keepsLive hok, h.returns⟩

/-- The heap after `ops`, from zeroed memory, if every step is `heapOk`. -/
def runOk (ops : List HeapOp) : Option HeapState :=
  execOk (heapStep exampleLayout) (heapOk exampleLayout) (heapInit exampleLayout fun _ => 0) ops

/-- Two blocks, an aligned one behind them, a free and a reuse. -/
def alignedOps : List HeapOp :=
  [.kmalloc 100, .kmalloc 100, .kmallocAlign 0x400 0x1000, .kfree 0xC010000C, .kmalloc 50]

theorem heap_safe_aligned : ∃ t, runOk alignedOps = some t ∧
    t.live = [(0xC010000C, 50), (0xC0101000, 0x400), (0xC010007C, 100)] ∧
    Safe exampleLayout t ∧ (∀ op, heapOk exampleLayout t op = true → KeepsLive exampleLayout t op) ∧
      ∀ sz align, (kmalloc exampleLayout t.mem sz).isSome ∧
        (kmallocAlign exampleLayout t.mem sz align).isSome := by
  have hlive : (runOk alignedOps).map (fun t => t.live) =
      some [(0xC010000C, 50), (0xC0101000, 0x400), (0xC010007C, 100)] := by decide +kernel
  obtain ⟨t, ht, htl⟩ := Option.map_eq_some_iff.mp hlive
  exact ⟨t, ht, htl, heap_safe exampleLayout (fun _ => 0) alignedOps t (run_of_execOk ht)⟩

/-- Two blocks; the first is freed, cut in two by a smaller request, its rest is given out, and
then both old blocks are freed.  The last `kfree` follows the stale `prev_size` and merges over the
rest. -/
def staleOps : List HeapOp :=
  [.kmalloc 100, .kmalloc 100, .kfree 0xC010000C, .kmalloc 50, .kmalloc 38, .kfree 0xC010000C,
    .kfree 0xC010007C, .kmalloc 150]

/-- **A stale `prev_size` makes allocations overlap**: 150 bytes are given out that contain the 38
bytes of a live block. -/
theorem stale_prev_size_overlap : ∃ t,
    Run (stepOf (heapStep exampleLayout)) (heapInit exampleLayout fun _ => 0) staleOps t ∧
      ¬ Safe exampleLayout t := by
  have hlive : (execOk (heapStep exampleLayout) (fun _ _ => true)
      (heapInit exampleLayout fun _ => 0) staleOps).map (fun t => t.live) =
        some [(0xC010000C, 150), (0xC010004A, 38)] := by decide +kernel
  obtain ⟨t, ht, htl⟩ := Option.map_eq_some_iff.mp hlive
  refine ⟨t, (run_of_execOk ht).of_guarded, fun hsafe => ?_⟩
  have hdisj := hsafe.disjoint
  rw [htl] at hdisj
  revert hdisj
  decide

end AndixOs.Heap
