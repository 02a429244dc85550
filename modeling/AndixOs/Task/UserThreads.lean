/-
# Address blocks of user threads

Each thread of a process gets a block of 64 pages: its TLS from the start on, its stack below the
last page, which is left unmapped as a guard.  `find_free_thread_block` looks at one page of a
candidate, the last one of its stack, but the candidates are 64 bytes apart, not 64 pages: the
second thread's block begins one page behind the first one's.  Blocks are apart only where
something else is mapped in between (`user_threads_apart_iff`).
-/
import AndixOs.Lib.Run
import AndixOs.Mm.TaskMem

namespace AndixOs.Task

open AndixOs AndixOs.Mm

/-! ## 1. `user_process.c` -/

def threadLocalPagesSpacing : Nat := 64
def threadVmemStart : Nat := 0x60000000
def threadVmemEnd : Nat := 0x6FFFFFC0
def defaultUserStackPages : Nat := 8

/-- `tls_template`. -/
structure TlsTemplate where
  start : UInt32
  size : UInt32

/-- A thread: what `create_user_thread` sets, the block it was given, and the ranges that were
written for it. -/
structure UserThread where
  base : Nat
  threadPointer : Nat
  tlsStart : Nat
  tlsSize : Nat
  stackBase : Nat
  stackLimit : Nat
  wrote : List (Nat × Nat)

/-- A process whose table is active, with its threads in the order of their creation. -/
structure ThreadSpace where
  k : Kernel
  tls : TlsTemplate
  threads : List UserThread

/-- `mmu_translate`: there is a write translation. -/
def mmuTranslate (k : Kernel) (va : Nat) : Bool := (writeAddr k va).isSome

/-- The loop of `find_free_thread_block`. -/
def findBlockLoop (k : Kernel) : Nat → Nat → Option Nat
  | 0, _ => none
  | n + 1, p =>
    if mmuTranslate k (p + (threadLocalPagesSpacing - 2) * smallPageSize) = false then some p
    else findBlockLoop k n (p + threadLocalPagesSpacing)

/-- The candidates from `THREAD_VMEM_START` on that lie before `THREAD_VMEM_END`. -/
def blockCandidates : Nat := 0x3FFFFF

/-- `find_free_thread_block`. -/
def findFreeThreadBlock (k : Kernel) : Option Nat := findBlockLoop k blockCandidates threadVmemStart

/-- `map_user_memory` of a small page for the user; its failures are not looked at. -/
def mapUserMemory (k : Kernel) (s : KernelMemInfo) : Kernel :=
  if s.vaddr ≥ 0x80000000 then k
  else if s.ap = apSvcRwUsrNo ∨ s.ap = apSvcRoUsrNo ∨ s.ap = apSvcNoUsrNo then k
  else { k with proc := { k.proc with vuserPD := (mapMemoryV k.proc.vuserPD s).2 } }

/-- A loop of `create_user_thread`: pages from `i` on get the frames that `pmm_allocate_page`
returns, a missing one standing for 0; and the frames left over. -/
def mapThreadPages (start : Nat) : Nat → Nat → List Nat → Kernel → Option (List Nat) × Kernel
  | 0, _, frames, k => (some frames, k)
  | _ + 1, _, [], k => (none, k)
  | n + 1, i, frame :: frames, k =>
    if frame = 0 then (none, k)
    else mapThreadPages start n (i + 1) frames
      (mapUserMemory k (taskMemInfo k frame (w32 (start + i * smallPageSize))))

/-- Writing to these pages ends in no data abort. -/
def pagesWritable (k : Kernel) (start n : Nat) : Bool :=
  (List.range n).all fun i => mmuTranslate k (w32 (start + i * smallPageSize))

/-- The number of pages that the TLS of a thread gets. -/
def tlsPages (tls : TlsTemplate) : Nat :=
  if tls.start ≠ 0 ∧ tls.size ≠ 0 then neededPages 0 tls.size.toNat else 0

/-- The thread in the block at `base`.  The limit of its stack counts the pages of the TLS as
bytes. -/
def newThread (tls : TlsTemplate) (base : Nat) : UserThread :=
  let pages := tlsPages tls
  let stackBase := base + (threadLocalPagesSpacing - 1) * smallPageSize
  let firstPage := stackBase - defaultUserStackPages * smallPageSize
  let stack := (firstPage, defaultUserStackPages * smallPageSize)
  if pages = 0 then
    { base := base, threadPointer := sub32 base 8, tlsStart := 0, tlsSize := 0,
      stackBase := stackBase, stackLimit := base, wrote := [stack] }
  else
    { base := base, threadPointer := sub32 base 8, tlsStart := base,
      tlsSize := tls.size.toNat, stackBase := stackBase, stackLimit := base + pages + 1,
      wrote := [(base, tls.size.toNat),
        (base + tls.size.toNat, pages * smallPageSize - tls.size.toNat), stack] }

/-- What happens in a call: whether `create_kernel_thread` succeeds, and the frames that
`pmm_allocate_page` returns. -/
structure CreateCall where
  kernelThread : Bool
  frames : List Nat

/-- `create_user_thread`; `none` for a data abort.  Where it returns `NULL` there is no new thread,
and the pages stay: `release_thread_block` gets the physical address of the table, and works on
what lies at this address in the process. -/
def createUserThread (s : ThreadSpace) (c : CreateCall) : Option ThreadSpace :=
  match findFreeThreadBlock s.k with
  | none => some s
  | some base =>
    if c.kernelThread = false then some s
    else
      match mapThreadPages base (tlsPages s.tls) 0 c.frames s.k with
      | (none, k) => some { s with k := k }
      | (some frames, k) =>
        if pagesWritable k base (tlsPages s.tls) = false then none
        else
          let firstPage := base + (threadLocalPagesSpacing - 1) * smallPageSize -
            defaultUserStackPages * smallPageSize
          match mapThreadPages firstPage defaultUserStackPages 0 frames k with
          | (none, k) => some { s with k := k }
          | (some _, k) =>
            if pagesWritable k firstPage defaultUserStackPages = false then none
            else some { s with k := k, threads := s.threads ++ [newThread s.tls base] }

/-- A thread is created, or the process gets another page. -/
inductive ThreadEvent where
  | create (c : CreateCall)
  | mapPage (paddr vaddr : Nat)

def threadStep (s : ThreadSpace) : ThreadEvent → Option ThreadSpace
  | .create c => createUserThread s c
  | .mapPage paddr vaddr => some { s with k := mapUserMemory s.k (taskMemInfo s.k paddr vaddr) }

/-! ## 2. What is promised -/

/-- The pages of a thread: its TLS, its stack and the guard behind it. -/
def UserThread.pages (th : UserThread) : List Nat :=
  (List.range (if th.tlsSize = 0 then 0 else neededPages 0 th.tlsSize)).map
      (fun i => th.tlsStart + i * smallPageSize) ++
    (List.range (defaultUserStackPages + 1)).map
      fun i => th.stackBase - defaultUserStackPages * smallPageSize + i * smallPageSize

/-- The block of a thread. -/
def UserThread.block (th : UserThread) (x : Nat) : Prop :=
  th.base ≤ x ∧ x < th.base + threadLocalPagesSpacing * smallPageSize

/-- No block has a page of the other thread, and the creation of the second wrote to no page of the
first. -/
structure Apart (a b : UserThread) : Prop where
  first : ∀ p ∈ a.pages, ¬ b.block p
  second : ∀ p ∈ b.pages, ¬ a.block p
  kept : ∀ r ∈ b.wrote, ∀ x, r.1 ≤ x → x < r.1 + r.2 → x / smallPageSize * smallPageSize ∉ a.pages

/-- The pages of each thread are in its block, inside the space for threads, and threads are
apart. -/
structure ThreadsApart (threads : List UserThread) : Prop where
  inside : ∀ th ∈ threads, threadVmemStart ≤ th.base ∧
    th.base + threadLocalPagesSpacing * smallPageSize ≤ 0x70000000 ∧ ∀ p ∈ th.pages, th.block p
  apart : threads.Pairwise Apart

/-- The number of pages between `THREAD_VMEM_START` and `0x70000000`. -/
def threadVmemPages : Nat := 0x10000

/-- The page that the search looks at for the block that begins at page `j` is mapped. -/
def probed (k : Kernel) (j : Nat) : Bool :=
  mmuTranslate k (threadVmemStart + (j + (threadLocalPagesSpacing - 2)) * smallPageSize)

/-- The allocator returns this many frames. -/
def framesFor (n : Nat) (frames : List Nat) : Prop :=
  n ≤ frames.length ∧ ∀ f ∈ frames.take n, f ≠ 0

instance (n : Nat) (frames : List Nat) : Decidable (framesFor n frames) :=
  inferInstanceAs (Decidable (_ ∧ _))

/-- The call gets its thread structure and all its frames. -/
def CreateCall.succeeds (c : CreateCall) (pages : Nat) : Prop :=
  c.kernelThread = true ∧ framesFor pages c.frames

/-- The TLS fits a block, the 63 pages behind the stack of every thread are mapped, and some block
that ends below `0x70000000` looks free. -/
structure RoomBehind (s : ThreadSpace) : Prop where
  tls : tlsPages s.tls ≤ threadLocalPagesSpacing
  behind : ∀ th ∈ s.threads, ∀ i < 63,
    mmuTranslate s.k (th.stackBase + i * smallPageSize) = true
  below : ∃ j, j + threadLocalPagesSpacing ≤ threadVmemPages ∧ probed s.k j = false

/-- There is room for the thread, if its allocations succeed and the search finds a block. -/
def roomForThread (s : ThreadSpace) : ThreadEvent → Prop
  | .mapPage _ _ => True
  | .create c => c.succeeds (tlsPages s.tls + defaultUserStackPages) →
      (∃ j < threadVmemPages, probed s.k j = false) → RoomBehind s

variable {k k' : Kernel} {s t : ThreadSpace} {tls : TlsTemplate} {base j n : Nat}

/-! ## 3. Translations -/

/-- The attributes of a page are those of all its addresses. -/
theorem walk_attr_page (t : PageTable) {va vb : Nat} (hpage : vb / 0x1000 = va / 0x1000) :
    (walk t vb).map (·.attr) = (walk t va).map (·.attr) := by
  obtain ⟨h1, h2⟩ := page_eq_iff.mp hpage
  unfold walk
  rw [h1, h2]
  split
  · rfl
  · dsimp only
    split <;> rfl
  · rfl

theorem mmuTranslate_user {va : Nat} (hva : va < 0x80000000) :
    mmuTranslate k va = ((walk k.proc.vuserPD va).map (·.attr)).any
      fun a => a.ap == 1 || a.ap == 2 || a.ap == 3 := by
  unfold mmuTranslate writeAddr Mm.translate
  rw [if_pos hva]
  cases walk k.proc.vuserPD va with
  | none => rfl
  | some l =>
    change (if l.svcWrites then some l.pa else none).isSome = l.svcWrites
    cases l.svcWrites <;> rfl

/-- A page of the process is translated as a whole. -/
theorem mmuTranslate_page {va vb : Nat} (hpage : vb / 0x1000 = va / 0x1000)
    (hva : va < 0x80000000) : mmuTranslate k vb = mmuTranslate k va := by
  rw [mmuTranslate_user hva, mmuTranslate_user (by omega), walk_attr_page _ hpage]

/-- What is translated stays translated. -/
def Grows (k k' : Kernel) : Prop := ∀ va, mmuTranslate k va = true → mmuTranslate k' va = true

theorem mapUserMemory_grows (k : Kernel) (paddr vaddr : Nat) :
    Grows k (mapUserMemory k (taskMemInfo k paddr vaddr)) := by
  intro va h
  unfold mapUserMemory
  split
  · exact h
  split
  · exact h
  by_cases hva : va < 0x80000000
  · rw [mmuTranslate_user hva] at h ⊢
    have hmapped : walk k.proc.vuserPD va ≠ none := by
      intro hnone
      rw [hnone] at h
      exact Bool.false_ne_true h
    dsimp only
    rwa [walk_mapTaskPage, if_neg fun hn => hmapped hn.2]
  · unfold mmuTranslate writeAddr Mm.translate at h ⊢
    rwa [if_neg hva] at h ⊢

theorem mapThreadPages_grows {start : Nat} :
    ∀ {n i : Nat} {frames : List Nat} {k : Kernel}, Grows k (mapThreadPages start n i frames k).2
  | 0, _, _, _ => fun _ h => h
  | _ + 1, _, [], _ => fun _ h => h
  | n + 1, i, frame :: frames, k => by
    rw [mapThreadPages]
    split
    · exact fun _ h => h
    · exact fun va h => mapThreadPages_grows va (mapUserMemory_grows k _ _ va h)

theorem framesFor_cons {frame : Nat} {frames : List Nat} :
    framesFor (n + 1) (frame :: frames) ↔ frame ≠ 0 ∧ framesFor n frames := by
  simp [framesFor, and_left_comm]

/-- A loop gets all its frames, or fails. -/
theorem mapThreadPages_frames {start : Nat} :
    ∀ {n i : Nat} {frames : List Nat} {k : Kernel}, (mapThreadPages start n i frames k).1 =
      if framesFor n frames then some (frames.drop n) else none
  | 0, _, frames, _ => by simp [mapThreadPages, framesFor]
  | n + 1, _, [], _ => by simp [mapThreadPages, framesFor]
  | n + 1, i, frame :: frames, k => by
    rw [mapThreadPages]
    split
    · rename_i hzero
      exact (if_neg fun h => (framesFor_cons.mp h).1 hzero).symm
    · rename_i hne
      rw [mapThreadPages_frames]
      exact if_congr (framesFor_cons.trans (and_iff_right hne)).symm rfl rfl

theorem mapThreadPages_none {start i : Nat} {frames : List Nat}
    (h : mapThreadPages start n i frames k = (none, k')) : ¬ framesFor n frames ∧ Grows k k' := by
  have hframes := congrArg Prod.fst h
  have hgrows : (mapThreadPages start n i frames k).2 = k' := congrArg Prod.snd h
  rw [mapThreadPages_frames] at hframes
  refine ⟨fun hn => ?_, hgrows ▸ mapThreadPages_grows⟩
  rw [if_pos hn] at hframes
  exact Option.some_ne_none _ hframes

theorem mapThreadPages_some {start i : Nat} {frames rest : List Nat}
    (h : mapThreadPages start n i frames k = (some rest, k')) :
    framesFor n frames ∧ rest = frames.drop n ∧ Grows k k' := by
  have hframes := congrArg Prod.fst h
  have hgrows : (mapThreadPages start n i frames k).2 = k' := congrArg Prod.snd h
  rw [mapThreadPages_frames] at hframes
  split at hframes
  · rename_i hn
    exact ⟨hn, (Option.some.inj hframes).symm, hgrows ▸ mapThreadPages_grows⟩
  · exact absurd hframes.symm (Option.some_ne_none rest)

theorem framesFor_add {m n : Nat} {frames : List Nat} :
    framesFor (m + n) frames ↔ framesFor m frames ∧ framesFor n (frames.drop m) := by
  unfold framesFor
  rw [List.take_add, List.length_drop, List.forall_mem_append]
  constructor
  · rintro ⟨hlen, h1, h2⟩
    exact ⟨⟨by omega, h1⟩, by omega, h2⟩
  · rintro ⟨⟨hm, h1⟩, hn, h2⟩
    exact ⟨by omega, h1, h2⟩

/-! ## 4. The search -/

/-- The search goes on over candidates that are mapped. -/
theorem findBlockLoop_some (h : findBlockLoop k n base = some j) :
    ∃ i < n, j = base + threadLocalPagesSpacing * i ∧
      mmuTranslate k (j + (threadLocalPagesSpacing - 2) * smallPageSize) = false ∧
      ∀ i' < i, mmuTranslate k (base + threadLocalPagesSpacing * i' +
        (threadLocalPagesSpacing - 2) * smallPageSize) = true := by
  induction n generalizing base with
  | zero => simp [findBlockLoop] at h
  | succ n ih =>
    rw [findBlockLoop] at h
    split at h
    · rename_i hfree
      obtain rfl := Option.some.inj h
      exact ⟨0, Nat.succ_pos n, rfl, hfree, fun i' hi' => absurd hi' (Nat.not_lt_zero i')⟩
    · rename_i hused
      obtain ⟨i, hi, rfl, hfree, hbefore⟩ := ih h
      refine ⟨i + 1, Nat.succ_lt_succ hi, ?_, hfree, fun i' hi' => ?_⟩
      · rw [Nat.mul_succ]
        omega
      · cases i' with
        | zero => exact Bool.of_not_eq_false hused
        | succ i' =>
          have hprev := hbefore i' (Nat.lt_of_succ_lt_succ hi')
          rwa [Nat.mul_succ, Nat.add_comm (threadLocalPagesSpacing * i'), ← Nat.add_assoc]

theorem findBlockLoop_none (h : findBlockLoop k n base = none) :
    ∀ i < n, mmuTranslate k (base + threadLocalPagesSpacing * i +
      (threadLocalPagesSpacing - 2) * smallPageSize) = true := by
  induction n generalizing base with
  | zero => exact fun i hi => absurd hi (Nat.not_lt_zero i)
  | succ n ih =>
    intro i hi
    rw [findBlockLoop] at h
    split at h
    · simp at h
    · rename_i hused
      cases i with
      | zero => exact Bool.of_not_eq_false hused
      | succ i =>
        have hrest := ih h i (Nat.lt_of_succ_lt_succ hi)
        rwa [Nat.mul_succ, Nat.add_comm (threadLocalPagesSpacing * i), ← Nat.add_assoc]

/-- **The search** finds the first page-aligned block whose probe is not mapped. -/
theorem findFreeThreadBlock_some (h : findFreeThreadBlock k = some base) :
    ∃ j < threadVmemPages, base = threadVmemStart + smallPageSize * j ∧ probed k j = false ∧
      ∀ j' < j, probed k j' = true := by
  obtain ⟨i, hi, rfl, hfree, hbefore⟩ := findBlockLoop_some h
  simp only [threadVmemStart, threadLocalPagesSpacing, smallPageSize, blockCandidates] at *
  have haligned : i % 64 = 0 := by
    by_contra hne
    have hprev := hbefore (i - 1) (by omega)
    have hpage : (0x60000000 + 64 * i + (64 - 2) * 0x1000) / 0x1000 =
        (0x60000000 + 64 * (i - 1) + (64 - 2) * 0x1000) / 0x1000 := by omega
    rw [← mmuTranslate_page hpage (by omega), hfree] at hprev
    exact Bool.false_ne_true hprev
  have hprobe : ∀ j, probed k j = mmuTranslate k (0x60000000 + 64 * (64 * j) + (64 - 2) * 0x1000) :=
    fun j => congrArg (mmuTranslate k) (by
      simp only [threadVmemStart, threadLocalPagesSpacing, smallPageSize]
      omega)
  have hi64 : i = 64 * (i / 64) := by omega
  have hbelow : i / 64 < threadVmemPages := by
    rw [threadVmemPages]
    omega
  refine ⟨i / 64, hbelow, by omega, ?_, fun j' hj' => ?_⟩
  · have hfound := hprobe (i / 64)
    rw [← hi64] at hfound
    exact hfound.trans hfree
  · rw [hprobe]
    exact hbefore (64 * j') (by omega)

theorem findFreeThreadBlock_none (h : findFreeThreadBlock k = none) :
    ∀ j < threadVmemPages, probed k j = true := by
  intro j hj
  simp only [threadVmemPages] at hj
  have hlt : 64 * j < blockCandidates := by
    rw [blockCandidates]
    omega
  have hcand := findBlockLoop_none h (64 * j) hlt
  have heq : threadVmemStart + (j + (threadLocalPagesSpacing - 2)) * smallPageSize =
      threadVmemStart + threadLocalPagesSpacing * (64 * j) +
        (threadLocalPagesSpacing - 2) * smallPageSize := by
    simp only [threadLocalPagesSpacing, smallPageSize]
    omega
  rw [probed, heq]
  exact hcand

/-! ## 5. One call -/

/-- **`create_user_thread`** adds a thread in the first free block, if its allocations succeed and
there is one. -/
theorem createUserThread_cases {c : CreateCall} (h : createUserThread s c = some t) :
    Grows s.k t.k ∧ t.tls = s.tls ∧
      ((t.threads = s.threads ∧ ¬ (c.succeeds (tlsPages s.tls + defaultUserStackPages) ∧
          ∃ j < threadVmemPages, probed s.k j = false)) ∨
        (c.succeeds (tlsPages s.tls + defaultUserStackPages) ∧ ∃ j < threadVmemPages,
          t.threads = s.threads ++ [newThread s.tls (threadVmemStart + smallPageSize * j)] ∧
          probed s.k j = false ∧ (∀ j' < j, probed s.k j' = true) ∧ probed t.k j = true)) := by
  rw [createUserThread] at h
  split at h
  · rename_i hnone
    obtain rfl := Option.some.inj h
    refine ⟨fun _ hva => hva, rfl, Or.inl ⟨rfl, fun hfree => ?_⟩⟩
    obtain ⟨j, hj, hno⟩ := hfree.2
    rw [findFreeThreadBlock_none hnone j hj] at hno
    exact Bool.false_ne_true hno.symm
  rename_i base hbase
  split at h
  · rename_i hkernel
    obtain rfl := Option.some.inj h
    exact ⟨fun _ hva => hva, rfl, Or.inl ⟨rfl, fun hs => by simp [hs.1.1] at hkernel⟩⟩
  rename_i hkernel
  obtain ⟨j, hj, rfl, hfree, hbefore⟩ := findFreeThreadBlock_some hbase
  split at h
  · rename_i k₁ hmap
    obtain rfl := Option.some.inj h
    obtain ⟨hno, hgrows⟩ := mapThreadPages_none hmap
    exact ⟨hgrows, rfl, Or.inl ⟨rfl, fun hs => hno (framesFor_add.mp hs.1.2).1⟩⟩
  rename_i frames k₁ hmap
  obtain ⟨htls, rfl, hgrows⟩ := mapThreadPages_some hmap
  split at h
  · simp at h
  dsimp only at h
  split at h
  · rename_i k₂ hmap₂
    obtain rfl := Option.some.inj h
    obtain ⟨hno, hgrows₂⟩ := mapThreadPages_none hmap₂
    exact ⟨fun va hva => hgrows₂ va (hgrows va hva), rfl,
      Or.inl ⟨rfl, fun hs => hno (framesFor_add.mp hs.1.2).2⟩⟩
  rename_i frames k₂ hmap₂
  obtain ⟨hstack, -, hgrows₂⟩ := mapThreadPages_some hmap₂
  split at h
  · simp at h
  rename_i hwritable
  obtain rfl := Option.some.inj h
  have hsucceeds : c.succeeds (tlsPages s.tls + defaultUserStackPages) :=
    ⟨Bool.of_not_eq_false hkernel, framesFor_add.mpr ⟨htls, hstack⟩⟩
  refine ⟨fun va hva => hgrows₂ va (hgrows va hva), rfl,
    Or.inr ⟨hsucceeds, j, hj, rfl, hfree, hbefore, ?_⟩⟩
  -- the last page of the stack is the one that the search looks at
  have hlast := List.all_eq_true.mp (Bool.of_not_eq_false hwritable) 7 (by decide)
  have heq : w32 (threadVmemStart + smallPageSize * j +
      (threadLocalPagesSpacing - 1) * smallPageSize - defaultUserStackPages * smallPageSize +
      7 * smallPageSize) = threadVmemStart + (j + (threadLocalPagesSpacing - 2)) * smallPageSize := by
    simp only [threadVmemStart, threadLocalPagesSpacing, smallPageSize, defaultUserStackPages,
      threadVmemPages, w32] at hj ⊢
    omega
  rw [heq] at hlast
  exact hlast

/-! ## 6. Blocks -/

@[simp] theorem newThread_base (tls : TlsTemplate) (base : Nat) :
    (newThread tls base).base = base := by
  unfold newThread
  dsimp only
  split <;> rfl

@[simp] theorem newThread_stackBase (tls : TlsTemplate) (base : Nat) :
    (newThread tls base).stackBase = base + (threadLocalPagesSpacing - 1) * smallPageSize := by
  unfold newThread
  dsimp only
  split <;> rfl

/-- The TLS has room in its pages. -/
theorem tlsSize_le (h : tlsPages tls ≠ 0) :
    tls.size.toNat ≠ 0 ∧ neededPages 0 tls.size.toNat = tlsPages tls ∧
      tls.size.toNat ≤ tlsPages tls * smallPageSize := by
  have hlt := tls.size.toNat_lt
  unfold tlsPages at h ⊢
  split at h
  · rename_i hset
    rw [if_pos hset]
    refine ⟨fun h0 => hset.2 (UInt32.toNat_inj.mp h0), rfl, ?_⟩
    rw [neededPages, if_neg (Nat.not_lt_zero _), w32, smallPageSize]
    omega
  · exact absurd rfl h

theorem mem_pages_newThread {p : Nat} : p ∈ (newThread tls base).pages ↔
    (∃ i < tlsPages tls, p = base + i * smallPageSize) ∨
      ∃ i < 9, p = base + (55 + i) * smallPageSize := by
  have hstack : ∀ i, base + (threadLocalPagesSpacing - 1) * smallPageSize -
      defaultUserStackPages * smallPageSize + i * smallPageSize =
        base + (55 + i) * smallPageSize := by
    intro i
    simp only [threadLocalPagesSpacing, defaultUserStackPages, smallPageSize]
    omega
  have htls : (List.range (if (newThread tls base).tlsSize = 0 then 0
      else neededPages 0 (newThread tls base).tlsSize)).map
        (fun i => (newThread tls base).tlsStart + i * smallPageSize) =
      (List.range (tlsPages tls)).map fun i => base + i * smallPageSize := by
    by_cases h0 : tlsPages tls = 0
    · simp [newThread, h0]
    · obtain ⟨hne, hpages, -⟩ := tlsSize_le h0
      simp only [newThread, if_neg h0, if_neg hne, hpages]
  rw [UserThread.pages, htls, newThread_stackBase, List.mem_append, List.mem_map, List.mem_map]
  simp only [List.mem_range, hstack, eq_comm (a := p)]
  rfl

/-- The pages of a thread whose TLS fits are in its block. -/
theorem pages_in_block (hfit : tlsPages tls ≤ threadLocalPagesSpacing) {p : Nat}
    (hp : p ∈ (newThread tls base).pages) : (newThread tls base).block p := by
  rw [UserThread.block, newThread_base]
  simp only [threadLocalPagesSpacing, smallPageSize] at hfit ⊢
  obtain ⟨i, hi, rfl⟩ | ⟨i, hi, rfl⟩ := mem_pages_newThread.mp hp
  · simp only [smallPageSize]
    omega
  · simp only [smallPageSize]
    omega

/-- What the creation of a thread whose TLS fits writes is in its block. -/
theorem wrote_in_block (hfit : tlsPages tls ≤ threadLocalPagesSpacing) {r : Nat × Nat} {x : Nat}
    (hr : r ∈ (newThread tls base).wrote) (h1 : r.1 ≤ x) (h2 : x < r.1 + r.2) :
    (newThread tls base).block x := by
  rw [UserThread.block, newThread_base]
  have hstack : ∀ {x : Nat}, base + (threadLocalPagesSpacing - 1) * smallPageSize -
      defaultUserStackPages * smallPageSize ≤ x →
      x < base + (threadLocalPagesSpacing - 1) * smallPageSize -
        defaultUserStackPages * smallPageSize + defaultUserStackPages * smallPageSize →
      base ≤ x ∧ x < base + threadLocalPagesSpacing * smallPageSize := by
    intro x
    simp only [threadLocalPagesSpacing, defaultUserStackPages, smallPageSize]
    omega
  by_cases h0 : tlsPages tls = 0
  · simp only [newThread, if_pos h0, List.mem_singleton] at hr
    subst hr
    exact hstack h1 h2
  · obtain ⟨-, -, hsize⟩ := tlsSize_le h0
    simp only [newThread, if_neg h0, List.mem_cons, List.not_mem_nil, or_false] at hr
    simp only [threadLocalPagesSpacing, smallPageSize] at hfit hsize
    rcases hr with rfl | rfl | rfl
    · simp only [threadLocalPagesSpacing, smallPageSize] at h1 h2 ⊢
      omega
    · simp only [threadLocalPagesSpacing, smallPageSize] at h1 h2 ⊢
      omega
    · exact hstack h1 h2

/-- **Blocks that are 64 pages apart** are apart. -/
theorem apart_of_far {b₁ b₂ : Nat} (hfit : tlsPages tls ≤ threadLocalPagesSpacing)
    (hal : b₂ % smallPageSize = 0)
    (hfar : b₁ + threadLocalPagesSpacing * smallPageSize ≤ b₂) :
    Apart (newThread tls b₁) (newThread tls b₂) := by
  have hblocks : ∀ {x}, (newThread tls b₁).block x → (newThread tls b₂).block x → False := by
    intro x h1 h2
    rw [UserThread.block, newThread_base] at h1 h2
    omega
  constructor
  · exact fun p hp h2 => hblocks (pages_in_block hfit hp) h2
  · exact fun p hp h1 => hblocks h1 (pages_in_block hfit hp)
  · intro r hr x h1 h2 hp
    have hx := wrote_in_block hfit hr h1 h2
    refine hblocks (pages_in_block hfit hp) ?_
    rw [UserThread.block, newThread_base] at hx ⊢
    simp only [threadLocalPagesSpacing, smallPageSize] at hal hx ⊢
    omega

/-- A block that begins inside another one has its guard page. -/
theorem not_apart_of_near {b₁ b₂ : Nat} (hle : b₁ ≤ b₂)
    (hnear : b₂ < b₁ + threadLocalPagesSpacing * smallPageSize) (hal₁ : b₁ % smallPageSize = 0)
    (hal₂ : b₂ % smallPageSize = 0) : ¬ Apart (newThread tls b₁) (newThread tls b₂) := by
  intro h
  refine h.first (b₁ + (55 + 8) * smallPageSize)
    (mem_pages_newThread.mpr (Or.inr ⟨8, by decide, rfl⟩)) ?_
  rw [UserThread.block, newThread_base]
  simp only [threadLocalPagesSpacing, smallPageSize] at *
  omega

/-! ## 7. Every run -/

/-- The threads are where the search found their blocks, and everything that it looked at on the way
is mapped. -/
structure Laid (s : ThreadSpace) : Prop where
  apart : ThreadsApart s.threads
  placed : ∀ th ∈ s.threads, ∃ j < threadVmemPages,
    th = newThread s.tls (threadVmemStart + smallPageSize * j) ∧ ∀ i ≤ j, probed s.k i = true

/-- More mappings change nothing. -/
theorem Laid.grows (h : Laid s) (hgrows : Grows s.k t.k) (htls : t.tls = s.tls)
    (hthreads : t.threads = s.threads) : Laid t where
  apart := hthreads ▸ h.apart
  placed th hth := by
    obtain ⟨j, hj, heq, hprobed⟩ := h.placed th (hthreads ▸ hth)
    exact ⟨j, hj, htls ▸ heq, fun i hi => hgrows _ (hprobed i hi)⟩

/-- The pages behind a stack, as the search sees them. -/
theorem behind_probed (j i : Nat) :
    mmuTranslate k ((newThread tls (threadVmemStart + smallPageSize * j)).stackBase +
      i * smallPageSize) = probed k (j + 1 + i) := by
  rw [newThread_stackBase, probed]
  congr 1
  simp only [threadVmemStart, threadLocalPagesSpacing, smallPageSize]
  omega

theorem threadVmem_aligned (x : Nat) : (threadVmemStart + smallPageSize * x) % smallPageSize = 0 := by
  simp only [threadVmemStart, smallPageSize]
  omega

/-- A thread more where there is room. -/
theorem RoomBehind.created (hroom : RoomBehind s) (h : Laid s) (htls : t.tls = s.tls)
    (hgrows : Grows s.k t.k) (hj : j < threadVmemPages)
    (hthreads : t.threads = s.threads ++ [newThread s.tls (threadVmemStart + smallPageSize * j)])
    (hfree : probed s.k j = false) (hbefore : ∀ j' < j, probed s.k j' = true)
    (hmapped : probed t.k j = true) : Laid t := by
  obtain ⟨j₀, hj₀, hfree₀⟩ := hroom.below
  have hjle : j ≤ j₀ := by
    by_contra hlt
    rw [hbefore j₀ (Nat.lt_of_not_le hlt)] at hfree₀
    exact Bool.false_ne_true hfree₀.symm
  have hfar : ∀ a ∈ s.threads,
      Apart a (newThread s.tls (threadVmemStart + smallPageSize * j)) := by
    intro a ha
    obtain ⟨ja, hja, rfl, hprobed⟩ := h.placed a ha
    have hbehind : ja + 64 ≤ j := by
      by_contra hlt
      by_cases hle : j ≤ ja
      · rw [hprobed j hle] at hfree
        exact Bool.false_ne_true hfree.symm
      · have hmap := hroom.behind _ ha (j - ja - 1) (by omega)
        rw [behind_probed, show ja + 1 + (j - ja - 1) = j by omega, hfree] at hmap
        exact Bool.false_ne_true hmap
    refine apart_of_far hroom.tls (threadVmem_aligned j) ?_
    simp only [threadLocalPagesSpacing, smallPageSize]
    omega
  constructor
  · rw [hthreads]
    constructor
    · intro th hth
      rcases List.mem_append.mp hth with hold | hnew
      · exact h.apart.inside th hold
      · obtain rfl := List.mem_singleton.mp hnew
        refine ⟨?_, ?_, fun p hp => pages_in_block hroom.tls hp⟩
        · rw [newThread_base]
          exact Nat.le_add_right _ _
        · rw [newThread_base]
          simp only [threadVmemStart, threadVmemPages, threadLocalPagesSpacing,
            smallPageSize] at hj₀ ⊢
          omega
    · refine List.pairwise_append.mpr ⟨h.apart.apart, List.pairwise_singleton _ _, ?_⟩
      intro a ha b hb
      obtain rfl := List.mem_singleton.mp hb
      exact hfar a ha
  · intro th hth
    rw [hthreads] at hth
    rcases List.mem_append.mp hth with hold | hnew
    · obtain ⟨ja, hja, heq, hprobed⟩ := h.placed th hold
      exact ⟨ja, hja, htls ▸ heq, fun i hi => hgrows _ (hprobed i hi)⟩
    · refine ⟨j, hj, htls ▸ List.mem_singleton.mp hnew, fun i hi => ?_⟩
      rcases Nat.lt_or_eq_of_le hi with hlt | rfl
      · exact hgrows _ (hbefore i hlt)
      · exact hmapped

/-- A thread more that is apart from the others had room. -/
theorem roomBehind_of_created (h : Laid s)
    (hthreads : t.threads = s.threads ++ [newThread s.tls (threadVmemStart + smallPageSize * j)])
    (hfree : probed s.k j = false) (hbefore : ∀ j' < j, probed s.k j' = true)
    (hgood : ThreadsApart t.threads) : RoomBehind s := by
  rw [hthreads] at hgood
  obtain ⟨-, hend, hpages⟩ := hgood.inside (newThread s.tls (threadVmemStart + smallPageSize * j))
    (List.mem_append_right _ (List.mem_singleton_self _))
  rw [newThread_base] at hend
  constructor
  · by_contra hlt
    have hpage := (hpages _ (mem_pages_newThread.mpr
      (Or.inl ⟨threadLocalPagesSpacing, Nat.lt_of_not_le hlt, rfl⟩))).2
    rw [newThread_base] at hpage
    exact Nat.lt_irrefl _ hpage
  · intro a ha i hi
    obtain ⟨ja, hja, rfl, hprobed⟩ := h.placed a ha
    rw [behind_probed]
    by_contra hno
    have hle : j ≤ ja + 1 + i := by
      by_contra hlt
      exact hno (hbefore _ (Nat.lt_of_not_le hlt))
    have hgt : ja < j := by
      by_contra hlt
      rw [hprobed j (Nat.le_of_not_lt hlt)] at hfree
      exact Bool.false_ne_true hfree.symm
    have hpair := (List.pairwise_append.mp hgood.apart).2.2 _ ha _ (List.mem_singleton_self _)
    refine not_apart_of_near ?_ ?_ (threadVmem_aligned ja) (threadVmem_aligned j) hpair
    · simp only [smallPageSize]
      omega
    · simp only [threadLocalPagesSpacing, smallPageSize]
      omega
  · refine ⟨j, ?_, hfree⟩
    simp only [threadVmemStart, threadVmemPages, threadLocalPagesSpacing, smallPageSize] at hend ⊢
    omega

/-- **User threads on every run.**  Whatever mappings a process has before its first thread, whatever
else is mapped in between, and whichever allocations succeed: in every state reached the blocks of
the threads are apart, inside the space for threads, and the creation of a thread has overwritten
no TLS and no stack of an earlier one, exactly when every thread is created where there is room. -/
theorem user_threads_apart_iff (k : Kernel) (tls : TlsTemplate) (es : List ThreadEvent)
    (t : ThreadSpace) :
    Run (fun s e t => stepOf threadStep s e t ∧ ThreadsApart t.threads) ⟨k, tls, []⟩ es t ↔
      Run (Guarded roomForThread (stepOf threadStep)) ⟨k, tls, []⟩ es t := by
  have hok : ∀ s e t, Laid s → stepOf threadStep s e t → roomForThread s e → Laid t := by
    intro s e t h hstep hroom
    cases e with
    | mapPage paddr vaddr =>
      obtain rfl := Option.some.inj hstep
      exact h.grows (mapUserMemory_grows s.k paddr vaddr) rfl rfl
    | create c =>
      obtain ⟨hgrows, htls, ⟨hthreads, -⟩ | ⟨hs, j, hj, hthreads, hfree, hbefore, hmapped⟩⟩ :=
        createUserThread_cases hstep
      · exact h.grows hgrows htls hthreads
      · exact (hroom hs ⟨j, hj, hfree⟩).created h htls hgrows hj hthreads hfree hbefore hmapped
  have hbad : ∀ s e t, Laid s → stepOf threadStep s e t → ¬ roomForThread s e →
      ¬ ThreadsApart t.threads := by
    intro s e t h hstep hroom hgood
    cases e with
    | mapPage paddr vaddr => exact hroom trivial
    | create c =>
      obtain ⟨-, -, ⟨-, hno⟩ | ⟨-, j, -, hthreads, hfree, hbefore, -⟩⟩ :=
        createUserThread_cases hstep
      · exact hroom fun hs hfree => absurd ⟨hs, hfree⟩ hno
      · exact hroom fun _ _ => roomBehind_of_created h hthreads hfree hbefore hgood
  have hinit : Laid ⟨k, tls, []⟩ :=
    ⟨⟨fun _ hth => absurd hth List.not_mem_nil, List.Pairwise.nil⟩,
      fun _ hth => absurd hth List.not_mem_nil⟩
  exact Run.good_iff (fun s h => h.apart) hok hbad hinit

/-- Two threads of a process without TLS, with frames for both. -/
def twoThreads : List ThreadEvent :=
  [.create ⟨true, (List.range 8).map fun i => 0x76600000 + 0x1000 * i⟩,
    .create ⟨true, (List.range 8).map fun i => 0x76608000 + 0x1000 * i⟩]

/-- **The second thread's block** begins one page behind that of the first. -/
theorem second_thread_overlaps :
    ∃ t, Run (stepOf threadStep) ⟨bootKernel, ⟨0, 0⟩, []⟩ twoThreads t ∧
      ¬ ThreadsApart t.threads := by
  have hblocks : (execOk threadStep (fun _ _ => true) ⟨bootKernel, ⟨0, 0⟩, []⟩ twoThreads).map
      (fun t => t.threads.map fun th => (th.base, th.pages.contains 0x6003F000)) =
        some [(0x60000000, true), (0x60001000, true)] := by
    decide +kernel
  obtain ⟨t, ht, hthreads⟩ := Option.map_eq_some_iff.mp hblocks
  refine ⟨t, (run_of_execOk ht).of_guarded, fun hgood => ?_⟩
  obtain ⟨a, rest, hlist, ha, hrest⟩ := List.map_eq_cons_iff.mp hthreads
  obtain ⟨b, rest, rfl, hb, -⟩ := List.map_eq_cons_iff.mp hrest
  have hpair := hgood.apart
  rw [hlist] at hpair
  obtain ⟨-, hguard⟩ := Prod.mk.inj ha
  obtain ⟨hbase, -⟩ := Prod.mk.inj hb
  refine ((List.pairwise_cons.mp hpair).1 b List.mem_cons_self).first _
    (List.contains_iff_mem.mp hguard) ?_
  rw [UserThread.block, hbase]
  decide

end AndixOs.Task
