/-
# The kernel heap

`mm.c` keeps the kernel heap as a row of blocks in one region of `KERNEL_HEAP_SIZE` bytes.  A
block starts with a `k_mem_block_t`: the size of the block before it, the flags (bit 0: in use)
and its own size; there is no other index.  `kmalloc` and `kmalloc_align` walk the row for the
smallest free block that fits and cut it (`prepareBestBlock`, in `vmm.c`); `kfree` merges a block
with its free neighbours, the one behind it through its own size, the one before it through
`prev_size`.

The functions here compute what the C functions compute on byte memory.  Addresses wrap at
2³².  The walks take fuel: `none` stands for a walk that does not end.
-/
import AndixOs.Lib.Mem32
import AndixOs.Lib.Run
import AndixOs.Lib.Tiling

namespace AndixOs.Heap

open AndixOs

/-! ## 1. Blocks in memory -/

/-- `KERNEL_HEAP_SIZE`. -/
def kernelHeapSize : Nat := 0x6400000

/-- `sizeof(k_mem_block_t)`. -/
def hdrSize : Nat := 12

/-- Where `init_heap` puts the heap: at a multiple of 1 MB behind the kernel image. -/
structure Layout where
  heapStart : Nat
  aligned : heapStart % 0x100000 = 0
  low : 0 < heapStart
  room : heapStart + kernelHeapSize < 4294967296

/-- `heap_end`: the last byte of the heap. -/
def Layout.heapEnd (L : Layout) : Nat := L.heapStart + kernelHeapSize - 1

/-- The end of the last block. -/
def Layout.top (L : Layout) : Nat := L.heapStart + kernelHeapSize

/-- A heap at 3 GB + 1 MB. -/
def exampleLayout : Layout := ⟨0xC0100000, by decide, by decide, by decide⟩

def prevSize (m : Mem) (b : Nat) : Nat := load32 m b
def flags (m : Mem) (b : Nat) : Nat := load32 m (b + 4)
def size (m : Mem) (b : Nat) : Nat := load32 m (b + 8)

def setPrevSize (m : Mem) (b v : Nat) : Mem := store32 m b v
def setFlags (m : Mem) (b v : Nat) : Mem := store32 m (b + 4) v
def setSize (m : Mem) (b v : Nat) : Mem := store32 m (b + 8) v

/-- `M_IS_FREE`. -/
def mIsFree (m : Mem) (b : Nat) : Bool := flags m b % 2 == 0

/-- What a walk reads from a header: the size of the block and whether it is free. -/
def rdBlk (m : Mem) (b : Nat) : Nat × Bool := (size m b, mIsFree m b)

/-- `M_LAST_BLOCK`. -/
def mLastBlock (m : Mem) (b : Nat) : Nat := sub32 (sub32 b (prevSize m b)) hdrSize

/-- `M_NEXT_BLOCK`. -/
def mNextBlock (m : Mem) (b : Nat) : Nat := w32 (b + size m b + hdrSize)

/-- `init_heap`, as far as the heap's own memory goes. -/
def initHeap (L : Layout) (m : Mem) : Mem :=
  let m := setFlags m L.heapStart 0
  let m := setPrevSize m L.heapStart 0
  setSize m L.heapStart (kernelHeapSize - hdrSize)

/-! ## 2. Looking for a block -/

/-- The loop shared by `kmalloc` and `kmalloc_align`: walk the blocks and keep the smallest free
one that fits, the first of several.  `best = 0` is the `NULL` the loop starts with. -/
def bestFit (L : Layout) (m : Mem) (fits : Nat → Bool) : Nat → Nat → Nat → Option Nat
  | 0, _, _ => none
  | fuel + 1, current, best =>
    if current < L.heapEnd then
      bestFit L m fits fuel (mNextBlock m current)
        (if mIsFree m current && fits current && (best == 0 || size m best > size m current) then
          current
        else best)
    else some best

/-- More rounds than the heap has blocks. -/
def walkFuel : Nat := kernelHeapSize

/-- The block `kmalloc` takes. -/
def kmallocBest (L : Layout) (m : Mem) (sz : Nat) : Option Nat :=
  bestFit L m (fun b => size m b ≥ sz) walkFuel L.heapStart 0

/-- `check_align`: the next power of two, from 2 to 2³¹; 1 for anything larger. -/
def checkAlign (align : Nat) : Nat :=
  (((List.range 31).map fun i => 2 ^ (i + 1)).find? fun a => align ≤ a).getD 1

/-- The bytes skipped so that a block's data is aligned.  An aligned block skips a whole
`align`. -/
def padding (b align : Nat) : Nat :=
  sub32 align (w32 (b + hdrSize) &&& (align - 1))

/-- The block `kmalloc_align` takes. -/
def kmallocAlignBest (L : Layout) (m : Mem) (sz align : Nat) : Option Nat :=
  bestFit L m (fun b => padding b align < size m b && sub32 (size m b) (padding b align) ≥ sz)
    walkFuel L.heapStart 0

/-! ## 3. Cutting a block -/

/-- `prepareBestBlock`.  The block behind `best` stands at `best + sizeof + best->size`; `next`
leaves the `sizeof` out, so the store to `next->prev_size` lands inside the new block. -/
def prepareBestBlock (L : Layout) (m : Mem) (best sz : Nat) : Mem :=
  if size m best > w32 (sz + hdrSize) then
    let next := w32 (best + size m best)
    let new := w32 (best + sz + hdrSize)
    let m := setPrevSize m new sz
    let m := setFlags m new 0
    let m := setSize m new (sub32 (sub32 (size m best) hdrSize) sz)
    let m := if next < L.heapEnd then setPrevSize m next (size m new) else m
    let m := setSize m best sz
    setFlags m best 1
  else setFlags m best 1

/-- `kmalloc`: the address of the data (0 for `NULL`) and the memory afterwards. -/
def kmalloc (L : Layout) (m : Mem) (sz : UInt32) : Option (Nat × Mem) :=
  if sz = 0 then some (0, m)
  else
    match kmallocBest L m sz.toNat with
    | none => none
    | some best =>
      if best = 0 then some (0, m)
      else some (w32 (best + hdrSize), prepareBestBlock L m best sz.toNat)

/-- The part of `kmalloc_align` that moves the header of the chosen block forward by the padding:
the block before it, as `prev_size` has it, takes the padding over. -/
def moveBlock (m : Mem) (best pad : Nat) : Nat × Mem :=
  let last := mLastBlock m best
  let m := setSize m last (w32 (size m last + pad))
  let bsize := size m best
  let best := sub32 (w32 (w32 (best + hdrSize) + pad)) hdrSize
  let m := setPrevSize m best (size m last)
  (best, setSize m best (sub32 bsize pad))

/-- `kmalloc_align`. -/
def kmallocAlign (L : Layout) (m : Mem) (sz align : UInt32) : Option (Nat × Mem) :=
  let align := checkAlign align.toNat
  if sz = 0 then some (0, m)
  else
    match kmallocAlignBest L m sz.toNat align with
    | none => none
    | some best =>
      if best = 0 then some (0, m)
      else
        let (best, m) := moveBlock m best (padding best align)
        some (w32 (best + hdrSize), prepareBestBlock L m best sz.toNat)

/-! ## 4. Freeing a block -/

/-- The merge with the block before, where `prev_size` says it is. -/
def mergeLast (L : Layout) (m : Mem) (current : Nat) : Nat × Mem :=
  let last := mLastBlock m current
  if last ≥ L.heapStart && mIsFree m last then
    (last, setSize m last (w32 (w32 (size m last + hdrSize) + size m current)))
  else (current, m)

/-- The merge with the block behind, and the update of `prev_size` in the block that is behind
after it. -/
def mergeNext (L : Layout) (m : Mem) (current next : Nat) : Mem :=
  if next < L.heapEnd then
    let (next, m) :=
      if mIsFree m next then
        let m := setSize m current (w32 (w32 (size m current + hdrSize) + size m next))
        (mNextBlock m current, m)
      else (next, m)
    if next < L.heapEnd then setPrevSize m next (size m current) else m
  else m

/-- `kfree`. -/
def kfree (L : Layout) (m : Mem) (blk : Nat) : Mem :=
  if blk ≥ L.heapStart ∧ blk < L.heapEnd then
    let current := sub32 blk hdrSize
    let next := mNextBlock m current
    let (current, m) := mergeLast L m current
    setFlags (mergeNext L m current next) current 0
  else m

/-! ## 5. Sequences of calls -/

/-- The calls, and a client's write to a byte of one of its allocations. -/
inductive HeapOp where
  | kmalloc (size : UInt32)
  | kmallocAlign (size align : UInt32)
  | kfree (blk : Nat)
  | write (p off : Nat) (v : UInt8)

/-- The memory, and the live allocations: address and requested size, newest first. -/
structure HeapState where
  mem : Mem
  live : List (Nat × Nat)

/-- A new allocation is live unless it is `NULL`. -/
def HeapState.alloc (s : HeapState) (sz : UInt32) (r : Nat × Mem) : HeapState :=
  ⟨r.2, if r.1 = 0 then s.live else (r.1, sz.toNat) :: s.live⟩

/-- The allocation at `p` is live and has at least `n` bytes. -/
def HeapState.owns (s : HeapState) (p n : Nat) : Bool := s.live.any fun x => x.1 == p && n ≤ x.2

/-- One operation.  `none`: the call does not return, or the operation is not one a client may
do (freeing what is not live, writing outside its allocations). -/
def heapStep (L : Layout) (s : HeapState) : HeapOp → Option HeapState
  | .kmalloc sz => (kmalloc L s.mem sz).map (s.alloc sz)
  | .kmallocAlign sz align => (kmallocAlign L s.mem sz align).map (s.alloc sz)
  | .kfree blk =>
    if s.owns blk 0 then some ⟨kfree L s.mem blk, s.live.filter fun x => x.1 != blk⟩ else none
  | .write p off v =>
    if s.owns p (off + 1) then some { s with mem := store8 s.mem (p + off) v } else none

/-- The heap `init_heap` leaves. -/
def heapInit (L : Layout) (m : Mem) : HeapState := ⟨initHeap L m, []⟩

/-! ## 6. The steps that keep the heap in order -/

/-- The headers found by walking the heap. -/
def heapWalk (L : Layout) (m : Mem) : List Nat :=
  walkRow hdrSize (rdBlk m) L.top walkFuel L.heapStart

/-- The block before `b`, as `prev_size` has it, is the block before `b`. -/
def followsLast (L : Layout) (m : Mem) (b : Nat) : Bool :=
  (heapWalk L m).contains (mLastBlock m b) && mNextBlock m (mLastBlock m b) == b

/-- A block of `bsize` bytes is not cut for `sz` bytes, or the store to `next->prev_size` spares
the new block's flags and size: the new block gets 1 to 4, 8, or more than 11 bytes. -/
def splitSpares (bsize sz : Nat) : Bool :=
  bsize ≤ sz + hdrSize || !([5, 6, 7, 9, 10, 11].contains (bsize - sz - hdrSize))

/-- The steps that do not take one of the three wrong turns: a cut whose stray store hits the new
header, an aligned allocation whose block has no block before it or the wrong one by
`prev_size`, and a `kfree` that merges with a block that `prev_size` makes up. -/
def heapOk (L : Layout) (s : HeapState) : HeapOp → Bool
  | .kmalloc sz =>
    (kmallocBest L s.mem sz.toNat).all fun b => b == 0 || splitSpares (size s.mem b) sz.toNat
  | .kmallocAlign sz align =>
    let align := checkAlign align.toNat
    (kmallocAlignBest L s.mem sz.toNat align).all fun b => b == 0 || followsLast L s.mem b &&
      splitSpares (size s.mem b - padding b align) sz.toNat
  | .kfree blk =>
    let b := blk - hdrSize
    mLastBlock s.mem b < L.heapStart || !mIsFree s.mem (mLastBlock s.mem b) ||
      followsLast L s.mem b
  | .write _ _ _ => true

end AndixOs.Heap
